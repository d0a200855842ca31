import Scftp.UserMan.Buffers

set_option autoImplicit false

/- queries.cpp and main.cpp call by call: the calls of the MySQL client library with
the texts that go over the wire, and everything that is printed. A statement is put
together in `query`; where it would be written past, there is no result. -/
namespace Scftp.UserMan.Client

open CString Machine Program Program.Prog SqlText Stdin

/-- The calls of the library, and those that print. There is one connection. -/
inductive Api where
  | mysqlInit
  | mysqlRealConnect
  | mysqlQuery (query : Bytes)
  | mysqlStoreResult
  | mysqlFetchRow (res : Nat)
  | mysqlError
  | mysqlClose
  | printf (text : Bytes)
  | fprintfStderr (text : Bytes)
deriving DecidableEq

/-- What a call hands back: whether a pointer is not NULL, a status, a stored result
by its number, a row, a message. How many rows a result has is not looked at; it
bounds the fetch loop. -/
structure Returned where
  handle : Bool
  status : Int
  res : Option Nat
  rows : Nat
  row : Option Row
  message : Bytes

def Returned.nothing : Returned := ⟨false, 0, none, 0, none, []⟩

/-- The `mysql_fetch_row` loop, with a flag that any matching row sets for good. -/
def fetchLoop (res : Nat) (hit : Row → Bool) : Nat → Int → Prog Api Returned Int
  | 0, flag => return flag
  | rows + 1, flag => do
      let fetched ← perform (.mysqlFetchRow res)
      match fetched.row with
      | none => return flag
      | some row => fetchLoop res hit rows (if hit row then 1 else flag)

/-- A failed call of the two that select: the message goes to stderr. -/
def reportError : Prog Api Returned Int := do
  let error ← perform .mysqlError
  let _ ← perform (.fprintfStderr (error.message ++ ascii "\n"))
  return -1

/-- The query by name and its loop, which `isUserExist` and `checkUserCredentials`
both have. -/
def selectUsers (username : Str) (hit : Row → Bool) : Prog Api Returned (Option Int) := do
  let some query := (Statement.select username).assemble | return none
  let sent ← perform (.mysqlQuery query.bytes)
  if sent.status ≠ 0 then return some (← reportError)
  else
    let stored ← perform .mysqlStoreResult
    match stored.res with
    | none => return some (← reportError)
    | some res => return some (← fetchLoop res hit (stored.rows + 1) 0)

/-- The query that changes the table and its report, which `addUser` and
`removeUser` both have. -/
def changeUsers (statement : Statement) (success : Bytes) :
    Prog Api Returned (Option Int) := do
  let some query := statement.assemble | return none
  let sent ← perform (.mysqlQuery query.bytes)
  if sent.status ≠ 0 then
    let error ← perform .mysqlError
    let _ ← perform (.printf (ascii "Error executing query " ++ error.message ++ ascii "\n"))
    return some (-1)
  else
    let _ ← perform (.printf success)
    return some 1

def isUserExist (username : Str) : Prog Api Returned (Option Int) :=
  selectUsers username fun row => strcmp username.bytes row.username.bytes

def addUser (username password : Str) : Prog Api Returned (Option Int) := do
  let some exist ← isUserExist username | return none
  if exist = 1 then return some (-1)
  else changeUsers (.insert username password) (ascii "Added user successfully\n")

def removeUser (username : Str) : Prog Api Returned (Option Int) := do
  let some exist ← isUserExist username | return none
  if exist = 0 then return some (-1)
  else changeUsers (.delete username) (ascii "Removed user " ++ username.bytes ++ ascii "\n")

def checkUserCredentials (username password : Str) : Prog Api Returned (Option Int) := do
  let some exist ← isUserExist username | return none
  if exist = 0 then return some (-1)
  else selectUsers username fun row => strcmp password.bytes row.password.bytes

/-- A call of the queries API, call by call of the library. -/
def program : Call → Prog Api Returned (Option Int)
  | .isUserExist username => isUserExist username
  | .addUser username password => addUser username password
  | .removeUser username => removeUser username
  | .checkUserCredentials username password => checkUserCredentials username password

/-- What `main` prints before an `fgets` call. -/
def promptText : Prompt → Bytes
  | .command => ascii "->"
  | .addName => ascii "username =>"
  | .addPassword => ascii "password =>"
  | .removeName => ascii "username =>"

def mainStep (state : MainState) : Prog Api Returned (Outcome MainState) := do
  let _ ← perform (.printf (promptText state.prompt))
  match state.prompt with
  | .command =>
      let read := fgets state.command 512 state.stdin
      let state := { state with command := read.1, stdin := read.2 }
      if strcmp state.command (ascii "exit\n") then return .exit state
      else if strcmp state.command (ascii "adduser\n") then
        return .next { state with prompt := .addName }
      else if strcmp state.command (ascii "removeuser\n") then
        return .next { state with prompt := .removeName }
      else return .next state
  | .addName =>
      let read := fgets state.username 64 state.stdin
      match cutLast read.1 with
      | none => return .fault
      | some username => do
          let some exist ← isUserExist (toStr username) | return .fault
          let state := { state with username, stdin := read.2 }
          if exist = 1 then
            let _ ← perform (.printf (ascii "user already exists\n"))
            return .next { state with prompt := .command }
          else return .next { state with prompt := .addPassword }
  | .addPassword =>
      let read := fgets state.password 64 state.stdin
      match cutLast read.1 with
      | none => return .fault
      | some password => do
          let some _ ← addUser (toStr state.username) (toStr password) | return .fault
          return .next { state with prompt := .command, password, stdin := read.2 }
  | .removeName =>
      let read := fgets state.username 64 state.stdin
      match cutLast read.1 with
      | none => return .fault
      | some username => do
          let some exist ← isUserExist (toStr username) | return .fault
          let state := { state with username, stdin := read.2, prompt := .command }
          if exist = 1 then
            let some _ ← removeUser (toStr username) | return .fault
            return .next state
          else
            let _ ← perform (.printf (ascii "user doesn't exist\n"))
            return .next state

def mainLoop : Nat → MainState → Prog Api Returned (Outcome MainState)
  | 0, state => .done (.next state)
  | count + 1, state => do
      match ← mainLoop count state with
      | .next state => mainStep state
      | ended => return ended

/-- How far `main` has come after a number of steps of its loop. -/
inductive Progress where
  | returned (status : Int)
  | looping (state : MainState)
  | fault
deriving DecidableEq

def afterLoop : Outcome MainState → Prog Api Returned Progress
  | .next state => return .looping state
  | .exit _ => do
      let _ ← perform .mysqlClose
      return .returned 0
  | .fault => return .fault

/-- `main` with an argument count, up to a number of steps of its loop. -/
def main (argc steps : Nat) (state : MainState) : Prog Api Returned Progress := do
  if argc < 3 then
    let _ ← perform (.printf (ascii "Invalid argument count\n"))
    let _ ← perform (.printf (ascii "example command\n\tuserman <username> <password>\n"))
    return .returned (-1)
  else
    let conn ← perform .mysqlInit
    if conn.handle = false then
      let error ← perform .mysqlError
      let _ ← perform (.printf (ascii "ERROR intializing mysql: " ++ error.message ++ ascii "\n"))
      return .returned (-1)
    else
      let connected ← perform .mysqlRealConnect
      if connected.handle = false then
        let error ← perform .mysqlError
        let _ ← perform
          (.printf (ascii "Error connectig to database: " ++ error.message ++ ascii "\n"))
        let _ ← perform .mysqlClose
        return .returned (-1)
      else
        let _ ← perform (.printf (ascii "Connected to database successfully\n"))
        let outcome ← mainLoop steps state
        afterLoop outcome

end Scftp.UserMan.Client

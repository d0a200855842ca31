import Scftp.Lib.Machine
import Scftp.Lib.Stdin
import Scftp.UserMan.Server

set_option autoImplicit false

/- main.cpp: the command loop. A step runs from one `fgets` call to the next. -/
namespace Scftp.UserMan

open CString Machine Program Program.Prog Stdin

/-- The `fgets` call that comes next. -/
inductive Prompt where
  | command
  | addName
  | addPassword
  | removeName
deriving DecidableEq

/-- The unread input and the buffers of `main`, which keep what earlier rounds
left in them; before the first read they hold whatever the stack held. -/
structure MainState where
  prompt : Prompt
  stdin : Bytes
  command : Bytes
  username : Bytes
  password : Bytes
deriving DecidableEq

def mainStep (state : MainState) : Prog Call Int (Outcome MainState) :=
  match state.prompt with
  | .command =>
      let read := fgets state.command 512 state.stdin
      let state := { state with command := read.1, stdin := read.2 }
      if strcmp state.command (ascii "exit\n") then return .exit state
      else if strcmp state.command (ascii "adduser\n") then
        return .next { state with prompt := .addName }
      else if strcmp state.command (ascii "removeuser\n") then
        return .next { state with prompt := .removeName }
      else return .next state
  | .addName =>
      let read := fgets state.username 64 state.stdin
      match cutLast read.1 with
      | none => return .fault
      | some username => do
          let exist ← perform (.isUserExist (toStr username))
          let state := { state with username, stdin := read.2 }
          if exist = 1 then return .next { state with prompt := .command }
          else return .next { state with prompt := .addPassword }
  | .addPassword =>
      let read := fgets state.password 64 state.stdin
      match cutLast read.1 with
      | none => return .fault
      | some password => do
          let _ ← perform (.addUser (toStr state.username) (toStr password))
          return .next { state with prompt := .command, password, stdin := read.2 }
  | .removeName =>
      let read := fgets state.username 64 state.stdin
      match cutLast read.1 with
      | none => return .fault
      | some username => do
          let exist ← perform (.isUserExist (toStr username))
          let state := { state with username, stdin := read.2, prompt := .command }
          if exist = 1 then
            let _ ← perform (.removeUser (toStr username))
            return .next state
          else return .next state

/-- The first steps of `main`, as one program over the queries API. -/
def mainLoop : Nat → MainState → Prog Call Int (Outcome MainState)
  | 0, state => .done (.next state)
  | count + 1, state => do
      match ← mainLoop count state with
      | .next state => mainStep state
      | ended => return ended

/-- `main` together with the database it is alone on. -/
structure Session where
  main : MainState
  db : Db
deriving DecidableEq

/-- `main` before its first read, with some bytes in its buffers, on a table. -/
def Session.start (stdin command username password : Bytes) (table : Table) : Session :=
  ⟨⟨.command, stdin, command, username, password⟩, ⟨table, []⟩⟩

def Session.after (db : Db) : Outcome MainState → Outcome Session
  | .next main => .next ⟨main, db⟩
  | .exit main => .exit ⟨main, db⟩
  | .fault => .fault

def Server.mainStep (server : Server) (session : Session) : Outcome Session :=
  let outcome := (UserMan.mainStep session.main).run server.callAnswer session.db
  Session.after outcome.2 outcome.1

/-- The prompt a command leads to. -/
def requested (command : Bytes) : Prompt :=
  if strcmp command (ascii "adduser\n") then .addName
  else if strcmp command (ascii "removeuser\n") then .removeName
  else .command

/- What one step does, prompt by prompt. -/
section Steps

variable (server : Server) (main : MainState) (db : Db)

theorem mainStep_command (prompt : main.prompt = .command) :
    server.mainStep ⟨main, db⟩ =
      let read := fgets main.command 512 main.stdin
      let main := { main with command := read.1, stdin := read.2 }
      if strcmp read.1 (ascii "exit\n") then .exit ⟨main, db⟩
      else .next ⟨{ main with prompt := requested read.1 }, db⟩ := by
  simp only [Server.mainStep, UserMan.mainStep, prompt, requested, pure_eq]
  split
  · rfl
  · split
    · rfl
    · split <;> rfl

theorem mainStep_addName (prompt : main.prompt = .addName) :
    server.mainStep ⟨main, db⟩ =
      let read := fgets main.username 64 main.stdin
      match cutLast read.1 with
      | none => .fault
      | some username =>
          .next ⟨{ main with
            username, stdin := read.2
            prompt := if server.exist (toStr username) db = 1 then .command else .addPassword },
            db.sent (.select (toStr username))⟩ := by
  simp only [Server.mainStep, UserMan.mainStep, prompt, pure_eq, perform_bind]
  split
  · rfl
  · rename_i username _
    simp only [run_call, callAnswer_isUserExist]
    split <;> rfl

theorem mainStep_addPassword (prompt : main.prompt = .addPassword) :
    server.mainStep ⟨main, db⟩ =
      let read := fgets main.password 64 main.stdin
      match cutLast read.1 with
      | none => .fault
      | some password =>
          .next ⟨{ main with prompt := .command, password, stdin := read.2 },
            (server.callAnswer (.addUser (toStr main.username) (toStr password)) db).2⟩ := by
  simp only [Server.mainStep, UserMan.mainStep, prompt, pure_eq, perform_bind]
  split <;> rfl

theorem mainStep_removeName (prompt : main.prompt = .removeName) :
    server.mainStep ⟨main, db⟩ =
      let read := fgets main.username 64 main.stdin
      match cutLast read.1 with
      | none => .fault
      | some username =>
          .next ⟨{ main with username, stdin := read.2, prompt := .command },
            if server.exist (toStr username) db = 1 then
              (server.callAnswer (.removeUser (toStr username))
                (db.sent (.select (toStr username)))).2
            else db.sent (.select (toStr username))⟩ := by
  simp only [Server.mainStep, UserMan.mainStep, prompt, pure_eq, perform_bind]
  split
  · rfl
  · rename_i username _
    simp only [run_call, callAnswer_isUserExist]
    split <;> rfl

/-- The buffer the next name or password is read into. -/
def MainState.answerBuffer (main : MainState) : Bytes :=
  match main.prompt with
  | .addPassword => main.password
  | _ => main.username

/-- All that a step at a name or password prompt can do to `main`: a write outside
the buffer when there is nothing to cut, or a round with the input read on and the
command kept. -/
theorem mainStep_answer (request : main.prompt ≠ .command) :
    (server.mainStep ⟨main, db⟩ = .fault ∧
      cutLast (fgets main.answerBuffer 64 main.stdin).1 = none) ∨
      ∃ after, server.mainStep ⟨main, db⟩ = .next after ∧
        after.main.stdin = (fgets main.answerBuffer 64 main.stdin).2 ∧
        after.main.command = main.command ∧
        cutLast (fgets main.answerBuffer 64 main.stdin).1 ≠ none := by
  cases prompt : main.prompt with
  | command => exact absurd prompt request
  | addName =>
      rw [mainStep_addName server main db prompt]
      simp only [MainState.answerBuffer, prompt]
      split
      · exact Or.inl ⟨rfl, by assumption⟩
      · rename_i username cut
        exact Or.inr ⟨_, rfl, rfl, rfl, by simp [cut]⟩
  | addPassword =>
      rw [mainStep_addPassword server main db prompt]
      simp only [MainState.answerBuffer, prompt]
      split
      · exact Or.inl ⟨rfl, by assumption⟩
      · rename_i password cut
        exact Or.inr ⟨_, rfl, rfl, rfl, by simp [cut]⟩
  | removeName =>
      rw [mainStep_removeName server main db prompt]
      simp only [MainState.answerBuffer, prompt]
      split
      · exact Or.inl ⟨rfl, by assumption⟩
      · rename_i username cut
        exact Or.inr ⟨_, rfl, rfl, rfl, by simp [cut]⟩

end Steps

/-- All that a step can do to what `main` has yet to read and to its arrays. -/
theorem mainStep_arrays {server : Server} {main : MainState} {db : Db} {after : Session}
    (stepped : server.mainStep ⟨main, db⟩ = .next after) :
    (∃ buffer size, after.main.stdin = (fgets buffer size main.stdin).2) ∧
      (after.main.username = main.username ∨
        cutLast (fgets main.username 64 main.stdin).1 = some after.main.username) ∧
      (after.main.password = main.password ∨
        cutLast (fgets main.password 64 main.stdin).1 = some after.main.password) := by
  cases prompt : main.prompt with
  | command =>
      rw [mainStep_command server main db prompt] at stepped
      dsimp only at stepped
      split at stepped
      · cases stepped
      · cases stepped
        exact ⟨⟨_, _, rfl⟩, Or.inl rfl, Or.inl rfl⟩
  | addName =>
      rw [mainStep_addName server main db prompt] at stepped
      dsimp only at stepped
      split at stepped
      · cases stepped
      · rename_i name cut
        cases stepped
        exact ⟨⟨_, _, rfl⟩, Or.inr cut, Or.inl rfl⟩
  | addPassword =>
      rw [mainStep_addPassword server main db prompt] at stepped
      dsimp only at stepped
      split at stepped
      · cases stepped
      · rename_i word cut
        cases stepped
        exact ⟨⟨_, _, rfl⟩, Or.inl rfl, Or.inr cut⟩
  | removeName =>
      rw [mainStep_removeName server main db prompt] at stepped
      dsimp only at stepped
      split at stepped
      · cases stepped
      · rename_i name cut
        cases stepped
        exact ⟨⟨_, _, rfl⟩, Or.inr cut, Or.inl rfl⟩

/-- Where `main` stands after a number of steps. -/
def Server.mainRun (server : Server) (session : Session) (count : Nat) : Outcome Session :=
  Machine.run (fun _ => server.mainStep) session count

/-- The machine's run is the run of `main`'s program. -/
theorem mainRun_eq (server : Server) (session : Session) (count : Nat) :
    server.mainRun session count =
      Session.after ((mainLoop count session.main).run server.callAnswer session.db).2
        ((mainLoop count session.main).run server.callAnswer session.db).1 := by
  induction count with
  | zero => rfl
  | succ count ih =>
      rw [mainLoop, run_bind]
      unfold Server.mainRun at ih ⊢
      cases before : (mainLoop count session.main).run server.callAnswer session.db with
      | mk outcome db =>
          rw [before] at ih
          cases outcome with
          | next main => exact run_succ_of_next ih
          | exit main => exact run_succ_of_exit ih
          | fault => exact run_succ_of_fault ih

/-- The calls `main` makes on the way, with the database around each. -/
def Server.mainRecords (server : Server) (session : Session) (count : Nat) :
    List (Record Call Int Db) :=
  (mainLoop count session.main).records server.callAnswer session.db

end Scftp.UserMan

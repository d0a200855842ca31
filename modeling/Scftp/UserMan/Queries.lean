import Scftp.Lib.CString
import Scftp.Lib.Program

set_option autoImplicit false

/- queries.cpp: the four operations on the users table. Each is a program over
the MySQL client, which answers one statement at a time. -/
namespace Scftp.UserMan

open CString Program Program.Prog

/-- A row of the users table as `mysql_fetch_row` hands it over. -/
structure Row where
  username : Str
  password : Str
deriving DecidableEq

/-- A name and a password for examples. -/
def bob : Str := ⟨ascii "bob", by decide⟩
def secret : Str := ⟨ascii "pw", by decide⟩

/-- The statements the operations put into `query`. That they fit into its 512 bytes,
which names of 474 bytes or more do not, is a matter of `Statement.assemble`. -/
inductive Statement where
  | select (username : Str)
  | insert (username password : Str)
  | delete (username : Str)
deriving DecidableEq

/-- The bytes `strcpy` and `strcat` leave in `query`. -/
def Statement.text : Statement → Bytes
  | .select username =>
      ascii "select * from users where username='" ++ username.bytes ++ ascii "';"
  | .insert username password =>
      ascii "INSERT INTO users values('" ++ username.bytes ++ ascii "','" ++ password.bytes ++
        ascii "');"
  | .delete username =>
      ascii "DELETE FROM users where username='" ++ username.bytes ++ ascii "';"

/-- What the client answers to one statement: the status of `mysql_query` and
what the `mysql_store_result` after it returns, `none` for NULL. -/
structure Reply where
  status : Int
  stored : Option (List Row)

/-- The `mysql_fetch_row` loops: a flag that any matching row sets for good. -/
def fetchFlag (hit : Row → Bool) (flag : Int) : List Row → Int
  | [] => flag
  | row :: rest => fetchFlag hit (if hit row then 1 else flag) rest

def isUserExist (username : Str) : Prog Statement Reply Int := do
  let reply ← perform (.select username)
  if reply.status ≠ 0 then return -1
  else match reply.stored with
    | none => return -1
    | some rows => return fetchFlag (fun row => strcmp username.bytes row.username.bytes) 0 rows

def addUser (username password : Str) : Prog Statement Reply Int := do
  let exist ← isUserExist username
  if exist = 1 then return -1
  else
    let reply ← perform (.insert username password)
    if reply.status ≠ 0 then return -1 else return 1

def removeUser (username : Str) : Prog Statement Reply Int := do
  let exist ← isUserExist username
  if exist = 0 then return -1
  else
    let reply ← perform (.delete username)
    if reply.status ≠ 0 then return -1 else return 1

def checkUserCredentials (username password : Str) : Prog Statement Reply Int := do
  let exist ← isUserExist username
  if exist = 0 then return -1
  else
    let reply ← perform (.select username)
    if reply.status ≠ 0 then return -1
    else match reply.stored with
      | none => return -1
      | some rows => return fetchFlag (fun row => strcmp password.bytes row.password.bytes) 0 rows

inductive Call where
  | isUserExist (username : Str)
  | addUser (username password : Str)
  | removeUser (username : Str)
  | checkUserCredentials (username password : Str)
deriving DecidableEq

def Call.program : Call → Prog Statement Reply Int
  | .isUserExist username => UserMan.isUserExist username
  | .addUser username password => UserMan.addUser username password
  | .removeUser username => UserMan.removeUser username
  | .checkUserCredentials username password => UserMan.checkUserCredentials username password

def Call.username : Call → Str
  | .isUserExist username => username
  | .addUser username _ => username
  | .removeUser username => username
  | .checkUserCredentials username _ => username

theorem strcmp_str (left right : Str) : strcmp left.bytes right.bytes = decide (left = right) := by
  rw [Bool.eq_iff_iff, strcmp_iff, cstr_of_noNul _ left.noNul, cstr_of_noNul _ right.noNul,
    decide_eq_true_iff, Str.ext_iff]

theorem fetchFlag_eq (hit : Row → Bool) (rows : List Row) (flag : Int) :
    fetchFlag hit flag rows = if rows.any hit then 1 else flag := by
  induction rows generalizing flag with
  | nil => rfl
  | cons row rest ih =>
      rw [fetchFlag, ih, List.any_cons]
      cases hit row <;> cases rest.any hit <;> rfl

/-- What the existence check makes of one reply. -/
def existFlag (username : Str) (reply : Reply) : Int :=
  if reply.status ≠ 0 then -1
  else match reply.stored with
    | none => -1
    | some rows => if rows.any (fun row => row.username = username) then 1 else 0

/-- What the credential check makes of its own reply. -/
def validFlag (password : Str) (reply : Reply) : Int :=
  if reply.status ≠ 0 then -1
  else match reply.stored with
    | none => -1
    | some rows => if rows.any (fun row => row.password = password) then 1 else 0

private theorem done_ite {α : Type} (condition : Prop) [Decidable condition] (first second : α) :
    (if condition then (Prog.done first : Prog Statement Reply α) else .done second) =
      .done (if condition then first else second) := by
  split <;> rfl

theorem isUserExist_eq (username : Str) :
    isUserExist username = .call (.select username) fun reply =>
      .done (existFlag username reply) := by
  rw [isUserExist, perform_bind]
  congr 1
  funext reply
  unfold existFlag
  split
  · rfl
  · split
    · rfl
    · rename_i rows _
      simp only [pure_eq, fetchFlag_eq, strcmp_str, eq_comm]

/-- The part of `addUser` after its check. -/
def addUser.insert (username password : Str) : Prog Statement Reply Int :=
  .call (.insert username password) fun reply => .done (if reply.status ≠ 0 then -1 else 1)

/-- The part of `removeUser` after its check. -/
def removeUser.delete (username : Str) : Prog Statement Reply Int :=
  .call (.delete username) fun reply => .done (if reply.status ≠ 0 then -1 else 1)

/-- The part of `checkUserCredentials` after its check. -/
def checkUserCredentials.select (username password : Str) : Prog Statement Reply Int :=
  .call (.select username) fun reply => .done (validFlag password reply)

theorem addUser_eq (username password : Str) :
    addUser username password = .call (.select username) fun reply =>
      if existFlag username reply = 1 then .done (-1) else addUser.insert username password := by
  simp only [addUser, isUserExist_eq, call_bind, done_bind, perform_bind, pure_eq, done_ite,
    addUser.insert]

theorem removeUser_eq (username : Str) :
    removeUser username = .call (.select username) fun reply =>
      if existFlag username reply = 0 then .done (-1) else removeUser.delete username := by
  simp only [removeUser, isUserExist_eq, call_bind, done_bind, perform_bind, pure_eq, done_ite,
    removeUser.delete]

theorem checkUserCredentials_eq (username password : Str) :
    checkUserCredentials username password = .call (.select username) fun reply =>
      if existFlag username reply = 0 then .done (-1)
      else checkUserCredentials.select username password := by
  simp only [checkUserCredentials, isUserExist_eq, call_bind, done_bind, perform_bind, pure_eq]
  congr 1
  funext reply
  congr 1
  rw [checkUserCredentials.select]
  congr 1
  funext reply
  unfold validFlag
  split
  · rfl
  · split
    · rfl
    · rename_i rows _
      simp only [fetchFlag_eq, strcmp_str, eq_comm]

/-- A reply that finds nothing and one that finds the name. -/
private def emptyReply : Reply := ⟨0, some []⟩
private def foundReply (username : Str) : Reply := ⟨0, some [⟨username, username⟩]⟩

/-- A call that checks first may send the check and the statement after it. -/
theorem mayCall_checked {check change statement : Statement} {refuses : Reply → Prop}
    [DecidablePred refuses] {status : Reply → Int} (passes : ∃ reply, ¬ refuses reply) :
    (call check fun reply =>
        if refuses reply then done (-1) else call change fun reply => done (status reply)).MayCall
      statement ↔ statement = check ∨ statement = change := by
  rw [mayCall_call]
  apply or_congr_right
  constructor
  · intro later
    obtain ⟨reply, reached⟩ := later
    split at reached
    · exact absurd reached (mayCall_done _ _)
    · simpa only [mayCall_call, mayCall_done, exists_false, or_false] using reached
  · intro same
    obtain ⟨reply, passed⟩ := passes
    refine ⟨reply, ?_⟩
    rw [if_neg passed]
    exact mayCall_call.mpr (Or.inl same)

/-- The statements each call may send. -/
theorem mayCall_program (call : Call) (statement : Statement) :
    call.program.MayCall statement ↔
      match call with
      | .isUserExist username => statement = .select username
      | .addUser username password =>
          statement = .select username ∨ statement = .insert username password
      | .removeUser username => statement = .select username ∨ statement = .delete username
      | .checkUserCredentials username _ => statement = .select username := by
  cases call with
  | isUserExist username =>
      simp only [Call.program, isUserExist_eq, mayCall_call, mayCall_done, exists_false, or_false]
  | addUser username password =>
      simp only [Call.program, addUser_eq]
      exact mayCall_checked ⟨emptyReply, by simp [existFlag, emptyReply]⟩
  | removeUser username =>
      simp only [Call.program, removeUser_eq]
      exact mayCall_checked ⟨foundReply username, by simp [existFlag, foundReply]⟩
  | checkUserCredentials username password =>
      simp only [Call.program, checkUserCredentials_eq]
      exact (mayCall_checked
        ⟨foundReply username, by simp [existFlag, foundReply]⟩).trans or_self_iff

end Scftp.UserMan

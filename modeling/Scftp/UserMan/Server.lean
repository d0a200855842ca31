import Scftp.Lib.Keyed
import Scftp.UserMan.Queries

set_option autoImplicit false

/- The database behind queries.cpp: a table of rows, a comparison for
`username='...'`, and calls of the client that may fail. -/
namespace Scftp.UserMan

open CString Program Program.Prog Keyed

abbrev Table := List Row

/-- What the operations are not told about the server. The client's calls are
counted by statement: `queryFails n` says that `mysql_query` fails for the n-th
statement, `storeFails n` that the `mysql_store_result` after it does. -/
structure Server where
  sameName : Str → Str → Bool
  sameName_self : ∀ name, sameName name name = true
  queryFails : Nat → Bool
  storeFails : Nat → Bool

/-- Byte equality in the WHERE clause, and every call succeeds. -/
def Server.ideal : Server where
  sameName left right := left = right
  sameName_self _ := decide_eq_true rfl
  queryFails _ := false
  storeFails _ := false

/-- The table, and the statements sent so far, the oldest first. -/
structure Db where
  table : Table
  issued : List Statement
deriving DecidableEq

def Db.sent (db : Db) (statement : Statement) : Db :=
  { db with issued := db.issued ++ [statement] }

/-- One statement executed on the table: the table after it and the rows selected. -/
def Server.execute (server : Server) : Statement → Table → Table × List Row
  | .select username, table =>
      (table, table.filter fun row => server.sameName row.username username)
  | .insert username password, table => (table ++ [⟨username, password⟩], [])
  | .delete username, table =>
      (table.filter fun row => !server.sameName row.username username, [])

def Server.answer (server : Server) (statement : Statement) (db : Db) : Reply × Db :=
  if server.queryFails db.issued.length then (⟨1, none⟩, db.sent statement)
  else
    (⟨0, if server.storeFails db.issued.length then none
        else some (server.execute statement db.table).2⟩,
      { db.sent statement with table := (server.execute statement db.table).1 })

def Server.callAnswer (server : Server) (call : Call) (db : Db) : Int × Db :=
  call.program.run server.answer db

/-- At most one row per username. -/
abbrev UniqueNames (table : Table) : Prop := Unique Row.username table

/-- Some row has this name, byte for byte. -/
def Bound (table : Table) (username : Str) : Prop := ∃ row ∈ table, row.username = username

instance (table : Table) (username : Str) : Decidable (Bound table username) :=
  inferInstanceAs (Decidable (∃ row ∈ table, row.username = username))

variable (server : Server)

@[simp] theorem sent_table (db : Db) (statement : Statement) :
    (db.sent statement).table = db.table := rfl

@[simp] theorem sent_issued (db : Db) (statement : Statement) :
    (db.sent statement).issued = db.issued ++ [statement] := rfl

/-- A select leaves the table alone, whether it succeeds or not. -/
@[simp] theorem answer_select (username : Str) (db : Db) :
    (server.answer (.select username) db).2 = db.sent (.select username) := by
  unfold Server.answer
  split <;> rfl

@[simp] theorem answer_issued (statement : Statement) (db : Db) :
    (server.answer statement db).2.issued = db.issued ++ [statement] := by
  unfold Server.answer
  split <;> rfl

def Server.exist (server : Server) (username : Str) (db : Db) : Int :=
  existFlag username (server.answer (.select username) db).1

/-- One of the two calls of the existence check fails for the n-th statement. -/
def Server.selectFails (server : Server) (count : Nat) : Bool :=
  server.queryFails count || server.storeFails count

theorem any_selected (table : Table) (username : Str) :
    (server.execute (.select username) table).2.any (fun row => row.username = username) =
      decide (Bound table username) := by
  rw [Bool.eq_iff_iff, List.any_eq_true, decide_eq_true_iff]
  simp only [Server.execute, List.mem_filter, decide_eq_true_eq]
  constructor
  · rintro ⟨row, ⟨member, _⟩, named⟩
    exact ⟨row, member, named⟩
  · rintro ⟨row, member, named⟩
    exact ⟨row, ⟨member, by rw [named, server.sameName_self]⟩, named⟩

/-- The existence check: -1 when it could not be carried out, else whether the
name is bound. Names the server matches loosely are filtered out by `strcmp`. -/
theorem exist_eq (username : Str) (db : Db) :
    server.exist username db =
      if server.selectFails db.issued.length then -1
      else if Bound db.table username then 1 else 0 := by
  unfold Server.exist existFlag Server.answer Server.selectFails
  cases server.queryFails db.issued.length with
  | true => simp
  | false =>
      cases server.storeFails db.issued.length with
      | true => simp
      | false => simp [any_selected]

theorem callAnswer_isUserExist (username : Str) (db : Db) :
    server.callAnswer (.isUserExist username) db =
      (server.exist username db, db.sent (.select username)) := by
  simp only [Server.callAnswer, Call.program, isUserExist_eq, run_call, run_done, answer_select,
    Server.exist]

theorem callAnswer_addUser (username password : Str) (db : Db) :
    server.callAnswer (.addUser username password) db =
      if server.exist username db = 1 then
        (-1, db.sent (.select username))
      else (addUser.insert username password).run server.answer (db.sent (.select username)) := by
  simp only [Server.callAnswer, Call.program, addUser_eq, run_call, answer_select]
  rw [← Server.exist]
  split <;> rfl

theorem callAnswer_removeUser (username : Str) (db : Db) :
    server.callAnswer (.removeUser username) db =
      if server.exist username db = 0 then
        (-1, db.sent (.select username))
      else (removeUser.delete username).run server.answer (db.sent (.select username)) := by
  simp only [Server.callAnswer, Call.program, removeUser_eq, run_call, answer_select]
  rw [← Server.exist]
  split <;> rfl

theorem callAnswer_checkUserCredentials (username password : Str) (db : Db) :
    server.callAnswer (.checkUserCredentials username password) db =
      if server.exist username db = 0 then
        (-1, db.sent (.select username))
      else (checkUserCredentials.select username password).run server.answer
        (db.sent (.select username)) := by
  simp only [Server.callAnswer, Call.program, checkUserCredentials_eq, run_call, answer_select]
  rw [← Server.exist]
  split <;> rfl

theorem run_insert (username password : Str) (db : Db) :
    (addUser.insert username password).run server.answer db =
      if server.queryFails db.issued.length then (-1, db.sent (.insert username password))
      else (1, ⟨db.table ++ [⟨username, password⟩], db.issued ++ [.insert username password]⟩) := by
  simp only [addUser.insert, run_call, run_done, Server.answer]
  split <;> rfl

theorem run_delete (username : Str) (db : Db) :
    (removeUser.delete username).run server.answer db =
      if server.queryFails db.issued.length then (-1, db.sent (.delete username))
      else (1, ⟨db.table.filter fun row => !server.sameName row.username username,
        db.issued ++ [.delete username]⟩) := by
  simp only [removeUser.delete, run_call, run_done, Server.answer]
  split <;> rfl

theorem run_select (username password : Str) (db : Db) :
    (checkUserCredentials.select username password).run server.answer db =
      (validFlag password (server.answer (.select username) db).1, db.sent (.select username)) := by
  simp only [checkUserCredentials.select, run_call, run_done, answer_select]

end Scftp.UserMan

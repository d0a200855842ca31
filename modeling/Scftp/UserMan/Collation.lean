import Scftp.UserMan.Server

set_option autoImplicit false

/- Servers whose comparison for `username='...'` takes different names for the
same. `isUserExist` filters the rows with `strcmp`, the other statements do not. -/
namespace Scftp.UserMan

open CString Program Program.Prog

def Server.reliable (server : Server) : Server :=
  { server with
    queryFails := fun _ => false
    storeFails := fun _ => false }

/-- `removeUser` keeps every row of another name. -/
def Server.RemovesOnly (server : Server) (username : Str) (db : Db) : Prop :=
  (server.callAnswer (.removeUser username) db).2.table.filter (·.username ≠ username) =
    db.table.filter (·.username ≠ username)

/-- `checkUserCredentials` returns 1 only for a row of this name and password. -/
def Server.VouchesOnly (server : Server) (username : Str) (db : Db) : Prop :=
  ∀ password, (server.callAnswer (.checkUserCredentials username password) db).1 = 1 →
    ⟨username, password⟩ ∈ db.table

/-- The server takes no row of another name for this one. -/
def Server.Apart (server : Server) (username : Str) (table : Table) : Prop :=
  ∀ row ∈ table, server.sameName row.username username = true → row.username = username

/-- The existence check lets `removeUser` and `checkUserCredentials` go on. -/
def Server.GoesOn (server : Server) (username : Str) (db : Db) : Prop :=
  server.selectFails db.issued.length = true ∨ Bound db.table username

variable (server : Server)

theorem exist_eq_zero_iff (username : Str) (db : Db) :
    server.exist username db = 0 ↔ ¬ server.GoesOn username db := by
  rw [exist_eq, Server.GoesOn]
  cases server.selectFails db.issued.length with
  | true => simp
  | false =>
      by_cases bound : Bound db.table username
      · simp [bound]
      · simp [bound]

theorem delete_keeps_iff (username : Str) (table : Table) :
    (server.execute (.delete username) table).1.filter (·.username ≠ username) =
        table.filter (·.username ≠ username) ↔ server.Apart username table := by
  rw [Server.execute, List.filter_filter]
  constructor
  · intro same row member related
    by_contra other
    have kept : row ∈ table.filter (·.username ≠ username) := by
      simpa [member] using other
    rw [← same] at kept
    simp [related] at kept
  · intro apart
    apply List.filter_congr
    intro row member
    cases related : server.sameName row.username username with
    | true => simp [apart row member related]
    | false => simp

theorem removesOnly_iff (username : Str) (db : Db) :
    server.RemovesOnly username db ↔
      (server.GoesOn username db → server.queryFails (db.issued.length + 1) = false →
        server.Apart username db.table) := by
  rw [Server.RemovesOnly, callAnswer_removeUser]
  by_cases goes : server.GoesOn username db
  · have checked : server.exist username db ≠ 0 :=
      fun zero => (exist_eq_zero_iff server username db).mp zero goes
    rw [if_neg checked, run_delete, sent_issued, List.length_append, List.length_singleton]
    cases server.queryFails (db.issued.length + 1) with
    | true => simp
    | false =>
        have deleted := delete_keeps_iff server username db.table
        simpa [goes, Server.execute] using deleted
  · have checked := (exist_eq_zero_iff server username db).mpr goes
    rw [if_pos checked]
    simp [goes]

theorem validFlag_eq_one {username password : Str} {db : Db}
    (valid : validFlag password (server.answer (.select username) db).1 = 1) :
    server.queryFails db.issued.length = false ∧
      ∃ row ∈ db.table, server.sameName row.username username = true ∧
        row.password = password := by
  unfold validFlag Server.answer at valid
  cases fails : server.queryFails db.issued.length with
  | true => simp [fails] at valid
  | false =>
      cases stored : server.storeFails db.issued.length with
      | true => simp [fails, stored] at valid
      | false =>
          simp only [fails, stored, Bool.false_eq_true, ↓reduceIte, ne_eq, not_true_eq_false,
            Server.execute] at valid
          split at valid
          · rename_i found
            obtain ⟨row, member, equal⟩ := List.any_eq_true.mp found
            obtain ⟨present, related⟩ := List.mem_filter.mp member
            exact ⟨rfl, row, present, related, by simpa using equal⟩
          · cases valid

theorem vouchesOnly_of_apart (username : Str) (db : Db)
    (safe : server.GoesOn username db → server.queryFails (db.issued.length + 1) = false →
      server.Apart username db.table) :
    server.VouchesOnly username db := by
  intro password valid
  rw [callAnswer_checkUserCredentials] at valid
  split at valid
  · cases valid
  · rename_i checked
    rw [run_select] at valid
    obtain ⟨sent, row, member, related, same⟩ := validFlag_eq_one server valid
    rw [sent_issued, List.length_append, List.length_singleton] at sent
    have goes : server.GoesOn username db := by
      by_contra stops
      exact checked ((exist_eq_zero_iff server username db).mpr stops)
    have named : row.username = username := safe goes sent row member related
    rw [show (⟨username, password⟩ : Row) = row by rw [← named, ← same]]
    exact member

/-- After any calls that all succeed, `removeUser` and `checkUserCredentials`
agree with `isUserExist` on who a user is exactly when the server takes no other
row's name for the user's, unless they stop before their own statement or it
fails. -/
theorem oneUser_iff (calls : List Call) (username : Str) :
    let db := ((Prog.sequence calls).run server.reliable.callAnswer ⟨[], []⟩).2
    server.RemovesOnly username db ∧ server.VouchesOnly username db ↔
      (server.GoesOn username db → server.queryFails (db.issued.length + 1) = false →
        server.Apart username db.table) := by
  intro db
  constructor
  · intro agree
    exact (removesOnly_iff server username db).mp agree.1
  · intro safe
    exact ⟨(removesOnly_iff server username db).mpr safe,
      vouchesOnly_of_apart server username db safe⟩

def lower (byte : UInt8) : UInt8 := if 65 ≤ byte && byte ≤ 90 then byte + 32 else byte

def Server.caseless : Server where
  sameName left right := left.bytes.map lower == right.bytes.map lower
  sameName_self _ := beq_self_eq_true _
  queryFails _ := false
  storeFails _ := false

def capitalBob : Str := ⟨ascii "Bob", by decide⟩

/-- Bob and bob are both added. Removing bob deletes both, and bob is vouched for
with the password of Bob. -/
theorem caseless_removes_both :
    let db := ((Prog.sequence [.addUser capitalBob capitalBob, .addUser bob secret]).run
      Server.caseless.callAnswer ⟨[], []⟩).2
    db.table = [⟨capitalBob, capitalBob⟩, ⟨bob, secret⟩] ∧
      (Server.caseless.callAnswer (.removeUser bob) db).2.table = [] ∧
      (Server.caseless.callAnswer (.checkUserCredentials bob capitalBob) db).1 = 1 ∧
      ¬ Server.caseless.RemovesOnly bob db ∧ ¬ Server.caseless.VouchesOnly bob db := by
  have kept : ¬ (⟨bob, capitalBob⟩ : Row) ∈ [⟨capitalBob, capitalBob⟩, ⟨bob, secret⟩] := by decide
  refine ⟨by decide, by decide, by decide, by unfold Server.RemovesOnly; decide, ?_⟩
  intro vouches
  exact kept (vouches capitalBob (by decide))

end Scftp.UserMan

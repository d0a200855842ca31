import Scftp.UserMan.Main

set_option autoImplicit false

/- Calls whose existence check could not be carried out. `isUserExist` then
returns -1, which `addUser` compares with 1 and the others with 0. -/
namespace Scftp.UserMan

open CString Program Program.Prog Keyed

def Statement.mutates : Statement → Bool
  | .select _ => false
  | .insert _ _ => true
  | .delete _ => true

/-- The INSERT and DELETE statements sent so far. -/
def Db.mutations (db : Db) : List Statement := db.issued.filter Statement.mutates

@[simp] theorem sent_select_mutations (db : Db) (username : Str) :
    (db.sent (.select username)).mutations = db.mutations := by
  simp only [Db.mutations, sent_issued, List.filter_append, Statement.mutates,
    List.filter_cons_of_neg, Bool.false_eq_true, not_false_eq_true, List.filter_nil,
    List.append_nil]

/-- `isUserExist` returns -1 at the start of a call. -/
def Server.CheckFailed (server : Server) (call : Call) (db : Db) : Prop :=
  (server.callAnswer (.isUserExist call.username) db).1 = -1

/-- With the check failed, a call refuses: it returns -1, sends no INSERT or
DELETE and leaves the table as it was. -/
def Server.FailsClosed (server : Server) (record : Record Call Int Db) : Prop :=
  server.CheckFailed record.op record.before →
    record.result = -1 ∧ record.after.mutations = record.before.mutations ∧
      record.after.table = record.before.table

/-- The client calls a call of the API can lose: a failed check must be none of
`addUser`'s and `removeUser`'s, and one of `checkUserCredentials` only when the
select after it fails too. The count is that of the statements sent before. -/
def Server.Tolerates (server : Server) (call : Call) (count : Nat) : Prop :=
  match call with
  | .isUserExist _ => True
  | .addUser _ _ => server.selectFails count = false
  | .removeUser _ => server.selectFails count = false
  | .checkUserCredentials _ _ =>
      server.selectFails count = false ∨ server.selectFails (count + 1) = true

theorem checkFailed_iff (server : Server) (call : Call) (db : Db) :
    server.CheckFailed call db ↔ server.selectFails db.issued.length = true := by
  rw [Server.CheckFailed, callAnswer_isUserExist, exist_eq]
  cases server.selectFails db.issued.length with
  | true => simp
  | false =>
      simp only [Bool.false_eq_true, ↓reduceIte, iff_false]
      split <;> decide

theorem exist_of_failed (server : Server) (username : Str) (db : Db)
    (failed : server.selectFails db.issued.length = true) :
    server.exist username db = -1 := by
  rw [exist_eq, if_pos failed]

theorem validFlag_eq_neg_one (server : Server) (username password : Str) (db : Db) :
    validFlag password (server.answer (.select username) db).1 = -1 ↔
      server.selectFails db.issued.length = true := by
  unfold validFlag Server.answer Server.selectFails
  cases server.queryFails db.issued.length with
  | true => simp
  | false =>
      cases server.storeFails db.issued.length with
      | true => simp
      | false =>
          simp only [Bool.false_eq_true, ↓reduceIte, ne_eq, not_true_eq_false]
          split <;> simp

theorem not_failsClosed (server : Server) (call : Call) (db : Db) (statement : Statement)
    (failed : server.CheckFailed call db) (mutates : statement.mutates = true)
    (sent : (server.callAnswer call db).2.issued =
      db.issued ++ [.select call.username] ++ [statement]) :
    ¬ server.FailsClosed
      ⟨db, call, (server.callAnswer call db).1, (server.callAnswer call db).2⟩ := by
  intro closed
  have kept := congrArg List.length (closed failed).2.1
  simp only [Db.mutations, sent, List.filter_append, List.length_append,
    List.filter_cons_of_pos mutates, List.filter_nil, List.length_singleton] at kept
  omega

theorem failsClosed_iff (server : Server) (call : Call) (db : Db) :
    server.FailsClosed ⟨db, call, (server.callAnswer call db).1, (server.callAnswer call db).2⟩ ↔
      server.Tolerates call db.issued.length := by
  have check := checkFailed_iff server call db
  cases failed : server.selectFails db.issued.length with
  | false =>
      rw [Server.FailsClosed, check, failed]
      cases call <;> simp [Server.Tolerates, failed]
  | true =>
      have lost := check.mpr failed
      have flag := exist_of_failed server call.username db failed
      cases call with
      | isUserExist username =>
          rw [Call.username] at flag
          rw [Server.FailsClosed, callAnswer_isUserExist, flag]
          simp [Server.Tolerates]
      | addUser username password =>
          rw [Call.username] at flag
          apply iff_of_false _ (by simp [Server.Tolerates, failed])
          apply not_failsClosed server _ db (.insert username password) lost rfl
          rw [callAnswer_addUser, flag, if_neg (by decide), addUser.insert, run_call, run_done,
            answer_issued]
          rfl
      | removeUser username =>
          rw [Call.username] at flag
          apply iff_of_false _ (by simp [Server.Tolerates, failed])
          apply not_failsClosed server _ db (.delete username) lost rfl
          rw [callAnswer_removeUser, flag, if_neg (by decide), removeUser.delete, run_call,
            run_done, answer_issued]
          rfl
      | checkUserCredentials username password =>
          rw [Call.username] at flag
          rw [Server.FailsClosed, callAnswer_checkUserCredentials, flag, if_neg (by decide),
            run_select]
          simp [Server.Tolerates, failed, lost, validFlag_eq_neg_one]

/-- A call that tolerates the failures keeps names unique, whatever names the
server takes for the same. -/
theorem callAnswer_unique (server : Server) (call : Call) (db : Db)
    (tolerates : server.Tolerates call db.issued.length) (unique : UniqueNames db.table) :
    UniqueNames (server.callAnswer call db).2.table := by
  cases call with
  | isUserExist username =>
      rw [callAnswer_isUserExist]
      exact unique
  | addUser username password =>
      rw [callAnswer_addUser, exist_eq, show server.selectFails db.issued.length = false
        from tolerates]
      by_cases bound : Bound db.table username
      · simp only [Bool.false_eq_true, bound, ↓reduceIte]
        exact unique
      · simp only [Bool.false_eq_true, bound, ↓reduceIte, Int.reduceEq, run_insert]
        split
        · exact unique
        · exact unique.append _ fun other member same => bound ⟨other, member, same⟩
  | removeUser username =>
      rw [callAnswer_removeUser]
      split
      · exact unique
      · rw [run_delete]
        split
        · exact unique
        · exact unique.filter _
  | checkUserCredentials username password =>
      rw [callAnswer_checkUserCredentials]
      split
      · exact unique
      · rw [run_select]
        exact unique

/-- Any client of the API fails closed throughout, and keeps names unique,
exactly when each of its calls tolerates the failures it meets. -/
theorem client_failsClosed_iff {α : Type} (server : Server) (client : Prog Call Int α) (db : Db) :
    ((∀ record ∈ client.records server.callAnswer db, server.FailsClosed record) ∧
      (UniqueNames db.table → UniqueNames (client.run server.callAnswer db).2.table ∧
        ∀ record ∈ client.records server.callAnswer db, UniqueNames record.after.table)) ↔
      ∀ record ∈ client.records server.callAnswer db,
        server.Tolerates record.op record.before.issued.length := by
  have each : ∀ record ∈ client.records server.callAnswer db,
      (server.FailsClosed record ↔ server.Tolerates record.op record.before.issued.length) := by
    intro record member
    have answered := records_answer server.callAnswer client db record member
    rw [← failsClosed_iff, ← answered]
  constructor
  · rintro ⟨closed, _⟩ record member
    exact (each record member).mp (closed record member)
  · intro tolerates
    refine ⟨fun record member => (each record member).mpr (tolerates record member), ?_⟩
    intro unique
    obtain ⟨final, around⟩ := run_invariant server.callAnswer
      (fun db => UniqueNames db.table) client
      db unique (by
        intro record member held
        have answered := records_answer server.callAnswer client db record member
        rw [show record.after = (server.callAnswer record.op record.before).2 from
          congrArg Prod.snd answered]
        exact callAnswer_unique server record.op record.before (tolerates record member) held)
    exact ⟨final, fun record member => (around record member).2⟩

/-- Direct calls and every run of `main`: they fail closed, and keep names
unique, exactly when each call tolerates the failures it meets. -/
theorem failClosed_iff (server : Server) (db : Db) :
    (∀ calls : List Call,
      ((∀ record ∈ (Prog.sequence calls).records server.callAnswer db, server.FailsClosed record) ∧
        (UniqueNames db.table →
          UniqueNames ((Prog.sequence calls).run server.callAnswer db).2.table ∧
          ∀ record ∈ (Prog.sequence calls).records server.callAnswer db,
            UniqueNames record.after.table)) ↔
        ∀ record ∈ (Prog.sequence calls).records server.callAnswer db,
          server.Tolerates record.op record.before.issued.length) ∧
    ∀ (main : MainState) (count : Nat),
      ((∀ record ∈ server.mainRecords ⟨main, db⟩ count, server.FailsClosed record) ∧
        (UniqueNames db.table →
          UniqueNames ((mainLoop count main).run server.callAnswer db).2.table ∧
          ∀ record ∈ server.mainRecords ⟨main, db⟩ count, UniqueNames record.after.table)) ↔
        ∀ record ∈ server.mainRecords ⟨main, db⟩ count,
          server.Tolerates record.op record.before.issued.length :=
  ⟨fun calls => client_failsClosed_iff server (Prog.sequence calls) db,
    fun main count => client_failsClosed_iff server (mainLoop count main) db⟩

/-- The first select gets no answer; everything after it does. -/
def droppedCheck : Server := { Server.ideal with queryFails := fun count => count = 0 }

/-- With the check lost, `addUser` adds a second row for a name that exists. -/
theorem addUser_fails_open :
    ¬ (droppedCheck.FailsClosed ⟨⟨[⟨bob, secret⟩], []⟩, .addUser bob secret, 1,
        ⟨[⟨bob, secret⟩, ⟨bob, secret⟩], [.select bob, .insert bob secret]⟩⟩) ∧
      droppedCheck.callAnswer (.addUser bob secret) ⟨[⟨bob, secret⟩], []⟩ =
        (1, ⟨[⟨bob, secret⟩, ⟨bob, secret⟩], [.select bob, .insert bob secret]⟩) ∧
      UniqueNames [⟨bob, secret⟩] ∧ ¬ UniqueNames [⟨bob, secret⟩, ⟨bob, secret⟩] := by
  refine ⟨?_, by decide, by decide, by decide⟩
  intro closed
  have impossible := (closed (by unfold Server.CheckFailed; decide)).1
  exact absurd impossible (by decide)

end Scftp.UserMan

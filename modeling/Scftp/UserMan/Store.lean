import Scftp.UserMan.Server

set_option autoImplicit false

/- Calls made one after the other are a finite map from names to passwords. -/
namespace Scftp.UserMan

open CString Program Program.Prog Keyed

/-- The purpose of the users table: each name has at most one password. -/
abbrev Store := Str → Option Str

/-- The operations on the map. -/
def Store.answer : Call → Store → Int × Store
  | .isUserExist username, store => (if (store username).isSome then 1 else 0, store)
  | .addUser username password, store =>
      if (store username).isSome then (-1, store)
      else (1, Function.update store username (some password))
  | .removeUser username, store =>
      if (store username).isSome then (1, Function.update store username none) else (-1, store)
  | .checkUserCredentials username password, store =>
      match store username with
      | none => (-1, store)
      | some bound => (if bound = password then 1 else 0, store)

/-- The map a table stands for. -/
def bindings (table : Table) : Store :=
  fun username => (lookup Row.username table username).map Row.password

theorem bindings_isSome (table : Table) (username : Str) :
    (bindings table username).isSome ↔ Bound table username := by
  rw [bindings, Option.isSome_map, lookup_isSome, Bound]

theorem bindings_append (table : Table) (username password : Str)
    (absent : ¬ Bound table username) :
    bindings (table ++ [⟨username, password⟩]) =
      Function.update (bindings table) username (some password) := by
  have fresh : ∀ other ∈ table, other.username ≠ username :=
    fun other member same => absent ⟨other, member, same⟩
  funext name
  have appended := congrFun (lookup_append table ⟨username, password⟩ fresh) name
  simp only [bindings, appended]
  by_cases same : name = username
  · subst same
    simp
  · simp [Function.update_of_ne same, bindings]

theorem bindings_delete (table : Table) (username : Str) :
    bindings (table.filter fun row => !decide (row.username = username)) =
      Function.update (bindings table) username none := by
  funext name
  have deleted : lookup Row.username (table.filter (·.username ≠ username)) name =
      Function.update (lookup Row.username table) username none name :=
    congrFun (lookup_delete table username) name
  simp only [decide_not, ne_eq] at deleted
  simp only [bindings, deleted]
  by_cases same : name = username
  · subst same
    simp
  · simp [Function.update_of_ne same, bindings]

theorem ideal_exist (username : Str) (db : Db) :
    Server.ideal.exist username db = if (bindings db.table username).isSome then 1 else 0 := by
  simp only [exist_eq, Server.selectFails, Server.ideal, Bool.or_self, Bool.false_eq_true,
    ↓reduceIte, bindings_isSome]

/-- With unique names the rows selected for a name are its one row, so the loop
that any row can satisfy compares exactly the bound password. -/
theorem validFlag_ideal (table : Table) (unique : UniqueNames table) (username password : Str)
    (issued : List Statement) :
    validFlag password (Server.ideal.answer (.select username) ⟨table, issued⟩).1 =
      match bindings table username with
      | none => 0
      | some bound => if bound = password then 1 else 0 := by
  have selected := unique.filter_eq username
  simp only [validFlag, Server.answer, Server.ideal, Server.execute, Bool.false_eq_true, ↓reduceIte,
    ne_eq, not_true_eq_false, selected, bindings]
  cases lookup Row.username table username with
  | none => rfl
  | some row => simp

/-- One call on a table with unique names is one operation on its map. -/
theorem callAnswer_ideal (call : Call) (db : Db) (unique : UniqueNames db.table) :
    (Server.ideal.callAnswer call db).1 = (Store.answer call (bindings db.table)).1 ∧
      bindings (Server.ideal.callAnswer call db).2.table =
        (Store.answer call (bindings db.table)).2 ∧
      UniqueNames (Server.ideal.callAnswer call db).2.table := by
  cases call with
  | isUserExist username =>
      rw [callAnswer_isUserExist, ideal_exist]
      exact ⟨rfl, rfl, unique⟩
  | addUser username password =>
      rw [callAnswer_addUser, ideal_exist, Store.answer]
      by_cases bound : (bindings db.table username).isSome
      · simp only [bound, ↓reduceIte, true_and]
        exact ⟨rfl, unique⟩
      · have absent : ¬ Bound db.table username :=
          fun found => bound ((bindings_isSome _ _).mpr found)
        simp only [bound, Bool.false_eq_true, ↓reduceIte, Int.reduceEq, run_insert, Server.ideal,
          sent_table, true_and]
        exact ⟨bindings_append _ _ _ absent,
          unique.append _ fun other member same => absent ⟨other, member, same⟩⟩
  | removeUser username =>
      rw [callAnswer_removeUser, ideal_exist, Store.answer]
      by_cases bound : (bindings db.table username).isSome
      · simp only [bound, ↓reduceIte, Int.reduceEq, run_delete, Server.ideal, Bool.false_eq_true,
          sent_table, true_and]
        exact ⟨bindings_delete _ _, unique.filter _⟩
      · simp only [bound, Bool.false_eq_true, ↓reduceIte, true_and]
        exact ⟨rfl, unique⟩
  | checkUserCredentials username password =>
      rw [callAnswer_checkUserCredentials, ideal_exist, Store.answer]
      cases bound : bindings db.table username with
      | none => exact ⟨rfl, rfl, unique⟩
      | some stored =>
          have valid := validFlag_ideal db.table unique username password
            (db.issued ++ [.select username])
          rw [bound] at valid
          simp only [Option.isSome_some, ↓reduceIte, Int.reduceEq, run_select]
          exact ⟨valid, rfl, unique⟩

def Call.Reads : Call → Prop
  | .isUserExist _ => True
  | .addUser _ _ => False
  | .removeUser _ => False
  | .checkUserCredentials _ _ => True

theorem callAnswer_ideal_unchanged (call : Call) (db : Db)
    (refused : (Server.ideal.callAnswer call db).1 = -1 ∨ call.Reads) :
    (Server.ideal.callAnswer call db).2.table = db.table := by
  cases call with
  | isUserExist username => rw [callAnswer_isUserExist, sent_table]
  | addUser username password =>
      rw [callAnswer_addUser] at refused ⊢
      split at refused
      · rename_i exist
        rw [if_pos exist, sent_table]
      · rw [run_insert] at refused
        simp [Server.ideal, Call.Reads] at refused
  | removeUser username =>
      rw [callAnswer_removeUser] at refused ⊢
      split at refused
      · rename_i exist
        rw [if_pos exist, sent_table]
      · rw [run_delete] at refused
        simp [Server.ideal, Call.Reads] at refused
  | checkUserCredentials username password =>
      rw [callAnswer_checkUserCredentials]
      split
      · rw [sent_table]
      · rw [run_select, sent_table, sent_table]

/-- The map operations touch only the name they are about. -/
theorem answer_frame (call : Call) (store : Store) (name : Str) (other : name ≠ call.username) :
    (Store.answer call store).2 name = store name := by
  cases call with
  | isUserExist username => rfl
  | addUser username password =>
      simp only [Store.answer]
      split
      · rfl
      · exact Function.update_of_ne other _ _
  | removeUser username =>
      simp only [Store.answer]
      split
      · exact Function.update_of_ne other _ _
      · rfl
  | checkUserCredentials username password =>
      simp only [Store.answer]
      split <;> rfl

/-- Only a removal of a name unbinds it. -/
theorem answer_bound {call : Call} {store : Store} {username : Str}
    (bound : (store username).isSome)
    (kept : call ≠ .removeUser username) : ((Store.answer call store).2 username).isSome := by
  by_cases named : username = call.username
  · cases call with
    | isUserExist name => exact bound
    | checkUserCredentials name password =>
        simp only [Store.answer]
        split <;> exact bound
    | removeUser name => exact absurd (congrArg Call.removeUser named.symm) kept
    | addUser name password =>
        simp only [Call.username] at named
        subst named
        simp only [Store.answer, bound, ↓reduceIte]
  · rw [answer_frame call store username named]
    exact bound

theorem answer_absent {call : Call} {store : Store} {username : Str}
    (absent : store username = none)
    (other : ∀ password, call ≠ .addUser username password) :
    (Store.answer call store).2 username = none := by
  by_cases named : username = call.username
  · cases call with
    | isUserExist name => exact absent
    | checkUserCredentials name password =>
        simp only [Store.answer]
        split <;> exact absent
    | removeUser name =>
        simp only [Call.username] at named
        subst named
        simp only [Store.answer, absent, Option.isSome_none, Bool.false_eq_true, ↓reduceIte]
    | addUser name password =>
        exact absurd (congrArg (Call.addUser · password) named.symm) (other password)
  · rw [answer_frame call store username named]
    exact absent

/-- Every sequence of calls returns what the map returns and leaves the table of
the map's bindings. Around each call names stay unique, refused calls and reads
leave the table as it was, and no other name's binding changes. The statements are
those meant: this says nothing of arguments that are read otherwise (`ReadAsMeant`) or
overflow `query` (`Statement.Fits`). -/
theorem calls_refine_store (calls : List Call) (db : Db) (unique : UniqueNames db.table) :
    ((Prog.sequence calls).run Server.ideal.callAnswer db).1 =
        ((Prog.sequence calls).run Store.answer (bindings db.table)).1 ∧
      bindings ((Prog.sequence calls).run Server.ideal.callAnswer db).2.table =
        ((Prog.sequence calls).run Store.answer (bindings db.table)).2 ∧
      UniqueNames ((Prog.sequence calls).run Server.ideal.callAnswer db).2.table ∧
      ∀ record ∈ (Prog.sequence calls).records Server.ideal.callAnswer db,
        UniqueNames record.after.table ∧
        record.result = (Store.answer record.op (bindings record.before.table)).1 ∧
        bindings record.after.table = (Store.answer record.op (bindings record.before.table)).2 ∧
        (record.result = -1 ∨ record.op.Reads → record.after.table = record.before.table) ∧
        ∀ name, name ≠ record.op.username →
          bindings record.after.table name = bindings record.before.table name := by
  obtain ⟨results, final, uniqueAfter⟩ := run_simulation Server.ideal.callAnswer Store.answer
    (fun db store => bindings db.table = store ∧ UniqueNames db.table)
    (by
      rintro call state _ ⟨rfl, held⟩
      obtain ⟨same, after, kept⟩ := callAnswer_ideal call state held
      exact ⟨same, after, kept⟩)
    (Prog.sequence calls) db (bindings db.table) ⟨rfl, unique⟩
  obtain ⟨_, around⟩ := run_invariant Server.ideal.callAnswer (fun db => UniqueNames db.table)
    (Prog.sequence calls) db unique (by
      intro record member held
      have answered := records_answer Server.ideal.callAnswer (Prog.sequence calls) db record member
      rw [show record.after = (Server.ideal.callAnswer record.op record.before).2 from
        congrArg Prod.snd answered]
      exact (callAnswer_ideal record.op record.before held).2.2)
  refine ⟨results, final, uniqueAfter, ?_⟩
  intro record member
  have answered := records_answer Server.ideal.callAnswer (Prog.sequence calls) db record member
  have result : record.result = (Server.ideal.callAnswer record.op record.before).1 :=
    congrArg Prod.fst answered
  have after : record.after = (Server.ideal.callAnswer record.op record.before).2 :=
    congrArg Prod.snd answered
  obtain ⟨before, kept⟩ := around record member
  obtain ⟨same, bound, _⟩ := callAnswer_ideal record.op record.before before
  rw [← after] at bound
  rw [← result] at same
  refine ⟨kept, same, bound, ?_, ?_⟩
  · intro refused
    rw [after]
    exact callAnswer_ideal_unchanged record.op record.before (result ▸ refused)
  · intro name other
    rw [bound]
    exact answer_frame record.op _ name other

/-- A user is added once, checked with the wrong and the right password, removed
once, and then unknown. -/
theorem calls_on_bob :
    ((Prog.sequence [.addUser bob secret, .addUser bob bob, .checkUserCredentials bob bob,
        .checkUserCredentials bob secret, .removeUser bob, .removeUser bob,
        .checkUserCredentials bob secret]).run Server.ideal.callAnswer ⟨[], []⟩).1 =
      [1, -1, 0, 1, 1, -1, -1] := by
  rw [(calls_refine_store _ ⟨[], []⟩ List.nodup_nil).1]
  decide

end Scftp.UserMan

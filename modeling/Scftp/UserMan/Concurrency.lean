import Scftp.Lib.Interleaving
import Scftp.UserMan.Main
import Scftp.UserMan.Store

set_option autoImplicit false

/- Processes that share the users table. Every statement is atomic and succeeds,
but a call checks with one statement and changes the table with a later one. -/
namespace Scftp.UserMan

open CString Interleaving Keyed Program Program.Prog

/-- Processes on one table. A client may be any program over the queries API. -/
abbrev Processes (ι : Type) := Config ι Call Int Statement Reply Db

/-- UserMan as a client: the first steps of its `main` on some input. -/
def userMan (count : Nat) (main : MainState) : Prog Call Int Unit := do
  let _ ← mainLoop count main
  return ()

/-- The calls that may change the table. -/
def Call.mutates : Call → Bool
  | .isUserExist _ => false
  | .addUser _ _ => true
  | .removeUser _ => true
  | .checkUserCredentials _ _ => false

section Runs

variable {ι : Type} [DecidableEq ι]

def Processes.start (table : Table) (clients : ι → Prog Call Int Unit) : Processes ι :=
  Config.initial ⟨table, []⟩ clients

def Processes.step (config : Processes ι) (i : ι) : Processes ι :=
  Interleaving.step Call.program Server.ideal.answer config i

def Processes.run (config : Processes ι) (schedule : List ι) : Processes ι :=
  Interleaving.run Call.program Server.ideal.answer config schedule

/-- What the check of a call found still holds when its INSERT or DELETE runs. -/
def Guarded (config : Processes ι) (i : ι) : Prop :=
  match config.procs i with
  | .inside _ (.call (.insert username _) _) _ => ¬ Bound config.shared.table username
  | .inside _ (.call (.delete username) _) _ => Bound config.shared.table username
  | _ => True

instance (config : Processes ι) (i : ι) : Decidable (Guarded config i) := by
  unfold Guarded
  split <;> infer_instance

/-- A DELETE, after which `removeUser` returns 1, takes a row out of the table. -/
def DeletesRow (config : Processes ι) (i : ι) : Prop :=
  match config.procs i with
  | .inside _ (.call (.delete _) _) _ =>
      (config.step i).shared.table.length < config.shared.table.length
  | _ => True

/-- A successful `addUser` for a name. -/
def addsName (username : Str) (entry : ι × Call × Int) : Bool :=
  match entry.2.1 with
  | .addUser name _ => name = username && entry.2.2 = 1
  | _ => false

/-- The results of all `addUser` and `removeUser` calls are those of the map
under some order of the calls, which leads to the table's bindings. Calls in the
order that have not returned have made their last statement. -/
def Serializable (table : Table) (config : Processes ι) : Prop :=
  ∃ order pending : List (ι × Call × Int),
    order.Perm (config.returned.filter (fun entry => entry.2.1.mutates) ++ pending) ∧
    (∀ entry ∈ pending, ∃ next, config.procs entry.1 = .inside entry.2.1 (.done entry.2.2) next) ∧
    Explained Store.answer (bindings table) order ∧
    outcome Store.answer (bindings table) order = bindings config.shared.table ∧
    ∀ username, ¬ Bound table username → (∀ entry ∈ order, entry.2.1 ≠ .removeUser username) →
      (∃ entry ∈ order, ∃ password, entry.2.1 = .addUser username password) →
      (order.filter (addsName username)).length = 1

theorem step_inside {config : Processes ι} {i : ι} {op : Call} {statement : Statement}
    {answered : Reply → Prog Statement Reply Int} {next : Int → Prog Call Int Unit}
    (inside : config.procs i = .inside op (.call statement answered) next) :
    (config.step i).shared = (Server.ideal.answer statement config.shared).2 := by
  simp only [Processes.step, Interleaving.step, inside]

theorem step_shared (config : Processes ι) (i : ι) :
    (config.step i).shared = config.shared ∨
      ∃ op statement answered next,
        config.procs i = .inside op (.call statement answered) next := by
  unfold Processes.step Interleaving.step
  split
  · exact Or.inl rfl
  · exact Or.inl rfl
  · rename_i op statement answered next inside
    exact Or.inr ⟨op, statement, answered, next, inside⟩
  · exact Or.inl rfl

theorem ideal_insert (username password : Str) (db : Db) :
    (Server.ideal.answer (.insert username password) db).2.table =
      db.table ++ [⟨username, password⟩] := rfl

theorem ideal_delete (username : Str) (db : Db) :
    (Server.ideal.answer (.delete username) db).2.table =
      db.table.filter (fun row => !decide (row.username = username)) := rfl

theorem delete_shorter_iff (table : Table) (username : Str) :
    (table.filter (fun row => !decide (row.username = username))).length < table.length ↔
      Bound table username := by
  rw [List.length_filter_lt_length_iff_exists, Bound]
  simp only [Bool.not_eq_true', decide_eq_false_iff_not, not_not]

theorem guarded_of_effects {config : Processes ι} {i : ι}
    (unique : UniqueNames (config.step i).shared.table) (deletes : DeletesRow config i) :
    Guarded config i := by
  unfold Guarded
  split
  · rename_i op username password answered next inside
    rintro ⟨row, member, named⟩
    rw [step_inside inside, ideal_insert] at unique
    exact not_unique_append ⟨username, password⟩ row member named unique
  · rename_i op username answered next inside
    simp only [DeletesRow, inside, step_inside inside, ideal_delete] at deletes
    exact (delete_shorter_iff _ _).mp deletes
  · trivial

theorem deletesRow_of_guarded {config : Processes ι} {i : ι} (guarded : Guarded config i) :
    DeletesRow config i := by
  unfold DeletesRow
  split
  · rename_i op username answered next inside
    simp only [Guarded, inside] at guarded
    rw [step_inside inside, ideal_delete]
    exact (delete_shorter_iff _ _).mpr guarded
  · trivial

theorem unique_step {config : Processes ι} {i : ι} (unique : UniqueNames config.shared.table)
    (guarded : Guarded config i) : UniqueNames (config.step i).shared.table := by
  rcases step_shared config i with same | ⟨op, statement, answered, next, inside⟩
  · rw [same]
    exact unique
  · rw [step_inside inside]
    cases statement with
    | select username =>
        rw [answer_select]
        exact unique
    | insert username password =>
        simp only [Guarded, inside] at guarded
        rw [ideal_insert]
        exact unique.append _ fun other member same => guarded ⟨other, member, same⟩
    | delete username =>
        rw [ideal_delete]
        exact unique.filter _

end Runs

/-- What may be left of a call that checks with one statement and sends another
when the check does not refuse. -/
theorem stage_checked (call : Call) {check : Statement} {refuses : Reply → Prop}
    [DecidablePred refuses] {rest left : Prog Statement Reply Int}
    (program : call.program = .call check fun reply => if refuses reply then .done (-1) else rest)
    (last : ∃ change, ∃ status : Reply → Int, rest = .call change fun reply => .done (status reply))
    (stage : Stage Call.program call left) :
    left = call.program ∨ left = rest ∨ ∃ result, left = .done result := by
  induction stage with
  | start => exact Or.inl rfl
  | later statement answered reply before ih =>
      rcases ih with checking | changing | ⟨result, impossible⟩
      · rw [program] at checking
        obtain ⟨rfl, rfl⟩ := Prog.call.inj checking
        by_cases refused : refuses reply
        · exact Or.inr (Or.inr ⟨-1, if_pos refused⟩)
        · exact Or.inr (Or.inl (if_neg refused))
      · obtain ⟨change, status, same⟩ := last
        rw [same] at changing
        obtain ⟨rfl, rfl⟩ := Prog.call.inj changing
        exact Or.inr (Or.inr ⟨_, rfl⟩)
      · cases impossible

theorem stage_addUser {username password : Str} {left : Prog Statement Reply Int}
    (stage : Stage Call.program (.addUser username password) left) :
    left = addUser username password ∨ left = addUser.insert username password ∨
      ∃ result, left = .done result :=
  stage_checked (.addUser username password) (addUser_eq username password) ⟨_, _, rfl⟩ stage

theorem stage_removeUser {username : Str} {left : Prog Statement Reply Int}
    (stage : Stage Call.program (.removeUser username) left) :
    left = removeUser username ∨ left = removeUser.delete username ∨
      ∃ result, left = .done result :=
  stage_checked (.removeUser username) (removeUser_eq username) ⟨_, _, rfl⟩ stage

theorem stage_reads {call : Call} (reads : call.mutates = false) {statement : Statement}
    {answered : Reply → Prog Statement Reply Int}
    (stage : Stage Call.program call (.call statement answered)) :
    ∃ username, statement = .select username := by
  suffices every : ∀ left, Stage Call.program call left → ∀ inner, left.MayCall inner →
      ∃ username, inner = .select username from every _ stage _ (.here statement answered)
  intro left stage
  induction stage with
  | start =>
      intro inner reached
      have sent := (mayCall_program call inner).mp reached
      cases call with
      | isUserExist username => exact ⟨username, sent⟩
      | addUser username password => cases reads
      | removeUser username => cases reads
      | checkUserCredentials username password => exact ⟨username, sent⟩
  | later statement answered reply before ih =>
      intro inner reached
      exact ih inner (.later statement answered reply inner reached)

section Serial

variable {ι : Type}

/-- A guarded turn does to the map what its call does, when it is the call's
last statement, and nothing otherwise. -/
theorem commitsAtEnd_of_guarded [DecidableEq ι] {config : Processes ι} {i : ι}
    (staged : Staged Call.program config) (guarded : Guarded config i) :
    CommitsAtEnd Store.answer Server.ideal.answer Call.mutates (fun db => bindings db.table)
      config i := by
  intro call statement answered next inside
  have stage := staged i call _ next inside
  cases call with
  | isUserExist username =>
      obtain ⟨name, rfl⟩ := stage_reads rfl stage
      simp only [Call.mutates, Bool.false_eq_true, ↓reduceIte, answer_select, sent_table]
  | checkUserCredentials username password =>
      obtain ⟨name, rfl⟩ := stage_reads rfl stage
      simp only [Call.mutates, Bool.false_eq_true, ↓reduceIte, answer_select, sent_table]
  | addUser username password =>
      simp only [Call.mutates, ↓reduceIte]
      rcases stage_addUser stage with checking | inserting | ⟨result, impossible⟩
      · rw [addUser_eq] at checking
        obtain ⟨rfl, rfl⟩ := Prog.call.inj checking
        have check := ideal_exist username config.shared
        rw [Server.exist] at check
        simp only [check, answer_select, sent_table]
        by_cases bound : (bindings config.shared.table username).isSome
        · simp [bound, Store.answer]
        · simp [bound, addUser.insert]
      · obtain ⟨rfl, rfl⟩ := Prog.call.inj inserting
        simp only [Guarded, inside] at guarded
        have absent : ¬ (bindings config.shared.table username).isSome :=
          fun bound => guarded ((bindings_isSome _ _).mp bound)
        simp only [Store.answer, absent, Bool.false_eq_true, ↓reduceIte, ideal_insert,
          bindings_append _ _ _ guarded]
        rfl
      · cases impossible
  | removeUser username =>
      simp only [Call.mutates, ↓reduceIte]
      rcases stage_removeUser stage with checking | deleting | ⟨result, impossible⟩
      · rw [removeUser_eq] at checking
        obtain ⟨rfl, rfl⟩ := Prog.call.inj checking
        have check := ideal_exist username config.shared
        rw [Server.exist] at check
        simp only [check, answer_select, sent_table]
        by_cases bound : (bindings config.shared.table username).isSome
        · simp [bound, removeUser.delete]
        · simp [bound, Store.answer]
      · obtain ⟨rfl, rfl⟩ := Prog.call.inj deleting
        simp only [Guarded, inside] at guarded
        have bound := (bindings_isSome _ _).mpr guarded
        simp only [Store.answer, bound, ↓reduceIte, ideal_delete, bindings_delete]
        rfl
      · cases impossible

theorem addsName_eq_false {username : Str} {i : ι} {call : Call} {result : Int}
    (other : ∀ password, call ≠ .addUser username password) :
    addsName username (i, call, result) = false := by
  cases call with
  | addUser name password =>
      have apart : name ≠ username := by
        intro same
        exact other password (congrArg (Call.addUser · password) same)
      simp [addsName, apart]
  | isUserExist name => rfl
  | removeUser name => rfl
  | checkUserCredentials name password => rfl

/-- In an order without removals of a bound name, no `addUser` for it succeeds. -/
theorem no_addsName {store : Store} {username : Str} {order : List (ι × Call × Int)}
    (explained : Explained Store.answer store order) (bound : (store username).isSome)
    (kept : ∀ entry ∈ order, entry.2.1 ≠ .removeUser username) :
    order.filter (addsName username) = [] := by
  induction order generalizing store with
  | nil => rfl
  | cons entry rest ih =>
      obtain ⟨i, call, result⟩ := entry
      obtain ⟨same, remaining⟩ := explained
      have still := answer_bound bound (kept _ List.mem_cons_self)
      have loses : addsName username (i, call, result) = false := by
        by_cases adds : ∃ password, call = .addUser username password
        · obtain ⟨password, rfl⟩ := adds
          simp only [Store.answer, bound, ↓reduceIte] at same
          simp [addsName, ← same]
        · exact addsName_eq_false (not_exists.mp adds)
      rw [List.filter_cons_of_neg (by simp [loses])]
      exact ih remaining still fun entry member => kept entry (List.mem_cons_of_mem _ member)

/-- Of the `addUser` calls for an absent name, exactly one succeeds in an order
without removals of it. -/
theorem one_addsName {store : Store} {username : Str} {order : List (ι × Call × Int)}
    (explained : Explained Store.answer store order) (absent : store username = none)
    (kept : ∀ entry ∈ order, entry.2.1 ≠ .removeUser username)
    (added : ∃ entry ∈ order, ∃ password, entry.2.1 = .addUser username password) :
    (order.filter (addsName username)).length = 1 := by
  induction order generalizing store with
  | nil =>
      obtain ⟨entry, member, _⟩ := added
      cases member
  | cons entry rest ih =>
      obtain ⟨i, call, result⟩ := entry
      obtain ⟨same, remaining⟩ := explained
      have keptRest : ∀ entry ∈ rest, entry.2.1 ≠ .removeUser username :=
        fun entry member => kept entry (List.mem_cons_of_mem _ member)
      by_cases first : ∃ password, call = .addUser username password
      · obtain ⟨password, rfl⟩ := first
        simp only [Store.answer, absent, Option.isSome_none, Bool.false_eq_true, ↓reduceIte]
          at same remaining
        have wins : addsName username (i, .addUser username password, result) = true := by
          simp [addsName, ← same]
        rw [List.filter_cons_of_pos wins, no_addsName remaining (by simp) keptRest]
        rfl
      · have other := not_exists.mp first
        rw [List.filter_cons_of_neg (by simp [addsName_eq_false other])]
        apply ih remaining (answer_absent absent other) keptRest
        obtain ⟨entry, member, password, adds⟩ := added
        rcases List.mem_cons.mp member with rfl | member
        · exact absurd ⟨password, adds⟩ first
        · exact ⟨entry, member, password, adds⟩

theorem serializable_of_linearized {table : Table} {config : Processes ι}
    {order pending : List (ι × Call × Int)}
    (linearized : Linearized Store.answer Call.mutates (fun db : Db => bindings db.table)
      (bindings table) config order pending) : Serializable table config := by
  refine ⟨order, pending, linearized.permutes, ?_, linearized.explained, linearized.reached, ?_⟩
  · rintro ⟨i, call, result⟩ member
    exact ((linearized.inside i call result).mp member).2
  · intro username absent kept added
    refine one_addsName linearized.explained ?_ kept added
    rw [← Option.not_isSome_iff_eq_none, bindings_isSome]
    exact absent

variable [DecidableEq ι]

/-- Every guarded run keeps the invariant behind the main theorem. -/
theorem guarded_run (clients : ι → Prog Call Int Unit) (table : Table)
    (unique : UniqueNames table) (schedule : List ι)
    (guarded : AllTurns Call.program Server.ideal.answer Guarded (Processes.start table clients)
      schedule) :
    Always Call.program Server.ideal.answer (fun config => UniqueNames config.shared.table)
        (Processes.start table clients) schedule ∧
      Serializable table ((Processes.start table clients).run schedule) := by
  have start : Linearized Store.answer Call.mutates (fun db : Db => bindings db.table)
      (bindings table) (Processes.start table clients) [] [] :=
    linearized_initial (Db.mk table []) clients
  have calls : ∀ call : Call, call.mutates = true →
      ∃ statement answered, call.program = .call statement answered := by
    intro call mutates
    cases call with
    | isUserExist username => cases mutates
    | addUser username password => exact ⟨_, _, addUser_eq username password⟩
    | removeUser username => exact ⟨_, _, removeUser_eq username⟩
    | checkUserCredentials username password => cases mutates
  have kept : ∀ (config : Processes ι) i,
      (Staged Call.program config ∧ UniqueNames config.shared.table ∧
        ∃ order pending, Linearized Store.answer Call.mutates (fun db : Db => bindings db.table)
          (bindings table) config order pending) →
      Guarded config i →
      Staged Call.program (config.step i) ∧ UniqueNames (config.step i).shared.table ∧
        ∃ order pending, Linearized Store.answer Call.mutates (fun db : Db => bindings db.table)
          (bindings table) (config.step i) order pending := by
    rintro config i ⟨staged, held, order, pending, linearized⟩ allowed
    have commits := commitsAtEnd_of_guarded staged allowed
    exact ⟨staged_step config i staged, unique_step held allowed,
      linearized_step calls config i linearized commits⟩
  obtain ⟨⟨_, _, order, pending, linearized⟩, always⟩ := Interleaving.run_invariant _ kept
    schedule (Processes.start table clients) ⟨staged_initial _ _ _, unique, [], [], start⟩ guarded
  exact ⟨always.mono fun config invariant => invariant.2.1, serializable_of_linearized linearized⟩

/-- For any processes and any interleaving of their statements: names stay unique
throughout, every DELETE takes a row, and the results are those of some order of
the calls, exactly when at each INSERT the name is absent and at each DELETE it
is present. -/
theorem interleaved_iff (clients : ι → Prog Call Int Unit) (table : Table)
    (unique : UniqueNames table) (schedule : List ι) :
    Always Call.program Server.ideal.answer (fun config => UniqueNames config.shared.table)
          (Processes.start table clients) schedule ∧
        AllTurns Call.program Server.ideal.answer DeletesRow
          (Processes.start table clients) schedule ∧
        Serializable table ((Processes.start table clients).run schedule) ↔
      AllTurns Call.program Server.ideal.answer Guarded
        (Processes.start table clients) schedule := by
  constructor
  · rintro ⟨always, deletes, -⟩
    generalize Processes.start table clients = config at always deletes
    induction schedule generalizing config with
    | nil => trivial
    | cons i rest ih =>
        exact ⟨guarded_of_effects always.2.start deletes.1, ih _ always.2 deletes.2⟩
  · intro guarded
    obtain ⟨always, serial⟩ := guarded_run clients table unique schedule guarded
    exact ⟨always, guarded.mono fun config i => deletesRow_of_guarded, serial⟩

end Serial

/-- `main` before its first read, with a request to add one user. -/
def addingBob : MainState := ⟨.command, ascii "adduser\nbob\npw\n", [], [], []⟩

def droppingBob : MainState := ⟨.command, ascii "removeuser\nbob\n", [], [], []⟩

/-- One adds bob, the other removes him. -/
def addsAndDrops : Bool → Prog Call Int Unit
  | false => userMan 3 addingBob
  | true => userMan 2 droppingBob

/-- The name is looked up for the removal before its `addUser` has returned. -/
def dropsMeanwhile : List Bool :=
  [false, false, false, true, false, false, false, true, false, true, true, true, true, true]

/-- Each finds at its INSERT or DELETE what its check found. -/
theorem together_serializable :
    Always Call.program Server.ideal.answer (fun config => UniqueNames config.shared.table)
        (Processes.start [] addsAndDrops) dropsMeanwhile ∧
      AllTurns Call.program Server.ideal.answer DeletesRow
        (Processes.start [] addsAndDrops) dropsMeanwhile ∧
      Serializable [] ((Processes.start [] addsAndDrops).run dropsMeanwhile) :=
  (interleaved_iff addsAndDrops [] List.nodup_nil dropsMeanwhile).mpr (by decide +kernel)

/-- All four calls return 1 but the first check. -/
example :
    ((Processes.start [] addsAndDrops).run dropsMeanwhile).returned =
      [(false, .isUserExist bob, 0), (false, .addUser bob secret, 1),
        (true, .isUserExist bob, 1), (true, .removeUser bob, 1)] := by
  decide +kernel

/-- Both processes check before either inserts. -/
def bothCheckFirst : List Bool :=
  List.replicate 5 false ++ List.replicate 5 true ++ List.replicate 2 false ++ List.replicate 2 true

/-- Two processes add the same absent name: both calls return 1 and the name has
two rows. -/
theorem both_added :
    ((Processes.start [] fun _ : Bool => userMan 3 addingBob).run bothCheckFirst).shared.table =
        [⟨bob, secret⟩, ⟨bob, secret⟩] ∧
      ((Processes.start [] fun _ : Bool => userMan 3 addingBob).run bothCheckFirst).returned =
        [(false, .isUserExist bob, 0), (true, .isUserExist bob, 0),
          (false, .addUser bob secret, 1), (true, .addUser bob secret, 1)] ∧
      ¬ Always Call.program Server.ideal.answer (fun config => UniqueNames config.shared.table)
        (Processes.start [] fun _ : Bool => userMan 3 addingBob) bothCheckFirst := by
  have table : ((Processes.start [] fun _ : Bool => userMan 3 addingBob).run
      bothCheckFirst).shared.table = [⟨bob, secret⟩, ⟨bob, secret⟩] := by decide
  refine ⟨table, by decide, ?_⟩
  intro always
  have unique := always.final
  change UniqueNames ((Processes.start [] fun _ : Bool => userMan 3 addingBob).run
    bothCheckFirst).shared.table at unique
  rw [table] at unique
  exact absurd unique (by decide)

end Scftp.UserMan

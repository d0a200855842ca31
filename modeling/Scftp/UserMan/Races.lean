import Mathlib.Data.Fintype.Card
import Scftp.UserMan.Concurrency

set_option autoImplicit false

/- What races between processes can do to the users table, and what they cannot. -/
namespace Scftp.UserMan

open CString Interleaving Program Program.Prog

/-- What a call that has returned has done to the table, told by its result alone. -/
def Call.effect (server : Server) : Call → Int → Table → Table
  | .addUser username password, result, table =>
      if result = 1 then (server.execute (.insert username password) table).1 else table
  | .removeUser username, result, table =>
      if result = 1 then (server.execute (.delete username) table).1 else table
  | _, _, table => table

/-- The effects of calls, one after the other. -/
def replay {ι : Type} (server : Server) (table : Table) (calls : List (ι × Call × Int)) : Table :=
  calls.foldl (fun table entry => entry.2.1.effect server entry.2.2 table) table

def rowsOf (table : Table) (username : Str) : Nat :=
  table.countP fun row => row.username = username

/-- A process whose next statement inserts a name. -/
def inserting (username : Str) : Proc Call Int Statement Reply → Bool
  | .inside _ (.call (.insert name _) _) _ => name = username
  | _ => false

section Rows

variable {table : Table} {username : Str}

theorem rowsOf_eq_zero : rowsOf table username = 0 ↔ ¬ Bound table username := by
  simp [rowsOf, Bound, List.countP_eq_zero]

theorem rowsOf_append (rows : Table) :
    rowsOf (table ++ rows) username = rowsOf table username + rowsOf rows username :=
  List.countP_append

theorem rowsOf_singleton (name password : Str) :
    rowsOf [⟨name, password⟩] username = if name = username then 1 else 0 := by
  simp [rowsOf, List.countP_singleton]

theorem rowsOf_filter_le (table : Table) (username : Str) (keep : Row → Bool) :
    rowsOf (table.filter keep) username ≤ rowsOf table username :=
  List.filter_sublist.countP_le

theorem select_table (server : Server) (name : Str) (db : Db) :
    (server.answer (.select name) db).2.table = db.table := by
  rw [answer_select, sent_table]

end Rows

/-- A statement that ends its call does what the result tells, and no other
statement does anything, whichever calls of the client fail. -/
theorem statement_effect (server : Server) {call : Call} {statement : Statement}
    {answered : Reply → Prog Statement Reply Int}
    (stage : Stage Call.program call (.call statement answered)) (db : Db) :
    (server.answer statement db).2.table =
      match answered (server.answer statement db).1 with
      | .done result => call.effect server result db.table
      | .call _ _ => db.table := by
  have reads (only : call.mutates = false) : _ := stage_reads only stage
  cases call with
  | isUserExist username =>
      obtain ⟨name, rfl⟩ := reads rfl
      rw [select_table]
      split <;> rfl
  | addUser username password =>
      rcases stage_addUser stage with checking | changing | ⟨result, impossible⟩
      · rw [addUser_eq] at checking
        obtain ⟨rfl, rfl⟩ := Prog.call.inj checking
        rw [select_table]
        by_cases found : existFlag username (server.answer (.select username) db).1 = 1
        · simp only [found, ↓reduceIte, Call.effect]
          rfl
        · simp only [found, ↓reduceIte, addUser.insert]
      · obtain ⟨rfl, rfl⟩ := Prog.call.inj changing
        simp only [Server.answer, Call.effect]
        cases server.queryFails db.issued.length <;> rfl
      · cases impossible
  | removeUser username =>
      rcases stage_removeUser stage with checking | changing | ⟨result, impossible⟩
      · rw [removeUser_eq] at checking
        obtain ⟨rfl, rfl⟩ := Prog.call.inj checking
        rw [select_table]
        by_cases absent : existFlag username (server.answer (.select username) db).1 = 0
        · simp only [absent, ↓reduceIte, Call.effect]
          rfl
        · simp only [absent, ↓reduceIte, removeUser.delete]
      · obtain ⟨rfl, rfl⟩ := Prog.call.inj changing
        simp only [Server.answer, Call.effect]
        cases server.queryFails db.issued.length <;> rfl
      · cases impossible
  | checkUserCredentials username password =>
      obtain ⟨name, rfl⟩ := reads rfl
      rw [select_table]
      split <;> rfl

section Turns

variable {ι : Type} [DecidableEq ι]

/-- A turn does to the table what the call does that ends with it. -/
theorem turn_replays (server : Server) (config : Processes ι) (i : ι)
    (staged : Staged Call.program config) :
    (Interleaving.step Call.program server.answer config i).shared.table =
      replay server config.shared.table (finishing server.answer config i) := by
  unfold Interleaving.step finishing
  cases inside : config.procs i with
  | ready client => cases client <;> rfl
  | inside call left next =>
      cases left with
      | done result => rfl
      | call statement answered =>
          have effect := statement_effect server (staged i _ _ next inside) config.shared
          cases left : answered (server.answer statement config.shared).1 <;>
            simpa only [left, replay, List.foldl_cons, List.foldl_nil] using effect

theorem call_begins (call : Call) :
    ∃ statement answered, call.program = .call statement answered := by
  cases call with
  | isUserExist username => exact ⟨_, _, isUserExist_eq username⟩
  | addUser username password => exact ⟨_, _, addUser_eq username password⟩
  | removeUser username => exact ⟨_, _, removeUser_eq username⟩
  | checkUserCredentials username password =>
      exact ⟨_, _, checkUserCredentials_eq username password⟩

/-- Any number of processes, any order of their statements, any comparison of names
and any failures: the table is what the successful `addUser` and `removeUser` calls
make of it, one after the other in the order of their last statements. Each process
has returned from its calls in that order. Nothing else is ever in the table, no
success is lost, and no failed call has an effect. -/
theorem table_replays (server : Server) (clients : ι → Prog Call Int Unit) (table : Table)
    (schedule : List ι) :
    let start : Processes ι := Processes.start table clients
    let calls := finished Call.program server.answer start schedule
    let after := Interleaving.run Call.program server.answer start schedule
    after.shared.table = replay server table calls ∧
      ∀ i, calls.filter (fun entry => entry.1 = i) =
        after.returned.filter (fun entry => entry.1 = i) ++ (after.procs i).pending i := by
  intro start calls after
  have replays : ∀ (schedule : List ι) (config : Processes ι), Staged Call.program config →
      (Interleaving.run Call.program server.answer config schedule).shared.table =
        replay server config.shared.table
          (finished Call.program server.answer config schedule) := by
    intro schedule
    induction schedule with
    | nil => intro config _; rfl
    | cons i rest ih =>
        intro config staged
        have later := ih (Interleaving.step Call.program server.answer config i)
          (staged_step config i staged)
        rw [turn_replays server config i staged] at later
        rw [finished, replay, List.foldl_append]
        exact later
  refine ⟨replays schedule start (staged_initial _ _ _), ?_⟩
  intro i
  have same : after.returned.filter (fun entry => entry.1 = i) ++ (after.procs i).pending i = _ :=
    finished_returned call_begins schedule start i
  rw [same]
  simp [start, Processes.start, Config.initial, Proc.pending, calls]

/-- All that a turn can do to the table when nothing fails, told with what the
process did next before it and does next after it. -/
inductive Moves (config : Processes ι) (i : ι) (after : Processes ι) : Prop where
  /-- A process that has ended. -/
  | rests (same : after = config)
  /-- No statement that changes the table, nor one that will insert. -/
  | quiet (table : after.shared.table = config.shared.table)
      (next : ∀ username, inserting username (after.procs i) = false)
  /-- The check of `addUser` finds nothing. -/
  | passes (username : Str) (absent : ¬ Bound config.shared.table username)
      (table : after.shared.table = config.shared.table)
      (next : ∀ name, inserting name (after.procs i) = decide (username = name))
  | inserts (username password : Str)
      (before : ∀ name, inserting name (config.procs i) = decide (username = name))
      (table : after.shared.table = config.shared.table ++ [⟨username, password⟩])
      (next : ∀ name, inserting name (after.procs i) = false)
  | deletes (username : Str)
      (table : after.shared.table =
        config.shared.table.filter fun row => !decide (row.username = username))
      (next : ∀ name, inserting name (after.procs i) = false)

theorem step_proc {config : Processes ι} {i : ι} {call : Call} {statement : Statement}
    {answered : Reply → Prog Statement Reply Int} {next : Int → Prog Call Int Unit}
    (inside : config.procs i = .inside call (.call statement answered) next) :
    (config.step i).procs i =
      .inside call (answered (Server.ideal.answer statement config.shared).1) next := by
  simp only [Processes.step, Interleaving.step, inside, Function.update_self]

theorem existFlag_ideal (username : Str) (db : Db) :
    existFlag username (Server.ideal.answer (.select username) db).1 =
      if Bound db.table username then 1 else 0 := by
  have exist := ideal_exist username db
  simpa only [Server.exist, bindings_isSome] using exist

theorem inserting_program (username : Str) (call : Call) (next : Int → Prog Call Int Unit) :
    inserting username (.inside call call.program next) = false := by
  cases call with
  | isUserExist name => rw [Call.program, isUserExist_eq]; rfl
  | addUser name password => rw [Call.program, addUser_eq]; rfl
  | removeUser name => rw [Call.program, removeUser_eq]; rfl
  | checkUserCredentials name password => rw [Call.program, checkUserCredentials_eq]; rfl

theorem moves_reads {config : Processes ι} {i : ι} {call : Call} {statement : Statement}
    {answered : Reply → Prog Statement Reply Int} {next : Int → Prog Call Int Unit}
    (staged : Staged Call.program config) (reads : call.mutates = false)
    (inside : config.procs i = .inside call (.call statement answered) next) :
    Moves config i (config.step i) := by
  have stage := staged i call _ next inside
  obtain ⟨name, rfl⟩ := stage_reads reads stage
  refine .quiet (by rw [step_inside inside, select_table]) fun username => ?_
  rw [step_proc inside]
  have later := stage.later _ _ (Server.ideal.answer (.select name) config.shared).1
  cases left : answered (Server.ideal.answer (.select name) config.shared).1 with
  | done result => rfl
  | call statement again =>
      rw [left] at later
      obtain ⟨other, rfl⟩ := stage_reads reads later
      rfl

theorem moves_addUser {config : Processes ι} {i : ι} {username password : Str}
    {statement : Statement} {answered : Reply → Prog Statement Reply Int}
    {next : Int → Prog Call Int Unit} (staged : Staged Call.program config)
    (inside : config.procs i =
      .inside (.addUser username password) (.call statement answered) next) :
    Moves config i (config.step i) := by
  have proc := step_proc inside
  have shared := step_inside inside
  rcases stage_addUser (staged i _ _ next inside) with checking | changing | ⟨result, impossible⟩
  · rw [addUser_eq] at checking
    obtain ⟨rfl, rfl⟩ := Prog.call.inj checking
    have table : (config.step i).shared.table = config.shared.table := by rw [shared, select_table]
    simp only [existFlag_ideal] at proc
    by_cases bound : Bound config.shared.table username
    · simp only [bound, ↓reduceIte] at proc
      exact .quiet table fun name => by rw [proc]; rfl
    · simp only [bound, ↓reduceIte] at proc
      exact .passes username bound table fun name => by rw [proc]; rfl
  · obtain ⟨rfl, rfl⟩ := Prog.call.inj changing
    exact .inserts username password (fun name => by rw [inside]; rfl)
      (by rw [shared, ideal_insert]) fun name => by rw [proc]; rfl
  · cases impossible

theorem moves_removeUser {config : Processes ι} {i : ι} {username : Str}
    {statement : Statement} {answered : Reply → Prog Statement Reply Int}
    {next : Int → Prog Call Int Unit} (staged : Staged Call.program config)
    (inside : config.procs i = .inside (.removeUser username) (.call statement answered) next) :
    Moves config i (config.step i) := by
  have proc := step_proc inside
  have shared := step_inside inside
  rcases stage_removeUser (staged i _ _ next inside) with
    checking | changing | ⟨result, impossible⟩
  · rw [removeUser_eq] at checking
    obtain ⟨rfl, rfl⟩ := Prog.call.inj checking
    have table : (config.step i).shared.table = config.shared.table := by rw [shared, select_table]
    simp only [existFlag_ideal] at proc
    refine .quiet table fun name => ?_
    by_cases bound : Bound config.shared.table username
    · simp only [bound, ↓reduceIte, one_ne_zero] at proc
      rw [proc]
      rfl
    · simp only [bound, ↓reduceIte] at proc
      rw [proc]
      rfl
  · obtain ⟨rfl, rfl⟩ := Prog.call.inj changing
    exact .deletes username (by rw [shared, ideal_delete]) fun name => by rw [proc]; rfl
  · cases impossible

/-- What a turn does, told by where its process stands. -/
theorem moves_step (config : Processes ι) (i : ι) (staged : Staged Call.program config) :
    Moves config i (config.step i) := by
  cases inside : config.procs i with
  | ready client =>
      cases client with
      | done value => exact .rests (by simp only [Processes.step, Interleaving.step, inside])
      | call call next =>
          refine .quiet (by simp only [Processes.step, Interleaving.step, inside])
            fun username => ?_
          simp only [Processes.step, Interleaving.step, inside, Function.update_self,
            inserting_program]
  | inside call left next =>
      cases left with
      | done result =>
          refine .quiet (by simp only [Processes.step, Interleaving.step, inside])
            fun username => ?_
          simp only [Processes.step, Interleaving.step, inside, Function.update_self, inserting]
      | call statement answered =>
          cases call with
          | isUserExist username => exact moves_reads staged rfl inside
          | addUser username password => exact moves_addUser staged inside
          | removeUser username => exact moves_removeUser staged inside
          | checkUserCredentials username password => exact moves_reads staged rfl inside

theorem step_other (config : Processes ι) (i : ι) {j : ι} (other : j ≠ i) :
    (config.step i).procs j = config.procs j := by
  unfold Processes.step Interleaving.step
  split <;> simp only [ne_eq, other, not_false_eq_true, Function.update_of_ne]

end Turns

/- How many rows a name can come to have. -/
section Rows

variable {ι : Type} [Fintype ι]

/-- The processes that are about to insert a name. -/
def insertions (username : Str) (config : Processes ι) : Nat :=
  (Finset.univ.filter fun i => inserting username (config.procs i) = true).card

theorem insertions_le (username : Str) (config : Processes ι) :
    insertions username config ≤ Fintype.card ι := Finset.card_le_univ _

variable [DecidableEq ι]

/-- A process that will not insert is one less, if it was to insert before. -/
theorem insertions_step (username : Str) (config : Processes ι) (i : ι)
    (next : inserting username ((config.step i).procs i) = false) :
    insertions username (config.step i) +
        (if inserting username (config.procs i) = true then 1 else 0) =
      insertions username config := by
  have same : Finset.univ.filter (fun j => inserting username ((config.step i).procs j) = true) =
      (Finset.univ.filter fun j => inserting username (config.procs j) = true).erase i := by
    ext j
    by_cases here : j = i
    · simp [here, next]
    · simp [here, step_other config i here]
  unfold insertions
  rw [same]
  split
  · rename_i inserts
    exact Finset.card_erase_add_one (by simp [inserts])
  · rename_i inserts
    rw [Finset.erase_eq_of_notMem (by simpa using inserts), Nat.add_zero]

/-- What no turn raises: the rows of a name with those still to be inserted. -/
theorem rows_step (username : Str) (bound : Nat) (enough : Fintype.card ι ≤ bound)
    (config : Processes ι) (i : ι) (staged : Staged Call.program config)
    (within : rowsOf config.shared.table username + insertions username config ≤ bound) :
    rowsOf (config.step i).shared.table username + insertions username (config.step i) ≤
      bound := by
  cases moves_step config i staged with
  | rests same => rwa [same]
  | quiet table next =>
      have fewer := insertions_step username config i (next username)
      rw [table]
      omega
  | passes name absent table next =>
      rw [table]
      by_cases here : name = username
      · subst here
        rw [rowsOf_eq_zero.mpr absent, Nat.zero_add]
        exact (insertions_le name _).trans enough
      · have fewer := insertions_step username config i (by rw [next]; simpa using here)
        omega
  | inserts name password before table next =>
      have fewer := insertions_step username config i (next username)
      rw [before username] at fewer
      simp only [decide_eq_true_eq] at fewer
      rw [table, rowsOf_append, rowsOf_singleton]
      omega
  | deletes name table next =>
      have fewer := insertions_step username config i (next username)
      have less := rowsOf_filter_le config.shared.table username
        fun row => !decide (row.username = name)
      rw [table]
      omega

end Rows

/- A schedule in which all processes check before any of them inserts. -/
section AllCheck

variable {ι : Type} [DecidableEq ι] {username : Str} {passwords : ι → Str}
  {nexts : ι → Int → Prog Call Int Unit}

theorem run_cons (config : Processes ι) (i : ι) (rest : List ι) :
    config.run (i :: rest) = (config.step i).run rest := rfl

theorem run_check {config : Processes ι} {i : ι} {password : Str} {next : Int → Prog Call Int Unit}
    (ready : config.procs i = .ready (.call (.addUser username password) next))
    (absent : ¬ Bound config.shared.table username) :
    ((config.step i).step i).shared.table = config.shared.table ∧
      ((config.step i).step i).procs i =
        .inside (.addUser username password) (addUser.insert username password) next := by
  have begun : (config.step i).procs i = .inside (.addUser username password)
      (.call (.select username) fun reply =>
        if existFlag username reply = 1 then .done (-1) else addUser.insert username password)
      next := by
    simp only [Processes.step, Interleaving.step, ready, Function.update_self, Call.program,
      addUser_eq]
  have same : (config.step i).shared = config.shared := by
    simp only [Processes.step, Interleaving.step, ready]
  refine ⟨by rw [step_inside begun, select_table, same], ?_⟩
  rw [step_proc begun, existFlag_ideal, same, if_neg absent]
  rfl

/-- All of them have checked, and none has inserted. -/
theorem run_checks (processes : List ι) (distinct : processes.Nodup) (config : Processes ι)
    (ready : ∀ i ∈ processes,
      config.procs i = .ready (.call (.addUser username (passwords i)) (nexts i)))
    (absent : ¬ Bound config.shared.table username) :
    let after := config.run (processes.flatMap fun i => [i, i])
    after.shared.table = config.shared.table ∧
      (∀ i ∈ processes, after.procs i = .inside (.addUser username (passwords i))
        (addUser.insert username (passwords i)) (nexts i)) ∧
      ∀ j ∉ processes, after.procs j = config.procs j := by
  induction processes generalizing config with
  | nil =>
      refine ⟨rfl, ?_, fun j _ => rfl⟩
      intro i member
      cases member
  | cons i rest ih =>
      obtain ⟨fresh, distinct⟩ := List.nodup_cons.mp distinct
      obtain ⟨table, mine⟩ := run_check (ready i List.mem_cons_self) absent
      have others (j : ι) (other : j ≠ i) :
          ((config.step i).step i).procs j = config.procs j := by
        rw [step_other _ i other, step_other _ i other]
      obtain ⟨still, checked, kept⟩ := ih distinct ((config.step i).step i) (by
        intro j member
        have other : j ≠ i := by
          rintro rfl
          exact fresh member
        rw [others j other]
        exact ready j (List.mem_cons_of_mem i member)) (by rw [table]; exact absent)
      simp only [List.flatMap_cons, List.cons_append, List.nil_append, run_cons]
      refine ⟨still.trans table, ?_, ?_⟩
      · intro j member
        rcases List.mem_cons.mp member with rfl | member
        · rw [kept j fresh, mine]
        · exact checked j member
      · intro j outside
        rw [List.mem_cons, not_or] at outside
        rw [kept j outside.2, others j outside.1]

/-- Then they insert, one after the other. -/
theorem run_inserts (processes : List ι) (distinct : processes.Nodup) (config : Processes ι)
    (checked : ∀ i ∈ processes, config.procs i = .inside (.addUser username (passwords i))
      (addUser.insert username (passwords i)) (nexts i)) :
    rowsOf (config.run processes).shared.table username =
      rowsOf config.shared.table username + processes.length := by
  induction processes generalizing config with
  | nil => rfl
  | cons i rest ih =>
      obtain ⟨fresh, distinct⟩ := List.nodup_cons.mp distinct
      have table := congrArg Db.table (step_inside (checked i List.mem_cons_self))
      rw [ideal_insert] at table
      rw [run_cons, ih distinct (config.step i) (by
        intro j member
        have other : j ≠ i := by
          rintro rfl
          exact fresh member
        rw [step_other config i other]
        exact checked j (List.mem_cons_of_mem i member)), table, rowsOf_append, rowsOf_singleton,
        if_pos rfl, List.length_cons]
      omega

end AllCheck

/-- However many processes there are and whatever they do, a name never comes to
have more rows than there are processes, or than it had at the start; and when it
had none and all of them add it, some order of their statements gives it as many
rows as there are processes. -/
theorem rows_bound {ι : Type} [DecidableEq ι] [Fintype ι] (username : Str) :
    (∀ (clients : ι → Prog Call Int Unit) (table : Table) (schedule : List ι),
        Always Call.program Server.ideal.answer
          (fun config => rowsOf config.shared.table username ≤
            max (rowsOf table username) (Fintype.card ι))
          (Processes.start table clients) schedule) ∧
      ∀ (passwords : ι → Str) (nexts : ι → Int → Prog Call Int Unit) (table : Table),
        ¬ Bound table username → ∃ schedule,
          rowsOf ((Processes.start table fun i =>
            .call (.addUser username (passwords i)) (nexts i)).run schedule).shared.table username =
              Fintype.card ι := by
  constructor
  · intro clients table schedule
    have every := always_of_kept
      (fun config : Processes ι => Staged Call.program config ∧
        rowsOf config.shared.table username + insertions username config ≤
          max (rowsOf table username) (Fintype.card ι))
      (fun config i held => ⟨staged_step config i held.1,
        rows_step username _ (Nat.le_max_right _ _) config i held.1 held.2⟩)
      schedule (Processes.start table clients) ⟨staged_initial _ _ _, by
        simp [Processes.start, Config.initial, insertions, inserting]⟩
    exact every.mono fun config held => (Nat.le_add_right _ _).trans held.2
  · intro passwords nexts table absent
    let processes := (Finset.univ : Finset ι).toList
    have distinct : processes.Nodup := Finset.nodup_toList _
    obtain ⟨same, checked, _⟩ := run_checks processes distinct
      (Processes.start table fun i => .call (.addUser username (passwords i)) (nexts i))
      (fun i _ => rfl) absent
    refine ⟨processes.flatMap (fun i => [i, i]) ++ processes, ?_⟩
    have both := run_inserts processes distinct _ checked
    rw [same] at both
    change _ = rowsOf table username + processes.length at both
    rw [rowsOf_eq_zero.mpr absent, Nat.zero_add, Finset.length_toList, Finset.card_univ] at both
    rw [← both, Processes.run, Interleaving.run, List.foldl_append]
    rfl

/-- Two processes that add bob can leave him two rows. -/
theorem two_rows :
    ∃ schedule, rowsOf ((Processes.start [] fun _ : Bool =>
      .call (.addUser bob secret) fun _ => .done ()).run schedule).shared.table bob = 2 :=
  (rows_bound bob).2 (fun _ => secret) (fun _ _ => .done ()) [] (by decide)

end Scftp.UserMan

import Mathlib.Data.List.Perm.Basic
import Mathlib.Data.List.Nodup
import Scftp.Lib.Program

set_option autoImplicit false

/- Processes that share one component. Each runs a client program over
operations, an operation runs as a program over the component's atomic calls, and
a schedule says whose turn is next. -/
namespace Interleaving

open Program

variable {ι Op Res Sub SubRes σ τ : Type}

/-- A process between operations, or inside one. -/
inductive Proc (Op Res Sub SubRes : Type) where
  | ready (client : Prog Op Res Unit)
  | inside (op : Op) (body : Prog Sub SubRes Res) (next : Res → Prog Op Res Unit)

/-- The component, the processes, and the operations that have returned. -/
structure Config (ι Op Res Sub SubRes σ : Type) where
  shared : σ
  procs : ι → Proc Op Res Sub SubRes
  returned : List (ι × Op × Res)

/-- No operation has begun. -/
def Config.initial (shared : σ) (clients : ι → Prog Op Res Unit) : Config ι Op Res Sub SubRes σ :=
  ⟨shared, fun i => .ready (clients i), []⟩

/-- What is left of an operation's program after some answers. -/
inductive Stage (body : Op → Prog Sub SubRes Res) (op : Op) : Prog Sub SubRes Res → Prop where
  | start : Stage body op (body op)
  | later (sub : Sub) (answered : SubRes → Prog Sub SubRes Res) (result : SubRes)
      (before : Stage body op (.call sub answered)) : Stage body op (answered result)

/-- Every process is inside what is left of its operation. -/
def Staged (body : Op → Prog Sub SubRes Res) (config : Config ι Op Res Sub SubRes σ) : Prop :=
  ∀ i op left next, config.procs i = .inside op left next → Stage body op left

theorem staged_initial (body : Op → Prog Sub SubRes Res) (shared : σ)
    (clients : ι → Prog Op Res Unit) :
    Staged body (Config.initial shared clients : Config ι Op Res Sub SubRes σ) := by
  intro i op left next impossible
  cases impossible

/- Clients that ask for what they may as long as they are given what they expect,
and a component that gives it as long as nothing else is asked. -/
section Contracts

variable (asks : Op → Prop) (gives : Op → Res → Prop)

/-- What a process still asks is in the contract, and so is what it is about to return. -/
def Proc.Meets : Proc Op Res Sub SubRes → Prop
  | .ready client => client.Meets asks gives fun _ => True
  | .inside op left next =>
      asks op ∧ (∀ result, gives op result → (next result).Meets asks gives fun _ => True) ∧
        ∀ result, left = .done result → gives op result

/-- The contract holds of every process and of all that was returned. -/
structure Contract (config : Config ι Op Res Sub SubRes σ) : Prop where
  procs : ∀ i, (config.procs i).Meets asks gives
  returned : ∀ entry ∈ config.returned, asks entry.2.1 ∧ gives entry.2.1 entry.2.2

theorem contract_initial (shared : σ) {clients : ι → Prog Op Res Unit}
    (meets : ∀ i, (clients i).Meets asks gives fun _ => True) :
    Contract asks gives
      (Config.initial shared clients : Config ι Op Res Sub SubRes σ) where
  procs := meets
  returned := by intro entry member; cases member

end Contracts

section Steps

variable [DecidableEq ι] (body : Op → Prog Sub SubRes Res) (answer : Sub → σ → SubRes × σ)

/-- One turn: begin an operation, make one atomic call, or return. -/
def step (config : Config ι Op Res Sub SubRes σ) (i : ι) : Config ι Op Res Sub SubRes σ :=
  match config.procs i with
  | .ready (.done _) => config
  | .ready (.call op next) =>
      { config with procs := Function.update config.procs i (.inside op (body op) next) }
  | .inside op (.call sub answered) next =>
      { config with
        shared := (answer sub config.shared).2
        procs := Function.update config.procs i
          (.inside op (answered (answer sub config.shared).1) next) }
  | .inside op (.done result) next =>
      { config with
        procs := Function.update config.procs i (.ready (next result))
        returned := config.returned ++ [(i, op, result)] }

def run (config : Config ι Op Res Sub SubRes σ) (schedule : List ι) :
    Config ι Op Res Sub SubRes σ :=
  schedule.foldl (step body answer) config

/-- A condition holds at the start and after every turn. -/
def Always (holds : Config ι Op Res Sub SubRes σ → Prop) (config : Config ι Op Res Sub SubRes σ) :
    List ι → Prop
  | [] => holds config
  | i :: rest => holds config ∧ Always holds (step body answer config i) rest

/-- A condition holds of every turn, before it is taken. -/
def AllTurns (holds : Config ι Op Res Sub SubRes σ → ι → Prop)
    (config : Config ι Op Res Sub SubRes σ) : List ι → Prop
  | [] => True
  | i :: rest => holds config i ∧ AllTurns holds (step body answer config i) rest

instance decidableAllTurns (holds : Config ι Op Res Sub SubRes σ → ι → Prop)
    [∀ config i, Decidable (holds config i)] :
    ∀ config schedule, Decidable (AllTurns body answer holds config schedule)
  | _, [] => isTrue trivial
  | config, i :: rest =>
      have := decidableAllTurns holds (step body answer config i) rest
      inferInstanceAs (Decidable
        (holds config i ∧ AllTurns body answer holds (step body answer config i) rest))

variable {body answer}

theorem Always.start {holds : Config ι Op Res Sub SubRes σ → Prop}
    {config : Config ι Op Res Sub SubRes σ} {schedule : List ι}
    (always : Always body answer holds config schedule) : holds config := by
  cases schedule with
  | nil => exact always
  | cons i rest => exact always.1

theorem Always.final {holds : Config ι Op Res Sub SubRes σ → Prop}
    {config : Config ι Op Res Sub SubRes σ} {schedule : List ι}
    (always : Always body answer holds config schedule) :
    holds (run body answer config schedule) := by
  induction schedule generalizing config with
  | nil => exact always
  | cons i rest ih => exact ih always.2

theorem Always.mono {first second : Config ι Op Res Sub SubRes σ → Prop}
    (weaker : ∀ config, first config → second config)
    {config : Config ι Op Res Sub SubRes σ} {schedule : List ι}
    (always : Always body answer first config schedule) :
    Always body answer second config schedule := by
  induction schedule generalizing config with
  | nil => exact weaker config always
  | cons i rest ih => exact ⟨weaker config always.1, ih always.2⟩

theorem AllTurns.mono {first second : Config ι Op Res Sub SubRes σ → ι → Prop}
    (weaker : ∀ config i, first config i → second config i)
    {config : Config ι Op Res Sub SubRes σ} {schedule : List ι}
    (turns : AllTurns body answer first config schedule) :
    AllTurns body answer second config schedule := by
  induction schedule generalizing config with
  | nil => trivial
  | cons i rest ih => exact ⟨weaker config i turns.1, ih turns.2⟩

/-- The invariant rule, under a condition on the turns taken. -/
theorem run_invariant (invariant : Config ι Op Res Sub SubRes σ → Prop)
    {allowed : Config ι Op Res Sub SubRes σ → ι → Prop}
    (kept : ∀ config i, invariant config → allowed config i → invariant (step body answer config i))
    (schedule : List ι) (config : Config ι Op Res Sub SubRes σ) (start : invariant config)
    (turns : AllTurns body answer allowed config schedule) :
    invariant (run body answer config schedule) ∧ Always body answer invariant config schedule := by
  induction schedule generalizing config with
  | nil => exact ⟨start, start⟩
  | cons i rest ih =>
      obtain ⟨final, always⟩ := ih _ (kept config i start turns.1) turns.2
      exact ⟨final, start, always⟩

/-- What an invariant gives of every turn that is allowed. -/
theorem AllTurns.of_invariant (invariant : Config ι Op Res Sub SubRes σ → Prop)
    {allowed given : Config ι Op Res Sub SubRes σ → ι → Prop}
    (kept : ∀ config i, invariant config → allowed config i → invariant (step body answer config i))
    (gives : ∀ config i, invariant config → allowed config i → given config i)
    (schedule : List ι) (config : Config ι Op Res Sub SubRes σ) (start : invariant config)
    (turns : AllTurns body answer allowed config schedule) :
    AllTurns body answer given config schedule := by
  induction schedule generalizing config with
  | nil => trivial
  | cons i rest ih =>
      exact ⟨gives config i start turns.1, ih _ (kept config i start turns.1) turns.2⟩

/-- The invariant rule for turns of every kind. -/
theorem always_of_kept (invariant : Config ι Op Res Sub SubRes σ → Prop)
    (kept : ∀ config i, invariant config → invariant (step body answer config i))
    (schedule : List ι) (config : Config ι Op Res Sub SubRes σ) (start : invariant config) :
    Always body answer invariant config schedule := by
  induction schedule generalizing config with
  | nil => exact start
  | cons i rest ih => exact ⟨start, ih _ (kept config i start)⟩

theorem staged_step (config : Config ι Op Res Sub SubRes σ) (i : ι) (staged : Staged body config) :
    Staged body (step body answer config i) := by
  intro j op left next inside
  unfold step at inside
  split at inside
  · exact staged j op left next inside
  · by_cases same : j = i
    · subst same
      simp only [Function.update_self, Proc.inside.injEq] at inside
      obtain ⟨rfl, rfl, _⟩ := inside
      exact .start
    · simp only [Function.update_of_ne same] at inside
      exact staged j op left next inside
  · rename_i current sub answered after before
    by_cases same : j = i
    · subst same
      simp only [Function.update_self, Proc.inside.injEq] at inside
      obtain ⟨rfl, rfl, _⟩ := inside
      exact .later sub answered _ (staged j _ _ _ before)
    · simp only [Function.update_of_ne same] at inside
      exact staged j op left next inside
  · by_cases same : j = i
    · subst same
      simp only [Function.update_self, reduceCtorEq] at inside
    · simp only [Function.update_of_ne same] at inside
      exact staged j op left next inside

/-- One turn keeps the contract, when an operation that ends with it gives what it should. -/
theorem contract_step {asks : Op → Prop} {gives : Op → Res → Prop}
    (calls : ∀ op, ∃ sub answered, body op = .call sub answered)
    (config : Config ι Op Res Sub SubRes σ) (i : ι) (contract : Contract asks gives config)
    (given : ∀ op sub answered next result,
      config.procs i = .inside op (.call sub answered) next → asks op →
      answered (answer sub config.shared).1 = .done result → gives op result) :
    Contract asks gives (step body answer config i) := by
  have moved (proc : Proc Op Res Sub SubRes) (meets : proc.Meets asks gives) (j : ι) :
      (Function.update config.procs i proc j).Meets asks gives := by
    by_cases here : j = i
    · subst here
      rwa [Function.update_self]
    · rw [Function.update_of_ne here]
      exact contract.procs j
  have mine := contract.procs i
  unfold step
  split
  · exact contract
  · rename_i op next before
    rw [before] at mine
    refine ⟨moved _ ⟨mine.1, mine.2, ?_⟩, contract.returned⟩
    intro result impossible
    obtain ⟨sub, answered, called⟩ := calls op
    rw [called] at impossible
    cases impossible
  · rename_i op sub answered next before
    rw [before] at mine
    exact ⟨moved _ ⟨mine.1, mine.2.1, fun result last => given op sub answered next result before
      mine.1 last⟩, contract.returned⟩
  · rename_i op result next before
    rw [before] at mine
    have result := mine.2.2 result rfl
    refine ⟨moved _ (mine.2.1 _ result), ?_⟩
    intro entry member
    rcases List.mem_append.mp member with earlier | last
    · exact contract.returned entry earlier
    · rw [List.mem_singleton.mp last]
      exact ⟨mine.1, result⟩

end Steps

/- Operations that take effect, all at once, at the last of their atomic calls. -/
section Linearization

variable (model : Op → τ → Res × τ)

/-- The results are those of the operations in this order, one after the other. -/
def Explained (ideal : τ) : List (ι × Op × Res) → Prop
  | [] => True
  | (_, op, result) :: rest => (model op ideal).1 = result ∧ Explained (model op ideal).2 rest

/-- The model after the operations in this order. -/
def outcome (ideal : τ) : List (ι × Op × Res) → τ
  | [] => ideal
  | (_, op, _) :: rest => outcome (model op ideal).2 rest

variable {model}

theorem explained_snoc (ideal : τ) (order : List (ι × Op × Res)) (i : ι) (op : Op) (result : Res) :
    Explained model ideal (order ++ [(i, op, result)]) ↔
      Explained model ideal order ∧ (model op (outcome model ideal order)).1 = result := by
  induction order generalizing ideal with
  | nil => simp [Explained, outcome]
  | cons entry rest ih =>
      obtain ⟨j, earlier, value⟩ := entry
      simp only [List.cons_append, Explained, outcome, ih, and_assoc]

theorem outcome_snoc (ideal : τ) (order : List (ι × Op × Res)) (i : ι) (op : Op) (result : Res) :
    outcome model ideal (order ++ [(i, op, result)]) =
      (model op (outcome model ideal order)).2 := by
  induction order generalizing ideal with
  | nil => rfl
  | cons entry rest ih => exact ih _

variable (answer : Sub → σ → SubRes × σ)
  (tracked : Op → Bool) (abstraction : σ → τ) (model)

/-- An atomic call in the middle of an operation leaves the model's state alone;
the last one of a tracked operation does to it what the operation does. -/
def CommitsAtEnd (config : Config ι Op Res Sub SubRes σ) (i : ι) : Prop :=
  ∀ op sub answered next, config.procs i = .inside op (.call sub answered) next →
    if tracked op then
      match answered (answer sub config.shared).1 with
      | .done result =>
          model op (abstraction config.shared) = (result, abstraction (answer sub config.shared).2)
      | .call _ _ => abstraction (answer sub config.shared).2 = abstraction config.shared
    else abstraction (answer sub config.shared).2 = abstraction config.shared

/-- An order of the tracked operations that explains a configuration. `pending`
are those that have taken effect and are about to return. -/
structure Linearized (start : τ) (config : Config ι Op Res Sub SubRes σ)
    (order pending : List (ι × Op × Res)) : Prop where
  permutes : order.Perm (config.returned.filter (fun entry => tracked entry.2.1) ++ pending)
  distinct : pending.Nodup
  inside : ∀ i op result, (i, op, result) ∈ pending ↔
    tracked op = true ∧ ∃ next, config.procs i = .inside op (.done result) next
  explained : Explained model start order
  reached : outcome model start order = abstraction config.shared

variable {answer tracked abstraction model}

theorem linearized_initial (shared : σ) (clients : ι → Prog Op Res Unit) :
    Linearized model tracked abstraction (abstraction shared)
      (Config.initial shared clients : Config ι Op Res Sub SubRes σ) [] [] where
  permutes := List.Perm.nil
  distinct := List.nodup_nil
  inside i op result := by simp [Config.initial]
  explained := trivial
  reached := rfl

section Turn

variable [DecidableEq ι] {start : τ} {config : Config ι Op Res Sub SubRes σ}
  {order pending : List (ι × Op × Res)} {i : ι} {op : Op}
  (linearized : Linearized model tracked abstraction start config order pending)

include linearized

/-- A turn that leaves the model's state alone and finishes no operation. -/
theorem Linearized.silent {shared : σ} {returned : List (ι × Op × Res)}
    {proc : Proc Op Res Sub SubRes}
    (filtered : returned.filter (fun entry => tracked entry.2.1) =
      config.returned.filter (fun entry => tracked entry.2.1))
    (kept : abstraction shared = abstraction config.shared)
    (same : ∀ op result, tracked op = true →
      ((∃ next, proc = .inside op (.done result) next) ↔
        ∃ next, config.procs i = .inside op (.done result) next)) :
    Linearized model tracked abstraction start
      ⟨shared, Function.update config.procs i proc, returned⟩ order pending where
  permutes := by
    rw [filtered]
    exact linearized.permutes
  distinct := linearized.distinct
  inside j op result := by
    rw [linearized.inside j op result]
    apply and_congr_right
    intro follows
    by_cases other : j = i
    · subst other
      simp only [Function.update_self]
      exact (same op result follows).symm
    · simp only [Function.update_of_ne other]
  explained := linearized.explained
  reached := by
    rw [kept]
    exact linearized.reached

/-- The last atomic call of a tracked operation puts it at the end of the order. -/
theorem Linearized.commit {sub : Sub} {answered : SubRes → Prog Sub SubRes Res} {result : Res}
    {next : Res → Prog Op Res Unit} {shared : σ}
    (before : config.procs i = .inside op (.call sub answered) next) (follows : tracked op = true)
    (effect : model op (abstraction config.shared) = (result, abstraction shared)) :
    Linearized model tracked abstraction start
      ⟨shared, Function.update config.procs i (.inside op (.done result) next), config.returned⟩
      (order ++ [(i, op, result)]) (pending ++ [(i, op, result)]) where
  permutes := by
    rw [← List.append_assoc]
    exact linearized.permutes.append_right _
  distinct := by
    have fresh : (i, op, result) ∉ pending := by
      intro member
      obtain ⟨_, _, impossible⟩ := (linearized.inside i op result).mp member
      rw [before] at impossible
      cases impossible
    exact List.Nodup.append linearized.distinct (List.nodup_singleton _)
      (List.disjoint_singleton.mpr fresh)
  inside j other value := by
    rw [List.mem_append, linearized.inside, List.mem_singleton]
    by_cases same : j = i
    · subst same
      simp only [before, Proc.inside.injEq, reduceCtorEq, false_and, and_false, exists_false,
        false_or, Prod.mk.injEq, true_and, Function.update_self, Prog.done.injEq]
      constructor
      · rintro ⟨rfl, rfl⟩
        exact ⟨follows, next, rfl, rfl, rfl⟩
      · rintro ⟨_, _, rfl, rfl, _⟩
        exact ⟨rfl, rfl⟩
    · simp only [Prod.mk.injEq, same, false_and, or_false, Function.update_of_ne same]
  explained := by
    rw [explained_snoc, linearized.reached, effect]
    exact ⟨linearized.explained, rfl⟩
  reached := by rw [outcome_snoc, linearized.reached, effect]

/-- A tracked operation that returns moves from the pending ones to the returned ones. -/
theorem Linearized.finish [DecidableEq Op] [DecidableEq Res] {result : Res}
    {next : Res → Prog Op Res Unit} (before : config.procs i = .inside op (.done result) next)
    (follows : tracked op = true) :
    Linearized model tracked abstraction start
      ⟨config.shared, Function.update config.procs i (.ready (next result)),
        config.returned ++ [(i, op, result)]⟩ order (pending.erase (i, op, result)) where
  permutes := by
    have member : (i, op, result) ∈ pending :=
      (linearized.inside i op result).mpr ⟨follows, next, before⟩
    simp only [List.filter_append, List.filter_cons, follows, ↓reduceIte, List.filter_nil,
      List.append_assoc, List.singleton_append]
    exact linearized.permutes.trans ((List.perm_cons_erase member).append_left _)
  distinct := linearized.distinct.erase _
  inside j other value := by
    rw [linearized.distinct.mem_erase_iff, linearized.inside]
    by_cases same : j = i
    · subst same
      simp only [before, Proc.inside.injEq, Prog.done.injEq, Function.update_self, reduceCtorEq,
        exists_false, and_false, iff_false, not_and, ne_eq, Prod.mk.injEq, true_and]
      rintro different _ ⟨_, rfl, rfl, _⟩
      exact different rfl rfl
    · simp only [ne_eq, Prod.mk.injEq, same, false_and, not_false_eq_true, true_and,
        Function.update_of_ne same]
  explained := linearized.explained
  reached := linearized.reached

end Turn

theorem linearized_step [DecidableEq ι] [DecidableEq Op] [DecidableEq Res]
    {body : Op → Prog Sub SubRes Res}
    (calls : ∀ op, tracked op = true → ∃ sub answered, body op = .call sub answered)
    {start : τ} (config : Config ι Op Res Sub SubRes σ) (i : ι)
    {order pending : List (ι × Op × Res)}
    (linearized : Linearized model tracked abstraction start config order pending)
    (commits : CommitsAtEnd model answer tracked abstraction config i) :
    ∃ order pending, Linearized model tracked abstraction start (step body answer config i)
      order pending := by
  unfold step
  split
  · exact ⟨order, pending, linearized⟩
  · -- an operation begins: it has made no call yet
    rename_i op next before
    refine ⟨order, pending, linearized.silent rfl rfl ?_⟩
    intro other result follows
    simp only [Proc.inside.injEq, before, reduceCtorEq, exists_false, iff_false, not_exists,
      not_and]
    rintro _ rfl impossible
    obtain ⟨sub, answered, called⟩ := calls op follows
    rw [called] at impossible
    cases impossible
  · rename_i op sub answered next before
    have effect := commits op sub answered next before
    by_cases follows : tracked op = true
    · rw [if_pos follows] at effect
      cases left : answered (answer sub config.shared).1 with
      | done result =>
          rw [left] at effect
          exact ⟨_, _, linearized.commit before follows effect⟩
      | call inner after =>
          rw [left] at effect
          refine ⟨order, pending, linearized.silent rfl effect ?_⟩
          intro other result _
          simp only [Proc.inside.injEq, before, reduceCtorEq, false_and, and_false, exists_false]
    · rw [if_neg follows] at effect
      refine ⟨order, pending, linearized.silent rfl effect ?_⟩
      intro other result tracks
      simp only [Proc.inside.injEq, before, reduceCtorEq, false_and, and_false, exists_false,
        iff_false, not_exists, not_and]
      rintro _ rfl
      exact absurd tracks follows
  · rename_i op result next before
    by_cases follows : tracked op = true
    · exact ⟨_, _, linearized.finish before follows⟩
    · refine ⟨order, pending, linearized.silent ?_ rfl ?_⟩
      · simp only [List.filter_append, List.filter_cons, follows, ↓reduceIte, List.filter_nil,
          List.append_nil, Bool.false_eq_true]
      · intro other value tracks
        simp only [reduceCtorEq, exists_false, before, Proc.inside.injEq, false_iff, not_exists,
          not_and]
        rintro _ rfl
        exact absurd tracks follows

end Linearization

/- The operations in the order of their last atomic calls. -/
section Finished

variable [DecidableEq ι] (body : Op → Prog Sub SubRes Res) (answer : Sub → σ → SubRes × σ)

/-- The operation that makes its last atomic call in a turn. -/
def finishing (config : Config ι Op Res Sub SubRes σ) (i : ι) : List (ι × Op × Res) :=
  match config.procs i with
  | .inside op (.call sub answered) _ =>
      match answered (answer sub config.shared).1 with
      | .done result => [(i, op, result)]
      | .call _ _ => []
  | _ => []

/-- The operations that make their last atomic call in a run, in that order. -/
def finished (config : Config ι Op Res Sub SubRes σ) : List ι → List (ι × Op × Res)
  | [] => []
  | i :: rest => finishing answer config i ++ finished (step body answer config i) rest

/-- The operation a process has made all atomic calls of, and not returned from. -/
def Proc.pending (i : ι) : Proc Op Res Sub SubRes → List (ι × Op × Res)
  | .inside op (.done result) _ => [(i, op, result)]
  | _ => []

variable {body answer} {model : Op → τ → Res × τ} {abstraction : σ → τ}

/-- A turn leaves the model's state alone, or takes an operation's effect on it. -/
theorem finishing_cases (body : Op → Prog Sub SubRes Res)
    {config : Config ι Op Res Sub SubRes σ} {i : ι}
    (commits : CommitsAtEnd model answer (fun _ => true) abstraction config i) :
    (finishing answer config i = [] ∧
        abstraction (step body answer config i).shared = abstraction config.shared) ∨
      ∃ op result, finishing answer config i = [(i, op, result)] ∧
        model op (abstraction config.shared) =
          (result, abstraction (step body answer config i).shared) := by
  unfold finishing step
  split
  · rename_i op sub answered next before
    have effect := commits op sub answered next before
    simp only [↓reduceIte] at effect
    split
    · rename_i result last
      rw [last] at effect
      exact Or.inr ⟨op, result, rfl, by simpa only [before] using effect⟩
    · rename_i inner after last
      rw [last] at effect
      exact Or.inl ⟨rfl, by simpa only [before] using effect⟩
  · rename_i other
    refine Or.inl ⟨rfl, ?_⟩
    cases before : config.procs i with
    | ready client => cases client <;> rfl
    | inside op left next =>
        cases left with
        | done result => rfl
        | call sub answered => exact absurd before (other op sub answered next)

/-- When each operation takes effect at its last atomic call, that order explains
the results, and leads to the state that was reached. -/
theorem explained_finished (schedule : List ι) (config : Config ι Op Res Sub SubRes σ)
    (commits : AllTurns body answer
      (CommitsAtEnd model answer (fun _ => true) abstraction) config schedule) :
    Explained model (abstraction config.shared) (finished body answer config schedule) ∧
      outcome model (abstraction config.shared) (finished body answer config schedule) =
        abstraction (run body answer config schedule).shared := by
  induction schedule generalizing config with
  | nil => exact ⟨trivial, rfl⟩
  | cons i rest ih =>
      have later := ih _ commits.2
      rw [finished]
      rcases finishing_cases body commits.1 with
        ⟨nothing, same⟩ | ⟨op, result, last, effect⟩
      · rw [nothing, List.nil_append, ← same]
        exact later
      · rw [last, List.cons_append, List.nil_append]
        simp only [Explained, outcome, effect, true_and]
        exact later

/-- What a process has returned, and what it is about to return, is what it has
finished, in the same order. -/
theorem finishing_returned (calls : ∀ op, ∃ sub answered, body op = .call sub answered)
    (config : Config ι Op Res Sub SubRes σ) (i j : ι) :
    (step body answer config i).returned.filter (fun entry => entry.1 = j) ++
        ((step body answer config i).procs j).pending j =
      config.returned.filter (fun entry => entry.1 = j) ++ (config.procs j).pending j ++
        (finishing answer config i).filter (fun entry => entry.1 = j) := by
  by_cases same : j = i
  · subst same
    unfold step finishing
    cases before : config.procs j with
    | ready client =>
        cases client with
        | done value => simp [before, Proc.pending]
        | call op next =>
            obtain ⟨sub, answered, called⟩ := calls op
            simp [called, Proc.pending]
    | inside op left next =>
        cases left with
        | done result => simp [Proc.pending]
        | call sub answered =>
            cases last : answered (answer sub config.shared).1 <;> simp [last, Proc.pending]
  · unfold step finishing
    cases before : config.procs i with
    | ready client => cases client <;> simp [same]
    | inside op left next =>
        cases left with
        | done result => simp [same, Ne.symm same]
        | call sub answered =>
            cases last : answered (answer sub config.shared).1 <;> simp [same, Ne.symm same, last]

theorem finished_returned (calls : ∀ op, ∃ sub answered, body op = .call sub answered)
    (schedule : List ι) (config : Config ι Op Res Sub SubRes σ) (j : ι) :
    (run body answer config schedule).returned.filter (fun entry => entry.1 = j) ++
        ((run body answer config schedule).procs j).pending j =
      config.returned.filter (fun entry => entry.1 = j) ++ (config.procs j).pending j ++
        (finished body answer config schedule).filter (fun entry => entry.1 = j) := by
  induction schedule generalizing config with
  | nil => simp [run, finished]
  | cons i rest ih =>
      change (run body answer (step body answer config i) rest).returned.filter _ ++
        ((run body answer (step body answer config i) rest).procs j).pending j = _
      rw [ih, finishing_returned calls config i j, finished, List.filter_append]
      simp only [List.append_assoc]

end Finished

end Interleaving

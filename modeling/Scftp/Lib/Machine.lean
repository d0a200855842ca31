import Mathlib.Tactic.ByContra

set_option autoImplicit false

/- Step machines: a program that goes from state to state until it exits or
does something undefined. The step may differ from moment to moment, which is
how answers of the environment enter. -/
namespace Machine

/-- What one step leaves. -/
inductive Outcome (σ : Type) where
  | next (state : σ)
  | exit (state : σ)
  /-- Undefined behaviour, such as a write outside an array. -/
  | fault
deriving DecidableEq

/-- The outcome with a view of the state in its place. -/
def Outcome.map {σ τ : Type} (view : σ → τ) : Outcome σ → Outcome τ
  | .next state => .next (view state)
  | .exit state => .exit (view state)
  | .fault => .fault

variable {σ : Type}

/-- The outcome after `count` steps. Once the machine has ended it stays so. -/
def run (step : Nat → σ → Outcome σ) (initial : σ) : Nat → Outcome σ
  | 0 => .next initial
  | count + 1 =>
      match run step initial count with
      | .next state => step count state
      | ended => ended

/-- The machine stops, by an exit, after finitely many steps. -/
def Exits (step : Nat → σ → Outcome σ) (initial : σ) : Prop :=
  ∃ count state, run step initial count = .exit state

/-- Every step a run takes meets a condition on its moment and state. -/
def AllSteps (step : Nat → σ → Outcome σ) (initial : σ) (condition : Nat → σ → Prop) : Prop :=
  ∀ count state, run step initial count = .next state → condition count state

variable {step : Nat → σ → Outcome σ} {initial : σ}

@[simp] theorem run_zero : run step initial 0 = .next initial := rfl

theorem run_succ_of_next {count : Nat} {state : σ}
    (reached : run step initial count = .next state) :
    run step initial (count + 1) = step count state := by
  simp only [run, reached]

theorem run_succ_of_exit {count : Nat} {state : σ} (ended : run step initial count = .exit state) :
    run step initial (count + 1) = .exit state := by
  simp only [run, ended]

theorem run_succ_of_fault {count : Nat} (ended : run step initial count = .fault) :
    run step initial (count + 1) = .fault := by
  simp only [run, ended]

theorem run_succ_next {count : Nat} {state : σ}
    (reached : run step initial (count + 1) = .next state) :
    ∃ before, run step initial count = .next before ∧ step count before = .next state := by
  cases previous : run step initial count with
  | next before => exact ⟨before, rfl, by rwa [run_succ_of_next previous] at reached⟩
  | exit ended => rw [run_succ_of_exit previous] at reached; cases reached
  | fault => rw [run_succ_of_fault previous] at reached; cases reached

theorem run_exit_mono {count later : Nat} {state : σ} (ended : run step initial count = .exit state)
    (le : count ≤ later) : run step initial later = .exit state := by
  induction le with
  | refl => exact ended
  | step _ ih => exact run_succ_of_exit ih

theorem run_fault_mono {count later : Nat} (broken : run step initial count = .fault)
    (le : count ≤ later) : run step initial later = .fault := by
  induction le with
  | refl => exact broken
  | step _ ih => exact run_succ_of_fault ih

/-- A machine is on its way only before it ends. -/
theorem lt_of_run_exit {count total : Nat} {state left : σ}
    (ended : run step initial total = .exit left)
    (reached : run step initial count = .next state) : count < total := by
  by_contra late
  rw [run_exit_mono ended (by omega)] at reached
  cases reached

theorem not_exits_of_fault {count : Nat} (broken : run step initial count = .fault) :
    ¬ Exits step initial := by
  have still : ∀ more, run step initial (count + more) = .fault := by
    intro more
    induction more with
    | zero => exact broken
    | succ more ih => exact run_succ_of_fault ih
  rintro ⟨total, left, exited⟩
  have impossible := run_exit_mono exited (Nat.le_add_left total count)
  rw [still total] at impossible
  cases impossible

/-- The invariant rule. The invariant may speak of the moment. -/
theorem run_invariant (invariant : Nat → σ → Prop) (start : invariant 0 initial)
    (kept : ∀ count before after, run step initial count = .next before → invariant count before →
      step count before = .next after → invariant (count + 1) after) :
    ∀ count state, run step initial count = .next state → invariant count state := by
  intro count
  induction count with
  | zero =>
      intro state reached
      cases reached
      exact start
  | succ count ih =>
      intro state reached
      obtain ⟨before, earlier, stepped⟩ := run_succ_next reached
      exact kept count before state earlier (ih before earlier) stepped

/-- A machine whose steps all lower a measure ends. -/
theorem run_ends (measure : σ → Nat)
    (lower : ∀ count before after, run step initial count = .next before →
      step count before = .next after → measure after < measure before) :
    ∃ count ≤ measure initial + 1, ∀ state, run step initial count ≠ .next state := by
  by_contra running
  simp only [not_exists, not_and, not_forall, ne_eq, not_not] at running
  have bounded : ∀ count ≤ measure initial + 1, ∀ state,
      run step initial count = .next state → measure state + count ≤ measure initial := by
    intro count
    induction count with
    | zero =>
        intro _ state reached
        cases reached
        exact Nat.le_refl _
    | succ count ih =>
        intro within state reached
        obtain ⟨before, earlier, stepped⟩ := run_succ_next reached
        have previous := ih (by omega) before earlier
        have lowered := lower count before state earlier stepped
        omega
  obtain ⟨state, reached⟩ := running (measure initial + 1) (Nat.le_refl _)
  have impossible := bounded (measure initial + 1) (Nat.le_refl _) state reached
  omega

/-- A machine whose steps exit or lower a measure exits. -/
theorem exits_of_measure (measure : σ → Nat)
    (progress : ∀ count before, run step initial count = .next before →
      (∃ after, step count before = .exit after) ∨
        ∃ after, step count before = .next after ∧ measure after < measure before) :
    Exits step initial := by
  have lower : ∀ count before after, run step initial count = .next before →
      step count before = .next after → measure after < measure before := by
    intro count before after reached stepped
    rcases progress count before reached with ⟨left, exits⟩ | ⟨left, goes, lower⟩
    · rw [stepped] at exits
      cases exits
    · rw [stepped] at goes
      cases goes
      exact lower
  obtain ⟨count, _, ended⟩ := run_ends measure lower
  have unbroken : ∀ count, run step initial count ≠ .fault := by
    intro count
    induction count with
    | zero => intro impossible; cases impossible
    | succ count ih =>
        intro broken
        cases previous : run step initial count with
        | next before =>
            rw [run_succ_of_next previous] at broken
            rcases progress count before previous with ⟨left, exits⟩ | ⟨left, goes, _⟩
            · rw [broken] at exits
              cases exits
            · rw [broken] at goes
              cases goes
        | exit left => rw [run_succ_of_exit previous] at broken; cases broken
        | fault => exact ih previous
  cases last : run step initial count with
  | next state => exact absurd last (ended state)
  | exit state => exact ⟨count, state, last⟩
  | fault => exact absurd last (unbroken count)

/-- A machine that reaches a set of states it cannot leave never exits. -/
theorem not_exits_of_doomed (doomed : σ → Prop)
    (kept : ∀ count before, doomed before →
      step count before = .fault ∨ ∃ after, step count before = .next after ∧ doomed after)
    {count : Nat} {state : σ} (reached : run step initial count = .next state)
    (start : doomed state) :
    ¬ Exits step initial := by
  have later : ∀ more, run step initial (count + more) = .fault ∨
      ∃ state, run step initial (count + more) = .next state ∧ doomed state := by
    intro more
    induction more with
    | zero => exact Or.inr ⟨state, reached, start⟩
    | succ more ih =>
        rcases ih with broken | ⟨before, reached, held⟩
        · exact Or.inl (run_succ_of_fault broken)
        · rw [← Nat.add_assoc, run_succ_of_next reached]
          exact kept _ before held
  rintro ⟨total, left, exited⟩
  have still := run_exit_mono exited (Nat.le_add_left total count)
  rcases later total with broken | ⟨state, reached, _⟩
  · rw [broken] at still
    cases still
  · rw [reached] at still
    cases still

/-- A run through states that the steps lead to, one after the other. -/
theorem run_of_steps {states : Nat → σ} {total : Nat} (start : states 0 = initial)
    (steps : ∀ count < total, step count (states count) = .next (states (count + 1))) :
    ∀ count ≤ total, run step initial count = .next (states count) := by
  intro count within
  induction count with
  | zero => rw [run_zero, start]
  | succ count ih => rw [run_succ_of_next (ih (by omega)), steps count (by omega)]

/-- A state every step keeps is never left. -/
theorem run_stuck (stuck : ∀ count, step count initial = .next initial) :
    ∀ count, run step initial count = .next initial := by
  intro count
  induction count with
  | zero => rfl
  | succ count ih => rw [run_succ_of_next ih, stuck]

/- Machines whose step is the same at every moment. -/
section Steady

variable {step : σ → Outcome σ} {initial after : σ}

theorem run_tail (stepped : step initial = .next after) (count : Nat) :
    run (fun _ => step) initial (count + 1) = run (fun _ => step) after count := by
  induction count with
  | zero => rw [run_succ_of_next run_zero, stepped, run_zero]
  | succ count ih =>
      cases reached : run (fun _ => step) after count with
      | next state =>
          rw [reached] at ih
          rw [run_succ_of_next ih, run_succ_of_next reached]
      | exit state =>
          rw [reached] at ih
          rw [run_succ_of_exit ih, run_succ_of_exit reached]
      | fault =>
          rw [reached] at ih
          rw [run_succ_of_fault ih, run_succ_of_fault reached]

theorem AllSteps.tail {condition : σ → Prop}
    (held : AllSteps (fun _ => step) initial fun _ => condition)
    (stepped : step initial = .next after) :
    AllSteps (fun _ => step) after fun _ => condition := by
  intro count state reached
  apply held (count + 1) state
  rw [run_tail stepped, reached]

theorem AllSteps.later {condition : σ → Prop}
    (held : AllSteps (fun _ => step) initial fun _ => condition) {count : Nat}
    (reached : run (fun _ => step) initial count = .next after) :
    AllSteps (fun _ => step) after fun _ => condition := by
  induction count generalizing after with
  | zero =>
      cases reached
      exact held
  | succ count ih =>
      obtain ⟨before, earlier, stepped⟩ := run_succ_next reached
      exact (ih earlier).tail stepped

theorem AllSteps.start {condition : σ → Prop}
    (held : AllSteps (fun _ => step) initial fun _ => condition) : condition initial :=
  held 0 initial rfl

theorem run_later {count : Nat} (reached : run (fun _ => step) initial count = .next after)
    (more : Nat) : run (fun _ => step) initial (count + more) = run (fun _ => step) after more := by
  induction more with
  | zero => rw [Nat.add_zero, reached, run_zero]
  | succ more ih =>
      cases ran : run (fun _ => step) after more with
      | next state =>
          rw [ran] at ih
          rw [← Nat.add_assoc, run_succ_of_next ih, run_succ_of_next ran]
      | exit state =>
          rw [ran] at ih
          rw [← Nat.add_assoc, run_succ_of_exit ih, run_succ_of_exit ran]
      | fault =>
          rw [ran] at ih
          rw [← Nat.add_assoc, run_succ_of_fault ih, run_succ_of_fault ran]

/-- A machine whose steps end it, lower a measure or change nothing comes to an end
or to rest, within as many steps as the measure allows. -/
theorem run_settles (measure : σ → Nat) (invariant : σ → Prop)
    (progress : ∀ before, invariant before →
      (∃ left, step before = .exit left) ∨ step before = .fault ∨ step before = .next before ∨
        ∃ after, step before = .next after ∧ invariant after ∧ measure after < measure before)
    (start : invariant initial) :
    ∃ count ≤ measure initial + 1,
      (∃ left, run (fun _ => step) initial count = .exit left) ∨
        run (fun _ => step) initial count = .fault ∨
        ∃ idle, run (fun _ => step) initial count = .next idle ∧ step idle = .next idle := by
  induction remaining : measure initial using Nat.strongRecOn generalizing initial with
  | ind left ih =>
      rcases progress initial start with ⟨ended, exits⟩ | broken | still | ⟨after, goes, held, less⟩
      · exact ⟨1, by omega, Or.inl ⟨ended, by rw [run_succ_of_next run_zero, exits]⟩⟩
      · exact ⟨1, by omega, Or.inr (Or.inl (by rw [run_succ_of_next run_zero, broken]))⟩
      · exact ⟨0, by omega, Or.inr (Or.inr ⟨initial, run_zero, still⟩)⟩
      · obtain ⟨count, within, settled⟩ := ih (measure after) (by omega) held rfl
        refine ⟨count + 1, by omega, ?_⟩
        rw [run_tail goes]
        exact settled

theorem run_fault {count : Nat} (broken : run (fun _ => step) initial count = .fault) :
    ∃ earlier before, run (fun _ => step) initial earlier = .next before ∧
      step before = .fault := by
  induction count with
  | zero => cases broken
  | succ count ih =>
      cases previous : run (fun _ => step) initial count with
      | next before => exact ⟨count, before, previous, by rwa [run_succ_of_next previous] at broken⟩
      | exit left => rw [run_succ_of_exit previous] at broken; cases broken
      | fault => exact ih previous

theorem run_rest {count later : Nat} {idle : σ}
    (reached : run (fun _ => step) initial count = .next idle) (rests : step idle = .next idle)
    (after : count ≤ later) : run (fun _ => step) initial later = .next idle := by
  induction after with
  | refl => exact reached
  | step _ ih => rw [run_succ_of_next ih, rests]

end Steady

end Machine

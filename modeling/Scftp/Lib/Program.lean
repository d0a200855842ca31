import Mathlib.Logic.Function.Basic

set_option autoImplicit false

/- Programs that call a component and go on with its answers. What the
component answers is not part of a program, so one program can be run alone, with
failures, or interleaved with others. -/
namespace Program

/-- A program that makes calls `Op`, gets answers `Res` and returns an `α`. -/
inductive Prog (Op Res α : Type) where
  | done (value : α)
  | call (op : Op) (next : Res → Prog Op Res α)

namespace Prog

variable {Op Res α β σ : Type}

def bind : Prog Op Res α → (α → Prog Op Res β) → Prog Op Res β
  | .done value, next => next value
  | .call op answered, next => .call op fun result => (answered result).bind next

instance : Monad (Prog Op Res) where
  pure := .done
  bind := bind

/-- The program of one call. -/
def perform (op : Op) : Prog Op Res Res := .call op .done

@[simp] theorem pure_eq (value : α) : (pure value : Prog Op Res α) = .done value := rfl

@[simp] theorem done_bind (value : α) (next : α → Prog Op Res β) :
    (Prog.done value >>= next) = next value := rfl

@[simp] theorem call_bind (op : Op) (answered : Res → Prog Op Res α) (next : α → Prog Op Res β) :
    (Prog.call op answered >>= next) = .call op fun result => answered result >>= next := rfl

@[simp] theorem perform_bind (op : Op) (next : Res → Prog Op Res β) :
    (perform op >>= next) = .call op next := rfl

/-- The run of a program against a component with a state. -/
def run (answer : Op → σ → Res × σ) : Prog Op Res α → σ → α × σ
  | .done value, state => (value, state)
  | .call op next, state => (next (answer op state).1).run answer (answer op state).2

/-- One call of a run, with the component's state around it. -/
structure Record (Op Res σ : Type) where
  before : σ
  op : Op
  result : Res
  after : σ

/-- The calls of a run, in order. -/
def records (answer : Op → σ → Res × σ) : Prog Op Res α → σ → List (Record Op Res σ)
  | .done _, _ => []
  | .call op next, state =>
      ⟨state, op, (answer op state).1, (answer op state).2⟩ ::
        (next (answer op state).1).records answer (answer op state).2

variable (answer : Op → σ → Res × σ)

@[simp] theorem run_done (value : α) (state : σ) :
    (Prog.done value : Prog Op Res α).run answer state = (value, state) := rfl

@[simp] theorem run_call (op : Op) (next : Res → Prog Op Res α) (state : σ) :
    (Prog.call op next).run answer state =
      (next (answer op state).1).run answer (answer op state).2 := rfl

theorem run_bind (first : Prog Op Res α) (next : α → Prog Op Res β) (state : σ) :
    (first >>= next).run answer state =
      (next (first.run answer state).1).run answer (first.run answer state).2 := by
  induction first generalizing state with
  | done value => rfl
  | call op answered ih => exact ih _ _

/-- Every record is one answer of the component. -/
theorem records_answer (prog : Prog Op Res α) (state : σ) :
    ∀ record ∈ prog.records answer state,
      (record.result, record.after) = answer record.op record.before := by
  induction prog generalizing state with
  | done value => intro record member; cases member
  | call op next ih =>
      intro record member
      rcases List.mem_cons.mp member with rfl | member
      · rfl
      · exact ih _ _ record member

/-- What every recorded call keeps holds around every call and after the run. -/
theorem run_invariant (invariant : σ → Prop) (prog : Prog Op Res α) (state : σ)
    (initial : invariant state)
    (kept : ∀ record ∈ prog.records answer state,
      invariant record.before → invariant record.after) :
    invariant (prog.run answer state).2 ∧
      ∀ record ∈ prog.records answer state, invariant record.before ∧ invariant record.after := by
  induction prog generalizing state with
  | done value => exact ⟨initial, fun record member => by cases member⟩
  | call op next ih =>
      have first := kept _ List.mem_cons_self initial
      obtain ⟨final, around⟩ := ih (answer op state).1 _ first
        (fun record member => kept record (List.mem_cons_of_mem _ member))
      refine ⟨final, ?_⟩
      intro record member
      rcases List.mem_cons.mp member with rfl | member
      · exact ⟨initial, first⟩
      · exact around record member

/-- Two components that answer alike, and keep their states related, give a
program the same result. -/
theorem run_simulation {τ : Type} (model : Op → τ → Res × τ) (related : σ → τ → Prop)
    (agree : ∀ op state ideal, related state ideal →
      (answer op state).1 = (model op ideal).1 ∧ related (answer op state).2 (model op ideal).2)
    (prog : Prog Op Res α) (state : σ) (ideal : τ) (start : related state ideal) :
    (prog.run answer state).1 = (prog.run model ideal).1 ∧
      related (prog.run answer state).2 (prog.run model ideal).2 := by
  induction prog generalizing state ideal with
  | done value => exact ⟨rfl, start⟩
  | call op next ih =>
      obtain ⟨same, after⟩ := agree op state ideal start
      rw [run_call, run_call, same]
      exact ih _ _ _ after

/-- The calls a program makes for some answers. -/
inductive MayCall : Prog Op Res α → Op → Prop where
  | here (op : Op) (next : Res → Prog Op Res α) : MayCall (.call op next) op
  | later (op : Op) (next : Res → Prog Op Res α) (result : Res) (inner : Op)
      (reached : MayCall (next result) inner) : MayCall (.call op next) inner

theorem mayCall_done (value : α) (op : Op) : ¬ (Prog.done value : Prog Op Res α).MayCall op := by
  intro reached
  cases reached

theorem mayCall_call {op inner : Op} {next : Res → Prog Op Res α} :
    (Prog.call op next).MayCall inner ↔ inner = op ∨ ∃ result, (next result).MayCall inner := by
  constructor
  · intro reached
    cases reached with
    | here => exact Or.inl rfl
    | later _ _ result _ reached => exact Or.inr ⟨result, reached⟩
  · rintro (rfl | ⟨result, reached⟩)
    · exact .here inner next
    · exact .later op next result inner reached

/-- While the answers are as given, the program makes only calls it may ask for,
and returns what it should. -/
def Meets (asks : Op → Prop) (gives : Op → Res → Prop) (returns : α → Prop) :
    Prog Op Res α → Prop
  | .done value => returns value
  | .call op next => asks op ∧ ∀ result, gives op result → (next result).Meets asks gives returns

section Meets

variable {asks : Op → Prop} {gives : Op → Res → Prop} {returns : α → Prop}

theorem meets_done {value : α} (returned : returns value) :
    (Prog.done value : Prog Op Res α).Meets asks gives returns := returned

theorem meets_call {op : Op} {next : Res → Prog Op Res α} (asked : asks op)
    (goesOn : ∀ result, gives op result → (next result).Meets asks gives returns) :
    (Prog.call op next).Meets asks gives returns := ⟨asked, goesOn⟩

theorem Meets.bind {first : Prog Op Res α} {next : α → Prog Op Res β} {ends : β → Prop}
    (meets : first.Meets asks gives returns)
    (goesOn : ∀ value, returns value → (next value).Meets asks gives ends) :
    (first >>= next).Meets asks gives ends := by
  induction first with
  | done value => exact goesOn value meets
  | call op answered ih => exact ⟨meets.1, fun result given => ih result (meets.2 result given)⟩

/-- A run on a component that gives what is assumed asks only what may be asked. -/
theorem Meets.run {prog : Prog Op Res α} (meets : prog.Meets asks gives returns)
    (answer : Op → σ → Res × σ) (given : ∀ op state, asks op → gives op (answer op state).1)
    (state : σ) :
    returns (prog.run answer state).1 ∧ ∀ record ∈ prog.records answer state, asks record.op := by
  induction prog generalizing state with
  | done value => exact ⟨meets, fun record member => by cases member⟩
  | call op next ih =>
      have result := given op state meets.1
      obtain ⟨returned, asked⟩ := ih _ (meets.2 _ result) (answer op state).2
      refine ⟨returned, ?_⟩
      intro record member
      rcases List.mem_cons.mp member with rfl | member
      · exact meets.1
      · exact asked record member

end Meets

/-- Two programs that make the same calls and return the same, as long as what they
are handed is alike: neither goes by a difference it is not to see. -/
def Agree (alike : Res → Res → Prop) (asks : Op → Prop) (returns : α → Prop) :
    Prog Op Res α → Prog Op Res α → Prop
  | .done value, .done other => value = other ∧ returns value
  | .call op next, .call same other =>
      op = same ∧ asks op ∧ ∀ result twin, alike result twin →
        (next result).Agree alike asks returns (other twin)
  | .done _, .call _ _ => False
  | .call _ _, .done _ => False

section Agree

variable {alike : Res → Res → Prop} {asks : Op → Prop} {returns : α → Prop}

theorem agree_done {value : α} (returned : returns value) :
    (Prog.done value : Prog Op Res α).Agree alike asks returns (.done value) := ⟨rfl, returned⟩

theorem agree_perform {op : Op} {next : Res → Prog Op Res α} (asked : asks op)
    (goesOn : ∀ result twin, alike result twin →
      (next result).Agree alike asks returns (next twin)) :
    (perform op >>= next).Agree alike asks returns (perform op >>= next) := ⟨rfl, asked, goesOn⟩

theorem Agree.bind {first other : Prog Op Res α} {next : α → Prog Op Res β} {ends : β → Prop}
    (agree : first.Agree alike asks returns other)
    (goesOn : ∀ value, returns value → (next value).Agree alike asks ends (next value)) :
    (first >>= next).Agree alike asks ends (other >>= next) := by
  induction first generalizing other with
  | done value =>
      cases other with
      | done twin =>
          obtain ⟨rfl, returned⟩ := agree
          exact goesOn value returned
      | call op after => exact agree.elim
  | call op answered ih =>
      cases other with
      | done twin => exact agree.elim
      | call same after =>
          obtain ⟨rfl, asked, follows⟩ := agree
          exact ⟨rfl, asked, fun result twin alike => ih result (follows result twin alike)⟩

/-- Runs that agree from states that look the same make the same calls, return the
same and end in states that look the same. -/
theorem Agree.run {first other : Prog Op Res α} (agree : first.Agree alike asks returns other)
    {answer : Op → σ → Res × σ} {same : σ → σ → Prop}
    (kept : ∀ op state twin, asks op → same state twin →
      alike (answer op state).1 (answer op twin).1 ∧ same (answer op state).2 (answer op twin).2)
    {state twin : σ} (start : same state twin) :
    (first.run answer state).1 = (other.run answer twin).1 ∧
      (first.records answer state).map Record.op = (other.records answer twin).map Record.op ∧
      same (first.run answer state).2 (other.run answer twin).2 := by
  induction first generalizing other state twin with
  | done value =>
      cases other with
      | done value =>
          obtain ⟨rfl, _⟩ := agree
          exact ⟨rfl, rfl, start⟩
      | call op after => exact agree.elim
  | call op answered ih =>
      cases other with
      | done value => exact agree.elim
      | call op after =>
          obtain ⟨rfl, asked, follows⟩ := agree
          obtain ⟨handed, still⟩ := kept _ state twin asked start
          obtain ⟨returned, calls, ends⟩ := ih _ (follows _ _ handed) still
          exact ⟨returned, by simp only [records, List.map_cons, calls], ends⟩

end Agree

/-- The weakest precondition of a run: every call is allowed in the state it meets,
and what is returned is as asked for. -/
def wp (answer : Op → σ → Res × σ) (allowed : Op → σ → Prop) (post : α → σ → Prop) :
    Prog Op Res α → σ → Prop
  | .done value, state => post value state
  | .call op next, state =>
      allowed op state ∧
        (next (answer op state).1).wp answer allowed post (answer op state).2

section Wp

variable {answer : Op → σ → Res × σ} {allowed : Op → σ → Prop} {post : α → σ → Prop}

@[simp] theorem wp_done (value : α) (state : σ) :
    (Prog.done value : Prog Op Res α).wp answer allowed post state ↔ post value state := Iff.rfl

@[simp] theorem wp_call (op : Op) (next : Res → Prog Op Res α) (state : σ) :
    (Prog.call op next).wp answer allowed post state ↔ allowed op state ∧
      (next (answer op state).1).wp answer allowed post (answer op state).2 := Iff.rfl

theorem wp_bind (first : Prog Op Res α) (next : α → Prog Op Res β) (ends : β → σ → Prop)
    (state : σ) :
    (first >>= next).wp answer allowed ends state ↔
      first.wp answer allowed (fun value => (next value).wp answer allowed ends) state := by
  induction first generalizing state with
  | done value => rfl
  | call op answered ih => exact and_congr_right fun _ => ih _ _

/-- What a weakest precondition says of the run and its records. -/
theorem wp_iff (prog : Prog Op Res α) (state : σ) :
    prog.wp answer allowed post state ↔
      (∀ record ∈ prog.records answer state, allowed record.op record.before) ∧
        post (prog.run answer state).1 (prog.run answer state).2 := by
  induction prog generalizing state with
  | done value => simp [records]
  | call op next ih => rw [wp_call, ih, records, List.forall_mem_cons, run_call, and_assoc]

end Wp

/-- A program with each of its calls carried out by calls of another kind. -/
def expand {Sub SubRes : Type} (body : Op → Prog Sub SubRes Res) :
    Prog Op Res α → Prog Sub SubRes α
  | .done value => .done value
  | .call op next => body op >>= fun result => (next result).expand body

/-- If every call that is asked for is carried out as a model answers it, so is a
whole program of such calls. -/
theorem expand_wp {Sub SubRes τ : Type} {body : Op → Prog Sub SubRes Res}
    {answer : Sub → σ → SubRes × σ} {allowed : Sub → σ → Prop} (model : Op → τ → Res × τ)
    (related : σ → τ → Prop) (asks : Op → Prop)
    (carried : ∀ op state abstract, asks op → related state abstract → ∀ post : Res → σ → Prop,
      (∀ after, related after (model op abstract).2 → post (model op abstract).1 after) →
      (body op).wp answer allowed post state)
    (prog : Prog Op Res α) {state : σ} {abstract : τ} (start : related state abstract)
    (asked : ∀ record ∈ prog.records model abstract, asks record.op) (post : α → σ → Prop)
    (goesOn : ∀ after, related after (prog.run model abstract).2 →
      post (prog.run model abstract).1 after) :
    (prog.expand body).wp answer allowed post state := by
  induction prog generalizing state abstract with
  | done value => exact goesOn state start
  | call op next ih =>
      rw [records, List.forall_mem_cons] at asked
      rw [expand, wp_bind]
      exact carried op state abstract asked.1 start _ fun after kept =>
        ih _ kept asked.2 goesOn

/-- A program with each of its calls carried out by calls of another kind, up to the
first that cannot be. -/
def attempt {Sub SubRes : Type} (body : Op → Prog Sub SubRes (Option Res)) :
    Prog Op Res α → Prog Sub SubRes (Option α)
  | .done value => .done (some value)
  | .call op next => do
      let some result ← body op | return none
      (next result).attempt body

/-- If every call that is asked for can be carried out, and is as a model answers it,
so is a whole program of such calls. -/
theorem attempt_wp {Sub SubRes τ : Type} {body : Op → Prog Sub SubRes (Option Res)}
    {answer : Sub → σ → SubRes × σ} {allowed : Sub → σ → Prop} (model : Op → τ → Res × τ)
    (related : σ → τ → Prop) (asks : Op → Prop)
    (carried : ∀ op state abstract, asks op → related state abstract →
      ∀ post : Option Res → σ → Prop,
        (∀ after, related after (model op abstract).2 →
          post (some (model op abstract).1) after) →
        (body op).wp answer allowed post state)
    (prog : Prog Op Res α) {state : σ} {abstract : τ} (start : related state abstract)
    (asked : ∀ record ∈ prog.records model abstract, asks record.op)
    (post : Option α → σ → Prop)
    (goesOn : ∀ after, related after (prog.run model abstract).2 →
      post (some (prog.run model abstract).1) after) :
    (prog.attempt body).wp answer allowed post state := by
  induction prog generalizing state abstract with
  | done value => exact goesOn state start
  | call op next ih =>
      rw [records, List.forall_mem_cons] at asked
      rw [attempt, wp_bind]
      exact carried op state abstract asked.1 start _ fun after kept =>
        ih _ kept asked.2 goesOn

/-- The calls of a list, one after the other. -/
def sequence : List Op → Prog Op Res (List Res)
  | [] => .done []
  | op :: rest => do
      let result ← perform op
      let results ← sequence rest
      return result :: results

end Prog

end Program

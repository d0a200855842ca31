import Scftp.Lib.Machine

set_option autoImplicit false

/- Machines that answer a list of items, one after the other, and programs that
follow such a machine in steps of their own, several for an item or a part of one. -/
namespace Feed

open Machine

section Items

variable {ι α : Type} (react : ι → α → Outcome α) (suits : ι → α → Prop)

/-- What a machine comes to that answers the items of a list in turn. -/
def feed : List ι → α → Outcome α
  | [], state => .next state
  | item :: items, state =>
      match react item state with
      | .next after => feed items after
      | ended => ended

/-- Each item suits the state that it meets, up to the end. -/
def Suited : List ι → α → Prop
  | [], _ => True
  | item :: items, state =>
      suits item state ∧ ∀ after, react item state = .next after → Suited items after

instance instDecidableSuited [∀ item, DecidablePred (suits item)] :
    ∀ items state, Decidable (Suited react suits items state)
  | [], _ => isTrue trivial
  | item :: items, state =>
      have :
          Decidable (∀ after, react item state = .next after → Suited react suits items after) :=
        match react item state with
        | .next after =>
            have := instDecidableSuited items after
            decidable_of_iff (Suited react suits items after)
              ⟨fun held _ same => Outcome.next.inj same ▸ held, fun held => held after rfl⟩
        | .exit _ => isTrue nofun
        | .fault => isTrue nofun
      inferInstanceAs (Decidable (_ ∧ _))

variable {react suits}

@[simp] theorem feed_nil (state : α) : feed react [] state = .next state := rfl

theorem feed_next {item : ι} {state after : α} (answered : react item state = .next after)
    (items : List ι) : feed react (item :: items) state = feed react items after := by
  simp only [feed, answered]

theorem feed_exit {item : ι} {state left : α} (answered : react item state = .exit left)
    (items : List ι) : feed react (item :: items) state = .exit left := by
  simp only [feed, answered]

theorem feed_fault {item : ι} {state : α} (answered : react item state = .fault)
    (items : List ι) : feed react (item :: items) state = .fault := by
  simp only [feed, answered]

/-- A machine that no item breaks is not broken by a list of them. -/
theorem feed_ne_fault (unbroken : ∀ item state, react item state ≠ .fault) (items : List ι)
    (state : α) : feed react items state ≠ .fault := by
  induction items generalizing state with
  | nil => exact nofun
  | cons item items ih =>
      cases answered : react item state with
      | next after =>
          rw [feed_next answered]
          exact ih after
      | exit left =>
          rw [feed_exit answered]
          exact nofun
      | fault => exact absurd answered (unbroken item state)

end Items

section Programs

variable {ι α σ : Type} {step : Nat → σ → Outcome σ} {initial : σ}

/-- At some moment the program is where the machine is: it goes on, has ended or
has broken. -/
def Comes (step : Nat → σ → Outcome σ) (initial : σ) (stands ended : α → σ → Prop) :
    Outcome α → Prop
  | .next state => ∃ moment here, run step initial moment = .next here ∧ stands state here
  | .exit state => ∃ moment left, run step initial moment = .exit left ∧ ended state left
  | .fault => ∃ moment, run step initial moment = .fault

/-- A program that always comes to where the machine is behind the next item comes to
where it is behind all of them. -/
theorem comes_feed {react : ι → α → Outcome α} {suits : ι → α → Prop}
    {stands ended : List ι → α → σ → Prop}
    (follows : ∀ item items state moment here, run step initial moment = .next here →
      stands (item :: items) state here → suits item state →
      Comes step initial (stands items) (ended items) (react item state))
    (items : List ι) :
    ∀ state moment here, run step initial moment = .next here → stands items state here →
      Suited react suits items state →
      Comes step initial (stands [])
        (fun left here => ∃ rest, rest <:+ items ∧ ended rest left here)
        (feed react items state) := by
  induction items with
  | nil =>
      intro state moment here reached held suited
      exact ⟨moment, here, reached, held⟩
  | cons item items ih =>
      intro state moment here reached held suited
      have onward := follows item items state moment here reached held suited.1
      cases answered : react item state with
      | next after =>
          rw [answered] at onward
          obtain ⟨later, there, further, stands⟩ := onward
          have came := ih after later there further stands (suited.2 after answered)
          rw [feed_next answered]
          cases result : feed react items after with
          | next state =>
              rw [result] at came
              exact came
          | exit state =>
              rw [result] at came
              obtain ⟨moment, left, exited, rest, behind, held⟩ := came
              exact ⟨moment, left, exited, rest, behind.trans (List.suffix_cons item items), held⟩
          | fault =>
              rw [result] at came
              exact came
      | exit after =>
          rw [answered] at onward
          obtain ⟨later, left, exited, held⟩ := onward
          rw [feed_exit answered]
          exact ⟨later, left, exited, items, List.suffix_cons item items, held⟩
      | fault =>
          rw [answered] at onward
          rw [feed_fault answered]
          exact onward

end Programs

end Feed

import Mathlib.Data.List.ReduceOption

set_option autoImplicit false

/- Things that are handed out under numbers and given back. No number is handed out
twice, so one that was given back is known for good. -/
namespace Ledger

variable {ρ : Type}

/-- The thing behind a pointer. A gap stands where a thing was given back. -/
def find (places : List (Option ρ)) (pointer : Option Nat) : Option ρ :=
  pointer.bind fun place => places[place]?.join

/-- Change or give back the thing behind a pointer. -/
def put (places : List (Option ρ)) (pointer : Option Nat) (thing : Option ρ) : List (Option ρ) :=
  match pointer with
  | none => places
  | some place => places.set place thing

/-- What has not been given back, in the order in which it was handed out. -/
def held (places : List (Option ρ)) : List ρ := places.reduceOption

variable (places more : List (Option ρ)) (offset : Nat) (thing : Option ρ)

@[simp] theorem find_none : find places none = none := rfl

@[simp] theorem find_append :
    find (places ++ more) (some (places.length + offset)) = more[offset]?.join := by
  simp [find, List.getElem?_append_right]

@[simp] theorem put_append :
    put (places ++ more) (some (places.length + offset)) thing =
      places ++ more.set offset thing := by
  simp [put, List.set_append_right]

@[simp] theorem find_taken : find (places ++ more) (some places.length) = more[0]?.join :=
  find_append places more 0

@[simp] theorem put_taken :
    put (places ++ more) (some places.length) thing = places ++ more.set 0 thing :=
  put_append places more 0 thing

/-- What was found is still found when more is handed out. -/
theorem find_of_find {pointer : Option Nat} {found : ρ} (here : find places pointer = some found) :
    find (places ++ more) pointer = some found := by
  obtain ⟨place, rfl, inside⟩ := Option.bind_eq_some_iff.mp here
  rw [Option.join_eq_some_iff] at inside
  have handed := (List.getElem?_eq_some_iff.mp inside).1
  rw [find, Option.bind_some, List.getElem?_append_left handed, inside, Option.join_some]

theorem held_append : held (places ++ more) = held places ++ held more :=
  List.reduceOption_append places more

end Ledger

import Mathlib.Tactic.Linarith
import Scftp.Lib.Json

set_option autoImplicit false

/- Reading a text with more bytes behind it. What was read stays as it is, unless
it was a number at the end of the text. -/
namespace Json

open CString (Bytes Str isDigit digitsValue readSign readSign_append)

/-- A reader that succeeds reads the same with more bytes behind its input. -/
def Extends {α : Type} (read : Bytes → Option (α × Bytes)) : Prop :=
  ∀ input value rest, read input = some (value, rest) →
    ∀ more, read (input ++ more) = some (value, rest ++ more)

/-- A run that stops inside a text stops there with more bytes behind it. -/
theorem stopped_append {keep : UInt8 → Bool} {input : Bytes} (more : Bytes)
    (stopped : input.dropWhile keep ≠ []) :
    (input ++ more).takeWhile keep = input.takeWhile keep ∧
      (input ++ more).dropWhile keep = input.dropWhile keep ++ more := by
  induction input with
  | nil => exact absurd rfl stopped
  | cons byte input ih =>
      rw [List.cons_append]
      by_cases kept : keep byte = true
      · rw [List.dropWhile_cons_of_pos kept] at stopped
        obtain ⟨taken, left⟩ := ih stopped
        rw [List.takeWhile_cons_of_pos kept, List.takeWhile_cons_of_pos kept, taken,
          List.dropWhile_cons_of_pos kept, List.dropWhile_cons_of_pos kept, left]
        exact ⟨rfl, rfl⟩
      · rw [List.takeWhile_cons_of_neg kept, List.takeWhile_cons_of_neg kept,
          List.dropWhile_cons_of_neg kept, List.dropWhile_cons_of_neg kept]
        exact ⟨rfl, rfl⟩

theorem skipSpace_append {input : Bytes} (more : Bytes) (stopped : skipSpace input ≠ []) :
    skipSpace (input ++ more) = skipSpace input ++ more :=
  (stopped_append more stopped).2

/- Strings. -/

theorem readHex_extends : Extends readHex := by
  intro input code rest read more
  unfold readHex at read
  split at read
  · rename_i first second third fourth others
    simp only [Option.bind_eq_bind, Option.bind_eq_some_iff, Option.pure_def, Option.some.injEq,
      Prod.mk.injEq] at read
    obtain ⟨one, first, two, second, three, third, four, fourth, value, rfl⟩ := read
    simp only [List.cons_append, readHex, first, second, third, fourth, Option.bind_eq_bind,
      Option.bind_some, Option.pure_def, value]
  · cases read

theorem readUnicode_extends : Extends readUnicode := by
  intro input text rest read more
  simp only [readUnicode, Option.bind_eq_bind, Option.bind_eq_some_iff] at read
  obtain ⟨⟨code, others⟩, hex, read⟩ := read
  simp only [readUnicode, readHex_extends input code others hex more, Option.bind_eq_bind,
    Option.bind_some]
  dsimp only at read
  split at read
  · cases read
  · rename_i notLow
    rw [if_neg notLow]
    split at read
    · rename_i high
      rw [if_pos high]
      split at read
      · rename_i backslash letter tail
        split at read
        · rename_i escaped
          obtain ⟨⟨low, last⟩, lower, read⟩ := Option.bind_eq_some_iff.mp read
          have extended := readHex_extends tail low last lower more
          simp only [List.cons_append, escaped, and_self, ↓reduceIte, extended, Option.bind_some]
          dsimp only at read
          split at read
          · rename_i inside
            cases read
            rw [if_pos inside]
          · cases read
        · cases read
      · cases read
    · rename_i plain
      cases read
      rw [if_neg plain]

theorem readEscape_extends : Extends readEscape := by
  intro input text rest read more
  cases input with
  | nil => cases read
  | cons letter others =>
      rw [List.cons_append]
      unfold readEscape at read ⊢
      have unicode := readUnicode_extends others text rest
      repeat' split at read
      all_goals simp_all

/-- A string that is closed is read the same with more bytes and more fuel. -/
theorem readCharacters_extends (fuel : Nat) (input text rest : Bytes)
    (read : readCharacters fuel input = some (text, rest)) (more : Bytes) (larger : Nat)
    (enough : fuel ≤ larger) :
    readCharacters larger (input ++ more) = some (text, rest ++ more) := by
  induction fuel generalizing input text larger with
  | zero => cases read
  | succ fuel ih =>
      obtain ⟨larger, rfl⟩ : ∃ less, larger = less + 1 := ⟨larger - 1, by omega⟩
      cases input with
      | nil => cases read
      | cons byte others =>
          rw [List.cons_append]
          rw [readCharacters] at read ⊢
          split at read
          · rename_i quote
            cases read
            rw [if_pos quote]
          · rename_i quote
            rw [if_neg quote]
            have go (piece behind : Bytes)
                (read : (readCharacters fuel behind).bind (fun next =>
                  some (piece ++ next.1, next.2)) = some (text, rest)) :
                (readCharacters larger (behind ++ more)).bind (fun next =>
                  some (piece ++ next.1, next.2)) = some (text, rest ++ more) := by
              obtain ⟨⟨later, last⟩, next, whole⟩ := Option.bind_eq_some_iff.mp read
              cases whole
              rw [ih behind later next larger (by omega), Option.bind_some]
            split at read
            · rename_i backslash
              obtain ⟨⟨piece, behind⟩, first, read⟩ := Option.bind_eq_some_iff.mp read
              rw [if_pos backslash, readEscape_extends others piece behind first more]
              exact go piece behind read
            · rename_i backslash
              rw [if_neg backslash]
              exact go [byte] others read

theorem readString_extends : Extends readString := by
  intro input text rest read more
  cases input with
  | nil => cases read
  | cons byte others =>
      rw [List.cons_append]
      rw [readString] at read ⊢
      split at read
      · rename_i quote
        rw [if_pos quote]
        apply readCharacters_extends _ _ _ _ read
        rw [List.length_append]
        omega
      · cases read

/- Numbers. -/

/-- The fraction of a number may go on behind the text. -/
def openFraction : Bytes → Bool
  | [] => true
  | byte :: rest => byte = 46 && (rest.dropWhile isDigit).isEmpty

/-- The exponent of a number may go on behind the text. -/
def openExponent : Bytes → Bool
  | [] => true
  | byte :: rest =>
      (byte = 101 || byte = 69) && ((readSign rest).2.dropWhile isDigit).isEmpty

/-- A number without its sign that bytes behind the text can change. No exponent
changes a zero. -/
def openMagnitude (input : Bytes) : Bool :=
  let whole := input.takeWhile isDigit
  let (fraction, rest) := readFraction (input.dropWhile isDigit)
  whole ≠ [] && (openFraction (input.dropWhile isDigit) ||
    digitsValue (whole ++ fraction) ≠ 0 && openExponent rest)

/-- A number that bytes behind the text can change. -/
def openNumber : Bytes → Bool
  | [] => false
  | byte :: rest => if byte = 45 then openMagnitude rest else openMagnitude (byte :: rest)

theorem openFraction_ne_nil {input : Bytes} (closed : openFraction input = false) :
    input ≠ [] := by
  intro ended
  rw [ended] at closed
  cases closed

theorem readFraction_append {input : Bytes} (more : Bytes) (closed : openFraction input = false) :
    readFraction (input ++ more) = ((readFraction input).1, (readFraction input).2 ++ more) ∧
      (readFraction input).2 ≠ [] := by
  cases input with
  | nil => cases closed
  | cons byte rest =>
      rw [List.cons_append, readFraction, readFraction]
      by_cases point : byte = 46
      · have stopped : rest.dropWhile isDigit ≠ [] := by
          intro ended
          simp [openFraction, point, ended] at closed
        obtain ⟨taken, left⟩ := stopped_append more stopped
        rw [taken, left]
        split
        · exact ⟨rfl, stopped⟩
        · exact ⟨rfl, List.cons_ne_nil _ _⟩
      · simp [point]

theorem readExponent_append {input : Bytes} (more : Bytes) (closed : openExponent input = false) :
    readExponent (input ++ more) = ((readExponent input).1, (readExponent input).2 ++ more) := by
  cases input with
  | nil => cases closed
  | cons byte rest =>
      rw [List.cons_append, readExponent, readExponent]
      by_cases letter : byte = 101 ∨ byte = 69
      · have stopped : (readSign rest).2.dropWhile isDigit ≠ [] := by
          intro ended
          rcases letter with same | same <;> simp [openExponent, same, ended] at closed
        have begun : rest ≠ [] := by
          intro ended
          rw [ended] at stopped
          exact stopped rfl
        have sign := readSign_append begun more
        obtain ⟨taken, left⟩ := stopped_append more stopped
        simp only [sign, taken, left]
        split <;> rfl
      · simp [letter]

/-- A number that goes on neither in its fraction nor in its exponent. -/
theorem readMagnitude_append (input more : Bytes)
    (fraction : openFraction (input.dropWhile isDigit) = false)
    (exponent : openExponent (readFraction (input.dropWhile isDigit)).2 = false) :
    readMagnitude (input ++ more) =
      (readMagnitude input).map fun read => (read.1, read.2 ++ more) := by
  have stopped := openFraction_ne_nil fraction
  obtain ⟨taken, left⟩ := stopped_append more stopped
  rw [readMagnitude, readMagnitude]
  simp only [taken, left, (readFraction_append more fraction).1, readExponent_append more exponent]
  split <;> rfl

/-- A number that bytes behind the text cannot change is the same with them. -/
theorem readMagnitude_closed {input rest : Bytes} {value : ℚ}
    (read : readMagnitude input = some (value, rest)) (closed : openMagnitude input = false)
    (more : Bytes) : ∃ left, readMagnitude (input ++ more) = some (value, left) := by
  have begun : input.takeWhile isDigit ≠ [] := by
    intro none
    simp [readMagnitude, none] at read
  simp only [openMagnitude, Bool.and_eq_false_iff, Bool.or_eq_false_iff, decide_eq_false_iff_not,
    ne_eq, not_not, begun, false_or] at closed
  obtain ⟨fraction, zero | exponent⟩ := closed
  · have stopped := openFraction_ne_nil fraction
    obtain ⟨taken, left⟩ := stopped_append more stopped
    simp only [readMagnitude, begun, ↓reduceIte, zero, Nat.cast_zero, zero_mul, Option.some.injEq,
      Prod.mk.injEq] at read
    simp only [readMagnitude, taken, left, (readFraction_append more fraction).1, begun, ↓reduceIte,
      zero, Nat.cast_zero, zero_mul, ← read.1]
    exact ⟨_, rfl⟩
  · rw [readMagnitude_append input more fraction exponent, read]
    exact ⟨_, rfl⟩

/-- A number that something else stands behind is the same with more bytes. -/
theorem readMagnitude_delimited {input rest : Bytes} {value : ℚ}
    (read : readMagnitude input = some (value, rest)) (nonempty : rest ≠ [])
    (delimited : Delimited rest) (more : Bytes) :
    readMagnitude (input ++ more) = some (value, rest ++ more) := by
  have left : rest = (readExponent (readFraction (input.dropWhile isDigit)).2).2 := by
    rw [readMagnitude] at read
    split at read
    · cases read
    · cases read
      rfl
  have fraction : openFraction (input.dropWhile isDigit) = false := by
    cases point : input.dropWhile isDigit with
    | nil =>
        rw [point] at left
        exact absurd left nonempty
    | cons byte others =>
        by_contra opened
        simp only [openFraction, Bool.not_eq_false, Bool.and_eq_true, decide_eq_true_eq,
          List.isEmpty_iff] at opened
        rw [point, readFraction] at left
        split at left
        · rw [opened.2] at left
          exact nonempty left
        · obtain ⟨_, point, _⟩ := delimited byte others (by
            rw [left, opened.1]
            simp [readExponent])
          exact point opened.1
  have exponent : openExponent (readFraction (input.dropWhile isDigit)).2 = false := by
    cases letter : (readFraction (input.dropWhile isDigit)).2 with
    | nil =>
        rw [letter] at left
        exact absurd left nonempty
    | cons byte others =>
        by_contra opened
        simp only [openExponent, Bool.not_eq_false, Bool.and_eq_true, Bool.or_eq_true,
          decide_eq_true_eq, List.isEmpty_iff] at opened
        rw [letter, readExponent] at left
        simp only at left
        split at left
        · rw [opened.2] at left
          exact nonempty left
        · obtain ⟨_, _, small, capital⟩ := delimited byte others left
          exact opened.1.elim small capital
  rw [readMagnitude_append input more fraction exponent, read, Option.map_some]

theorem digitsValue_one (digits : Bytes) :
    digitsValue (digits ++ [49]) = 10 * digitsValue digits + 1 := by
  rw [digitsValue, List.foldl_append]
  rfl

theorem dropWhile_one {digits : Bytes} (all : digits.dropWhile isDigit = []) :
    digits.takeWhile isDigit = digits ∧ (digits ++ [49]).takeWhile isDigit = digits ++ [49] ∧
      (digits ++ [49]).dropWhile isDigit = [] := by
  rw [List.dropWhile_eq_nil_iff] at all
  have one : isDigit 49 = true := by decide
  have every : ∀ byte ∈ digits ++ [49], isDigit byte = true := by
    intro byte member
    rcases List.mem_append.mp member with inside | last
    · exact all byte inside
    · rw [List.mem_singleton.mp last, one]
  exact ⟨List.takeWhile_eq_self_iff.mpr all, List.takeWhile_eq_self_iff.mpr every,
    List.dropWhile_eq_nil_iff.mpr every⟩

theorem readFraction_one {digits : Bytes} (all : digits.dropWhile isDigit = []) :
    (readFraction (46 :: digits)).1 = digits ∧
      (readExponent (readFraction (46 :: digits)).2).1 = 0 ∧
      readFraction (46 :: (digits ++ [49])) = (digits ++ [49], []) := by
  obtain ⟨whole, taken, left⟩ := dropWhile_one all
  refine ⟨?_, ?_, ?_⟩
  · rw [readFraction, whole]
    split
    · rfl
    · rename_i none
      simpa using Eq.symm (not_not.mp fun some => none ⟨rfl, some⟩)
  · rw [readFraction, whole, all]
    split
    · rfl
    · simp [readExponent]
  · rw [readFraction, taken, left, if_pos ⟨rfl, by simp⟩]

theorem readExponent_one {input : Bytes} (begun : input ≠ []) (opened : openExponent input = true) :
    (readExponent (input ++ [49])).1 ≠ (readExponent input).1 := by
  obtain ⟨byte, rest, rfl⟩ := List.exists_cons_of_ne_nil begun
  simp only [openExponent, Bool.and_eq_true, Bool.or_eq_true, decide_eq_true_eq,
    List.isEmpty_iff] at opened
  obtain ⟨letter, all⟩ := opened
  have sign : readSign (rest ++ [49]) = ((readSign rest).1, (readSign rest).2 ++ [49]) := by
    by_cases begun : rest = []
    · rw [begun]
      rfl
    · exact readSign_append begun [49]
  obtain ⟨whole, taken, _⟩ := dropWhile_one all
  have before : (readExponent (byte :: rest)).1 = if (readSign rest).1 then
      -(digitsValue (readSign rest).2 : Int) else digitsValue (readSign rest).2 := by
    simp only [readExponent, whole, letter, true_and]
    split
    · rfl
    · rename_i none
      rw [not_not.mp none]
      simp [digitsValue]
  have after : (readExponent (byte :: rest ++ [49])).1 = if (readSign rest).1 then
      -((10 * digitsValue (readSign rest).2 + 1 : Nat) : Int)
      else ((10 * digitsValue (readSign rest).2 + 1 : Nat) : Int) := by
    simp only [List.cons_append, readExponent, sign, taken, letter, digitsValue_one]
    simp
  rw [before, after]
  split <;> omega

theorem readMagnitude_eq {input : Bytes} (begun : input.takeWhile isDigit ≠ []) :
    readMagnitude input = some (
      digitsValue (input.takeWhile isDigit ++ (readFraction (input.dropWhile isDigit)).1) *
        (10 : ℚ) ^ ((readExponent (readFraction (input.dropWhile isDigit)).2).1 -
          (readFraction (input.dropWhile isDigit)).1.length),
      (readExponent (readFraction (input.dropWhile isDigit)).2).2) := by
  rw [readMagnitude]
  simp only [begun, ↓reduceIte]

theorem whole_changes {input : Bytes} (all : input.dropWhile isDigit = []) :
    ∃ other left, readMagnitude (input ++ [49]) = some (other, left) ∧
      other ≠ (digitsValue (input.takeWhile isDigit) : ℚ) := by
  obtain ⟨whole, taken, left⟩ := dropWhile_one all
  have nonempty : (input ++ [49]).takeWhile isDigit ≠ [] := by
    rw [taken]
    exact List.append_ne_nil_of_right_ne_nil _ (List.cons_ne_nil 49 [])
  refine ⟨_, _, readMagnitude_eq nonempty, ?_⟩
  rw [left, taken, whole]
  simp only [readFraction, readExponent, List.append_nil, List.length_nil, Nat.cast_zero,
    sub_self, zpow_zero, mul_one, digitsValue_one]
  norm_cast
  omega

theorem fraction_changes {input digits : Bytes} (begun : input.takeWhile isDigit ≠ [])
    (point : input.dropWhile isDigit = 46 :: digits) (all : digits.dropWhile isDigit = []) :
    ∃ other left, readMagnitude (input ++ [49]) = some (other, left) ∧
      other ≠ digitsValue (input.takeWhile isDigit ++ digits) *
        (10 : ℚ) ^ (0 - (digits.length : Int)) := by
  have stopped : input.dropWhile isDigit ≠ [] := by simp [point]
  obtain ⟨taken, left⟩ := stopped_append [49] stopped
  obtain ⟨_, _, behind⟩ := readFraction_one all
  have nonempty : (input ++ [49]).takeWhile isDigit ≠ [] := by rwa [taken]
  refine ⟨_, _, readMagnitude_eq nonempty, ?_⟩
  rw [left, taken, point, List.cons_append, behind]
  have ten : (10 : ℚ) ≠ 0 := by norm_num
  have unit : (10 : ℚ) ^ (0 - (digits.length : Int)) =
      10 * 10 ^ (0 - ((digits.length : Int) + 1)) := by
    rw [← zpow_one_add₀ ten]
    congr 1
    omega
  simp only [readExponent, List.length_append, List.length_singleton, Nat.cast_add, Nat.cast_one,
    ← List.append_assoc, digitsValue_one, unit]
  have small : (10 : ℚ) ^ (0 - ((digits.length : Int) + 1)) ≠ 0 := zpow_ne_zero _ ten
  intro same
  rw [← mul_assoc] at same
  have equal := mul_right_cancel₀ small same
  push_cast at equal
  linarith

theorem exponent_changes {input : Bytes} (begun : input.takeWhile isDigit ≠ [])
    (fraction : openFraction (input.dropWhile isDigit) = false)
    (exponent : openExponent (readFraction (input.dropWhile isDigit)).2 = true)
    (nonzero : digitsValue
      (input.takeWhile isDigit ++ (readFraction (input.dropWhile isDigit)).1) ≠ 0) :
    ∃ other left, readMagnitude (input ++ [49]) = some (other, left) ∧
      other ≠ digitsValue
          (input.takeWhile isDigit ++ (readFraction (input.dropWhile isDigit)).1) *
        (10 : ℚ) ^ ((readExponent (readFraction (input.dropWhile isDigit)).2).1 -
          (readFraction (input.dropWhile isDigit)).1.length) := by
  have stopped := openFraction_ne_nil fraction
  obtain ⟨taken, left⟩ := stopped_append [49] stopped
  obtain ⟨extended, behind⟩ := readFraction_append [49] fraction
  have nonempty : (input ++ [49]).takeWhile isDigit ≠ [] := by rwa [taken]
  refine ⟨_, _, readMagnitude_eq nonempty, ?_⟩
  rw [left, taken, extended]
  have moved := readExponent_one behind exponent
  intro same
  have digits : ((digitsValue (input.takeWhile isDigit ++
      (readFraction (input.dropWhile isDigit)).1) : Nat) : ℚ) ≠ 0 := Nat.cast_ne_zero.mpr nonzero
  have powers := zpow_right_injective₀ (by norm_num : (0 : ℚ) < 10) (by norm_num)
    (mul_left_cancel₀ digits same)
  dsimp only at powers
  omega

/-- The digit 1 behind a number that can go on changes it. -/
theorem openMagnitude_changes {input rest : Bytes} {value : ℚ}
    (read : readMagnitude input = some (value, rest)) (opened : openMagnitude input = true) :
    ∃ other left, readMagnitude (input ++ [49]) = some (other, left) ∧ other ≠ value := by
  have begun : input.takeWhile isDigit ≠ [] := by
    intro none
    simp [readMagnitude, none] at read
  rw [readMagnitude_eq begun] at read
  simp only [Option.some.injEq, Prod.mk.injEq] at read
  obtain ⟨rfl, _⟩ := read
  simp only [openMagnitude, begun, ne_eq, not_false_eq_true, decide_true, Bool.true_and,
    Bool.or_eq_true, Bool.and_eq_true, decide_eq_true_eq] at opened
  cases fraction : openFraction (input.dropWhile isDigit) with
  | true =>
      cases point : input.dropWhile isDigit with
      | nil =>
          have changed := whole_changes point
          simpa [readFraction, readExponent] using changed
      | cons byte digits =>
          simp only [point, openFraction, Bool.and_eq_true, decide_eq_true_eq,
            List.isEmpty_iff] at fraction
          obtain ⟨rfl, all⟩ := fraction
          obtain ⟨whole, none, _⟩ := readFraction_one all
          rw [whole, none]
          exact fraction_changes begun point all
  | false =>
      obtain ⟨nonzero, exponent⟩ := opened.resolve_left (by simp [fraction])
      exact exponent_changes begun fraction exponent nonzero

theorem readNumber_closed {input rest : Bytes} {value : ℚ}
    (read : readNumber input = some (value, rest)) (closed : openNumber input = false)
    (more : Bytes) : ∃ left, readNumber (input ++ more) = some (value, left) := by
  cases input with
  | nil => cases read
  | cons byte others =>
      rw [List.cons_append]
      rw [readNumber] at read ⊢
      rw [openNumber] at closed
      by_cases minus : byte = 45
      · rw [if_pos minus] at read closed ⊢
        obtain ⟨⟨magnitude, last⟩, found, same⟩ := Option.map_eq_some_iff.mp read
        cases same
        obtain ⟨left, again⟩ := readMagnitude_closed found closed more
        exact ⟨left, by rw [again, Option.map_some]⟩
      · rw [if_neg minus] at read closed ⊢
        exact readMagnitude_closed read closed more

theorem readNumber_delimited {input rest : Bytes} {value : ℚ}
    (read : readNumber input = some (value, rest)) (nonempty : rest ≠ [])
    (delimited : Delimited rest) (more : Bytes) :
    readNumber (input ++ more) = some (value, rest ++ more) := by
  cases input with
  | nil => cases read
  | cons byte others =>
      rw [List.cons_append]
      rw [readNumber] at read ⊢
      by_cases minus : byte = 45
      · rw [if_pos minus] at read ⊢
        obtain ⟨⟨magnitude, last⟩, found, same⟩ := Option.map_eq_some_iff.mp read
        cases same
        rw [readMagnitude_delimited found nonempty delimited more, Option.map_some]
      · rw [if_neg minus] at read ⊢
        exact readMagnitude_delimited read nonempty delimited more

theorem openNumber_changes {input rest : Bytes} {value : ℚ}
    (read : readNumber input = some (value, rest)) (opened : openNumber input = true) :
    ∃ other left, readNumber (input ++ [49]) = some (other, left) ∧ other ≠ value := by
  cases input with
  | nil => cases read
  | cons byte others =>
      rw [List.cons_append]
      rw [readNumber] at read ⊢
      rw [openNumber] at opened
      by_cases minus : byte = 45
      · rw [if_pos minus] at read opened ⊢
        obtain ⟨⟨magnitude, last⟩, found, same⟩ := Option.map_eq_some_iff.mp read
        cases same
        obtain ⟨other, left, again, changed⟩ := openMagnitude_changes found opened
        exact ⟨-other, left, by rw [again, Option.map_some], by simpa using changed⟩
      · rw [if_neg minus] at read opened ⊢
        exact openMagnitude_changes read opened

/- Values. -/

/-- Something stands behind a value that does not go on with it. Only a number
needs this. -/
def Stops (rest : Bytes) : Json → Prop
  | .number _ => rest ≠ [] ∧ Delimited rest
  | _ => True

/-- A bracket, a brace or a comma stops every value, spaces before it or not. -/
theorem stops_of_skipSpace {rest others : Bytes} {byte : UInt8}
    (closer : byte = 93 ∨ byte = 125 ∨ byte = 44) (behind : skipSpace rest = byte :: others)
    (json : Json) : json.Stops rest := by
  cases json with
  | number value =>
      cases rest with
      | nil => cases behind
      | cons next tail =>
          refine ⟨List.cons_ne_nil next tail, ?_⟩
          rintro _ _ ⟨rfl, rfl⟩
          by_cases space : next ≤ 32
          · refine ⟨?_, ?_, ?_, ?_⟩
            · by_contra digit
              simp only [isDigit, Bool.not_eq_false, Bool.and_eq_true, decide_eq_true_eq,
                UInt8.le_iff_toNat_le] at digit space
              have low : (48 : UInt8).toNat = 48 := rfl
              have high : (32 : UInt8).toNat = 32 := rfl
              omega
            all_goals
              rintro rfl
              exact absurd space (by decide)
          · have same : next = byte := by
              rw [skipSpace, List.dropWhile_cons_of_neg (by simpa using space)] at behind
              exact (List.cons.inj behind).1
            rw [same]
            rcases closer with rfl | rfl | rfl <;> decide
  | _ => trivial

/-- With a certain fuel, what is read is read the same with more bytes behind the
text and more fuel. -/
structure Extending (fuel : Nat) : Prop where
  value : ∀ input json rest, readValue fuel input = some (json, rest) → json.Stops rest →
    ∀ more larger, fuel ≤ larger → readValue larger (input ++ more) = some (json, rest ++ more)
  items : ∀ input items rest, readItems fuel input = some (items, rest) →
    ∀ more larger, fuel ≤ larger → readItems larger (input ++ more) = some (items, rest ++ more)
  members : ∀ input members rest, readMembers fuel input = some (members, rest) →
    ∀ more larger, fuel ≤ larger →
      readMembers larger (input ++ more) = some (members, rest ++ more)

theorem readWord_extends (word : Bytes) (value : Json) : Extends (readWord word value) := by
  intro input json rest read more
  unfold readWord at read ⊢
  split at read
  · rename_i starts
    cases read
    obtain ⟨behind, rfl⟩ := List.isPrefixOf_iff_prefix.mp starts
    have longer : word.isPrefixOf (word ++ behind ++ more) = true := by
      rw [List.isPrefixOf_iff_prefix, List.append_assoc]
      exact List.prefix_append word _
    rw [if_pos longer, List.append_assoc, List.drop_left, List.drop_left]
  · cases read

theorem readKey_append {input rest : Bytes} {key : Str} (read : readKey input = some (key, rest))
    (nonempty : rest ≠ []) (more : Bytes) : readKey (input ++ more) = some (key, rest ++ more) := by
  simp only [readKey, Option.bind_eq_bind, Option.bind_eq_some_iff] at read ⊢
  obtain ⟨⟨text, behind⟩, quoted, read⟩ := read
  refine ⟨(text, behind ++ more), readString_extends input text behind quoted more, ?_⟩
  dsimp only at read ⊢
  split at read
  · cases read
  · rename_i byte others colon
    rw [skipSpace_append more (by simp [colon]), colon, List.cons_append]
    dsimp only
    split at read
    · rename_i same
      cases read
      rw [if_pos same, skipSpace_append more nonempty]
    · cases read

theorem readValue_nonempty {fuel : Nat} {input rest : Bytes} {json : Json}
    (read : readValue fuel input = some (json, rest)) : input ≠ [] := by
  rintro rfl
  cases fuel <;> cases read

/-- An item or a member is read only where its container goes on or ends. -/
theorem readItems_head {fuel : Nat} {input rest : Bytes} {items : List Json}
    (read : readItems fuel input = some (items, rest)) :
    ∃ byte others, input = byte :: others ∧ (byte = 93 ∨ byte = 125 ∨ byte = 44) := by
  cases fuel with
  | zero => cases read
  | succ fuel =>
      cases input with
      | nil => cases read
      | cons byte others =>
          refine ⟨byte, others, rfl, ?_⟩
          rw [readItems] at read
          split at read
          · exact Or.inl (by assumption)
          · split at read
            · exact Or.inr (Or.inr (by assumption))
            · cases read

theorem readMembers_head {fuel : Nat} {input rest : Bytes} {members : List (Str × Json)}
    (read : readMembers fuel input = some (members, rest)) :
    ∃ byte others, input = byte :: others ∧ (byte = 93 ∨ byte = 125 ∨ byte = 44) := by
  cases fuel with
  | zero => cases read
  | succ fuel =>
      cases input with
      | nil => cases read
      | cons byte others =>
          refine ⟨byte, others, rfl, ?_⟩
          rw [readMembers] at read
          split at read
          · exact Or.inr (Or.inl (by assumption))
          · split at read
            · exact Or.inr (Or.inr (by assumption))
            · cases read

/-- An item and the items behind it, and what is made of them. -/
theorem item_extends {α : Type} (make : List Json → α) {fuel : Nat} (extending : Extending fuel)
    {input rest : Bytes} {made : α}
    (read : ((readValue fuel input).bind fun item =>
      (readItems fuel (skipSpace item.2)).bind fun items =>
        some (make (item.1 :: items.1), items.2)) = some (made, rest))
    (more : Bytes) (larger : Nat) (enough : fuel ≤ larger) :
    ((readValue larger (input ++ more)).bind fun item =>
      (readItems larger (skipSpace item.2)).bind fun items =>
        some (make (item.1 :: items.1), items.2)) = some (made, rest ++ more) := by
  obtain ⟨⟨item, behind⟩, first, read⟩ := Option.bind_eq_some_iff.mp read
  obtain ⟨⟨others, last⟩, second, same⟩ := Option.bind_eq_some_iff.mp read
  cases same
  obtain ⟨byte, tail, head, closer⟩ := readItems_head second
  have stops := stops_of_skipSpace closer head item
  rw [extending.value input item behind first stops more larger enough, Option.bind_some,
    skipSpace_append more (by simp [head]),
    extending.items _ others last second more larger enough, Option.bind_some]

/-- A member and the members behind it, and what is made of them. -/
theorem member_extends {α : Type} (make : List (Str × Json) → α) {fuel : Nat}
    (extending : Extending fuel) {input rest : Bytes} {made : α}
    (read : ((readKey input).bind fun key => (readValue fuel key.2).bind fun value =>
      (readMembers fuel (skipSpace value.2)).bind fun members =>
        some (make ((key.1, value.1) :: members.1), members.2)) = some (made, rest))
    (more : Bytes) (larger : Nat) (enough : fuel ≤ larger) :
    ((readKey (input ++ more)).bind fun key => (readValue larger key.2).bind fun value =>
      (readMembers larger (skipSpace value.2)).bind fun members =>
        some (make ((key.1, value.1) :: members.1), members.2)) = some (made, rest ++ more) := by
  obtain ⟨⟨key, named⟩, zeroth, read⟩ := Option.bind_eq_some_iff.mp read
  obtain ⟨⟨value, behind⟩, first, read⟩ := Option.bind_eq_some_iff.mp read
  obtain ⟨⟨others, last⟩, second, same⟩ := Option.bind_eq_some_iff.mp read
  cases same
  obtain ⟨byte, tail, head, closer⟩ := readMembers_head second
  have stops := stops_of_skipSpace closer head value
  rw [readKey_append zeroth (readValue_nonempty first) more, Option.bind_some,
    extending.value named value behind first stops more larger enough, Option.bind_some,
    skipSpace_append more (by simp [head]),
    extending.members _ others last second more larger enough, Option.bind_some]

theorem extending_zero : Extending 0 :=
  ⟨fun _ _ _ read => (by cases read), fun _ _ _ read => (by cases read),
    fun _ _ _ read => (by cases read)⟩

theorem items_extending {fuel : Nat} (extending : Extending fuel) (input : Bytes)
    (items : List Json) (rest : Bytes) (read : readItems (fuel + 1) input = some (items, rest))
    (more : Bytes) (larger : Nat) (enough : fuel + 1 ≤ larger) :
    readItems larger (input ++ more) = some (items, rest ++ more) := by
  obtain ⟨larger, rfl⟩ : ∃ less, larger = less + 1 := ⟨larger - 1, by omega⟩
  cases input with
  | nil => cases read
  | cons byte others =>
      rw [List.cons_append]
      rw [readItems] at read ⊢
      split at read
      · rename_i closed
        cases read
        rw [if_pos closed]
      · rename_i goes
        rw [if_neg goes]
        split at read
        · rename_i comma
          have nonempty : skipSpace others ≠ [] := by
            obtain ⟨_, first, _⟩ := Option.bind_eq_some_iff.mp read
            exact readValue_nonempty first
          rw [if_pos comma, skipSpace_append more nonempty]
          exact item_extends id extending read more larger (by omega)
        · cases read

theorem members_extending {fuel : Nat} (extending : Extending fuel) (input : Bytes)
    (members : List (Str × Json)) (rest : Bytes)
    (read : readMembers (fuel + 1) input = some (members, rest)) (more : Bytes) (larger : Nat)
    (enough : fuel + 1 ≤ larger) :
    readMembers larger (input ++ more) = some (members, rest ++ more) := by
  obtain ⟨larger, rfl⟩ : ∃ less, larger = less + 1 := ⟨larger - 1, by omega⟩
  cases input with
  | nil => cases read
  | cons byte others =>
      rw [List.cons_append]
      rw [readMembers] at read ⊢
      split at read
      · rename_i closed
        cases read
        rw [if_pos closed]
      · rename_i goes
        rw [if_neg goes]
        split at read
        · rename_i comma
          have nonempty : skipSpace others ≠ [] := by
            intro ended
            rw [ended] at read
            cases read
          rw [if_pos comma, skipSpace_append more nonempty]
          exact member_extends id extending read more larger (by omega)
        · cases read

theorem value_extending {fuel : Nat} (extending : Extending fuel) (input : Bytes) (json : Json)
    (rest : Bytes) (read : readValue (fuel + 1) input = some (json, rest))
    (stops : json.Stops rest) (more : Bytes) (larger : Nat) (enough : fuel + 1 ≤ larger) :
    readValue larger (input ++ more) = some (json, rest ++ more) := by
  obtain ⟨larger, rfl⟩ : ∃ less, larger = less + 1 := ⟨larger - 1, by omega⟩
  cases input with
  | nil => cases read
  | cons byte others =>
      rw [List.cons_append]
      rw [readValue] at read ⊢
      by_cases quote : byte = 34
      · rw [if_pos quote] at read ⊢
        obtain ⟨⟨text, last⟩, quoted, same⟩ := Option.map_eq_some_iff.mp read
        cases same
        have extended := readString_extends (byte :: others) text last quoted more
        rw [List.cons_append] at extended
        rw [extended, Option.map_some]
      rw [if_neg quote] at read ⊢
      by_cases bracket : byte = 91
      · rw [if_pos bracket] at read ⊢
        cases opened : skipSpace others with
        | nil =>
            rw [opened] at read
            cases read
        | cons next tail =>
            rw [skipSpace_append more (by simp [opened])]
            rw [opened] at read ⊢
            rw [List.cons_append]
            dsimp only at read ⊢
            by_cases closed : next = 93
            · rw [if_pos closed] at read ⊢
              cases read
              rfl
            · rw [if_neg closed] at read ⊢
              exact item_extends Json.array extending read more larger (by omega)
      rw [if_neg bracket] at read ⊢
      by_cases brace : byte = 123
      · rw [if_pos brace] at read ⊢
        cases opened : skipSpace others with
        | nil =>
            rw [opened] at read
            cases read
        | cons next tail =>
            rw [skipSpace_append more (by simp [opened])]
            rw [opened] at read ⊢
            rw [List.cons_append]
            dsimp only at read ⊢
            by_cases closed : next = 125
            · rw [if_pos closed] at read ⊢
              cases read
              rfl
            · rw [if_neg closed] at read ⊢
              exact member_extends Json.object extending read more larger (by omega)
      rw [if_neg brace, ← List.cons_append]
      rw [if_neg brace] at read
      by_cases null : byte = 110
      · rw [if_pos null] at read ⊢
        exact readWord_extends _ _ _ _ _ read more
      rw [if_neg null] at read ⊢
      by_cases true : byte = 116
      · rw [if_pos true] at read ⊢
        exact readWord_extends _ _ _ _ _ read more
      rw [if_neg true] at read ⊢
      by_cases false : byte = 102
      · rw [if_pos false] at read ⊢
        exact readWord_extends _ _ _ _ _ read more
      rw [if_neg false] at read ⊢
      obtain ⟨⟨value, last⟩, found, same⟩ := Option.map_eq_some_iff.mp read
      cases same
      rw [readNumber_delimited found stops.1 stops.2 more, Option.map_some]

theorem extending (fuel : Nat) : Extending fuel := by
  induction fuel with
  | zero => exact extending_zero
  | succ fuel ih => exact ⟨value_extending ih, items_extending ih, members_extending ih⟩

/- The first value of a text. -/

/-- A number begins with a sign or a digit. -/
theorem readNumber_head {input rest : Bytes} {value : ℚ}
    (read : readNumber input = some (value, rest)) :
    ∃ byte others, input = byte :: others ∧ (byte = 45 ∨ isDigit byte = true) := by
  cases input with
  | nil => cases read
  | cons byte others =>
      refine ⟨byte, others, rfl, ?_⟩
      by_contra head
      rw [not_or] at head
      simp [readNumber, readMagnitude, head.1, head.2] at read

theorem readWord_value {word input rest : Bytes} {value json : Json}
    (read : readWord word value input = some (json, rest)) : json = value := by
  unfold readWord at read
  split at read
  · cases read
    rfl
  · cases read

theorem openNumber_head {input : Bytes} (opened : openNumber input = true) :
    ∃ byte others, input = byte :: others ∧ (byte = 45 ∨ isDigit byte = true) := by
  cases input with
  | nil => cases opened
  | cons byte others =>
      refine ⟨byte, others, rfl, ?_⟩
      by_contra head
      rw [not_or] at head
      simp [openNumber, openMagnitude, head.1, head.2] at opened

theorem readValue_eq_number {fuel : Nat} {input rest : Bytes} {value : ℚ} :
    readValue (fuel + 1) input = some (.number value, rest) ↔
      readNumber input = some (value, rest) := by
  constructor
  · intro read
    cases input with
    | nil => cases read
    | cons byte others =>
        rw [readValue] at read
        by_cases quote : byte = 34
        · rw [if_pos quote] at read
          obtain ⟨_, _, same⟩ := Option.map_eq_some_iff.mp read
          cases same
        rw [if_neg quote] at read
        by_cases bracket : byte = 91
        · rw [if_pos bracket] at read
          split at read
          · cases read
          · split at read
            · cases read
            · obtain ⟨_, _, read⟩ := Option.bind_eq_some_iff.mp read
              obtain ⟨_, _, same⟩ := Option.bind_eq_some_iff.mp read
              cases same
        rw [if_neg bracket] at read
        by_cases brace : byte = 123
        · rw [if_pos brace] at read
          split at read
          · cases read
          · split at read
            · cases read
            · obtain ⟨_, _, read⟩ := Option.bind_eq_some_iff.mp read
              obtain ⟨_, _, read⟩ := Option.bind_eq_some_iff.mp read
              obtain ⟨_, _, same⟩ := Option.bind_eq_some_iff.mp read
              cases same
        rw [if_neg brace] at read
        by_cases null : byte = 110
        · rw [if_pos null] at read
          cases readWord_value read
        rw [if_neg null] at read
        by_cases true : byte = 116
        · rw [if_pos true] at read
          cases readWord_value read
        rw [if_neg true] at read
        by_cases false : byte = 102
        · rw [if_pos false] at read
          cases readWord_value read
        rw [if_neg false] at read
        obtain ⟨⟨number, left⟩, found, same⟩ := Option.map_eq_some_iff.mp read
        cases same
        exact found
  · intro read
    obtain ⟨byte, others, rfl, head⟩ := readNumber_head read
    rw [readValue_number fuel byte others head, read, Option.map_some]

/-- A text begins with a value that no bytes behind the text can change. -/
def Complete (text : Bytes) : Prop :=
  (∃ json, parse text = some json) ∧ openNumber (skipSpace text) = false

/-- What bytes behind a text cannot change they leave. -/
theorem parse_append_of_closed {text : Bytes} {json : Json} (parsed : parse text = some json)
    (closed : openNumber (skipSpace text) = false) (more : Bytes) :
    parse (text ++ more) = some json := by
  obtain ⟨⟨value, rest⟩, read, same⟩ := Option.map_eq_some_iff.mp parsed
  obtain rfl : value = json := same
  rw [parse, skipSpace_append more (readValue_nonempty read)]
  cases value with
  | number number =>
      obtain ⟨left, again⟩ := readNumber_closed (readValue_eq_number.mp read) closed more
      rw [readValue_eq_number.mpr again, Option.map_some]
  | _ =>
      rw [(extending _).value _ _ rest read trivial more _ (by rw [List.length_append]; omega),
        Option.map_some]

/-- A number at the end of a text is another one with a digit behind it. -/
theorem parse_append_of_open {text : Bytes} {json : Json} (parsed : parse text = some json)
    (opened : openNumber (skipSpace text) = true) :
    ∃ other, parse (text ++ [49]) = some other ∧ other ≠ json := by
  obtain ⟨⟨value, rest⟩, read, same⟩ := Option.map_eq_some_iff.mp parsed
  obtain rfl : value = json := same
  obtain ⟨byte, others, front, head⟩ := openNumber_head opened
  have numbered := readValue_number text.length byte others head
  rw [← front, read] at numbered
  obtain ⟨⟨number, left⟩, found, same⟩ := Option.map_eq_some_iff.mp numbered.symm
  cases same
  obtain ⟨other, left, again, changed⟩ := openNumber_changes found opened
  refine ⟨.number other, ?_, fun equal => changed (Json.number.inj equal)⟩
  rw [parse, skipSpace_append [49] (readValue_nonempty read), readValue_eq_number.mpr again,
    Option.map_some]

/-- A text that was cut short inside an object that was written holds no value. -/
theorem parse_truncated {members : List (Str × Json)} (whole : (Json.object members).Whole)
    {front behind : Bytes} (text : (Json.object members).write = front ++ behind)
    (cut : behind ≠ []) : parse front = none := by
  cases parsed : parse front with
  | none => rfl
  | some json =>
      exfalso
      obtain ⟨⟨value, rest⟩, read, _⟩ := Option.map_eq_some_iff.mp parsed
      have opens : ∃ tail, (Json.object members).write = 123 :: tail := by
        rcases members with _ | ⟨⟨key, value⟩, members⟩
        · exact ⟨_, by rw [write]⟩
        · exact ⟨_, by rw [write, List.cons_append, List.cons_append]⟩
      obtain ⟨tail, opens⟩ := opens
      cases front with
      | nil => exact absurd rfl (readValue_nonempty read)
      | cons byte others =>
          rw [text, List.cons_append] at opens
          obtain rfl : byte = 123 := (List.cons.inj opens).1
          rw [skipSpace_cons 123 others (by decide)] at read
          have stops : value.Stops rest := by
            cases value with
            | number number =>
                obtain ⟨first, _, same, head⟩ := readNumber_head (readValue_eq_number.mp read)
                cases same
                exact absurd head (by decide)
            | _ => trivial
          have longer := congrArg List.length text
          rw [List.length_append] at longer
          obtain ⟨fuel, enough⟩ : ∃ fuel, fuel = (Json.object members).write.length + 1 := ⟨_, rfl⟩
          have extended := (extending _).value _ value rest read stops behind fuel (by omega)
          have complete := readValue_write (.object members) fuel [] whole (by omega) trivial
          rw [List.append_nil, text, extended] at complete
          have nothing := congrArg Prod.snd (Option.some.inj complete)
          exact cut (List.append_eq_nil_iff.mp nothing).2

end Json

import Scftp.Lib.Stdin

set_option autoImplicit false

/- Lines on a stream, and what is left of a line by reads that stop at a limit or
behind a number. -/
namespace Stdin

open CString (Bytes newline readSign isDigit)

/-- A line with its newline, and what follows it. The last line may lack one. -/
inductive IsLine : Bytes → Bytes → Prop where
  | ended (rest : Bytes) : IsLine [newline] rest
  | last (byte : UInt8) (other : byte ≠ newline) : IsLine [byte] []
  | longer (byte : UInt8) {raw rest : Bytes} (other : byte ≠ newline) (line : IsLine raw rest) :
      IsLine (byte :: raw) rest

theorem exists_line {input : Bytes} (unread : input ≠ []) :
    ∃ raw rest, input = raw ++ rest ∧ IsLine raw rest := by
  induction input with
  | nil => exact absurd rfl unread
  | cons byte input ih =>
      by_cases ends : byte = newline
      · subst ends
        exact ⟨[newline], input, rfl, .ended input⟩
      · by_cases more : input = []
        · subst more
          exact ⟨[byte], [], rfl, .last byte ends⟩
        · obtain ⟨raw, rest, whole, line⟩ := ih more
          exact ⟨byte :: raw, rest, by rw [whole]; rfl, .longer byte ends line⟩

theorem isLine_append {line : Bytes} (single : newline ∉ line) (rest : Bytes) :
    IsLine (line ++ [newline]) rest := by
  induction line with
  | nil => exact .ended rest
  | cons byte line ih =>
      simp only [List.mem_cons, not_or] at single
      exact .longer byte (Ne.symm single.1) (ih single.2)

namespace IsLine

variable {raw rest : Bytes}

theorem ne_nil (line : IsLine raw rest) : raw ≠ [] := by
  cases line <;> exact List.cons_ne_nil _ _

theorem alone (line : IsLine raw rest) : IsLine raw [] := by
  induction line with
  | ended rest => exact .ended []
  | last byte other => exact .last byte other
  | longer byte other _ ih => exact .longer byte other ih

/-- The end of a line is a line, too. -/
theorem suffix {front tail : Bytes} (line : IsLine (front ++ tail) rest) (more : tail ≠ []) :
    IsLine tail rest := by
  induction front with
  | nil => exact line
  | cons byte front ih =>
      apply ih
      have longer : front ++ tail ≠ [] := List.append_ne_nil_of_right_ne_nil front more
      rw [List.cons_append] at line
      generalize front ++ tail = raw at line longer ⊢
      cases line with
      | ended rest => exact absurd rfl longer
      | last byte other => exact absurd rfl longer
      | longer byte other line => exact line

/-- A read with a limit stays inside the line. -/
theorem takeLine_eq (line : IsLine raw rest) (count : Nat) :
    takeLine count (raw ++ rest) = (raw.take count, raw.drop count ++ rest) := by
  induction line generalizing count with
  | ended rest => cases count <;> simp [takeLine]
  | last byte other => rcases count with _ | _ | count <;> simp [takeLine, other]
  | longer byte other line ih =>
      cases count with
      | zero => rfl
      | succ count => simp [takeLine, other, ih]

theorem fgets_eq (line : IsLine raw rest) (buffer : Bytes) (size : Nat) :
    fgets buffer size (raw ++ rest) = (raw.take (size - 1), raw.drop (size - 1) ++ rest) := by
  rw [fgets_of_ne_nil buffer size (List.append_ne_nil_of_left_ne_nil line.ne_nil rest),
    line.takeLine_eq]

theorem fgets_whole (line : IsLine raw rest) (buffer : Bytes) {size : Nat}
    (fits : raw.length ≤ size - 1) : fgets buffer size (raw ++ rest) = (raw, rest) := by
  rw [line.fgets_eq, List.take_of_length_le fits, List.drop_of_length_le fits, List.nil_append]

theorem fgets_alone (line : IsLine raw rest) {size : Nat} (fits : raw.length ≤ size - 1) :
    fgets [] size raw = (raw, []) := by
  have whole := line.alone.fgets_whole [] fits
  rwa [List.append_nil] at whole

/-- Only the last byte of a line can be a newline. -/
theorem newline_notMem_take (line : IsLine raw rest) {count : Nat} (short : count < raw.length) :
    newline ∉ raw.take count := by
  induction line generalizing count with
  | ended rest =>
      obtain rfl : count = 0 := Nat.lt_one_iff.mp short
      exact List.not_mem_nil
  | last byte other =>
      obtain rfl : count = 0 := Nat.lt_one_iff.mp short
      exact List.not_mem_nil
  | longer byte other line ih =>
      cases count with
      | zero => exact List.not_mem_nil
      | succ count =>
          have inside := ih (Nat.lt_of_succ_lt_succ short)
          simpa only [List.take_succ_cons, List.mem_cons, not_or] using ⟨other.symm, inside⟩

end IsLine

/-- The input ends, or its first line does, within a number of bytes. -/
def Fits (count : Nat) (input : Bytes) : Prop := input.length ≤ count ∨ newline ∈ input.take count

instance (count : Nat) (input : Bytes) : Decidable (Fits count input) := instDecidableOr

theorem IsLine.length_le {raw rest : Bytes} (line : IsLine raw rest) {count : Nat}
    (fits : Fits count (raw ++ rest)) : raw.length ≤ count := by
  by_contra long
  rcases fits with short | present
  · rw [List.length_append] at short
    omega
  · rw [List.take_append_of_le_length (by omega)] at present
    exact line.newline_notMem_take (by omega) present

/-- The start of a line within an input, or its end. -/
def LineStart (input rest : Bytes) : Prop :=
  rest = input ∨ rest = [] ∨ newline :: rest <:+ input

instance (input rest : Bytes) : Decidable (LineStart input rest) :=
  inferInstanceAs (Decidable (_ ∨ _ ∨ _))

theorem IsLine.newline_suffix {raw rest : Bytes} (line : IsLine raw rest) :
    rest = [] ∨ newline :: rest <:+ raw ++ rest := by
  induction line with
  | ended rest => exact Or.inr (List.suffix_refl _)
  | last byte other => exact Or.inl rfl
  | longer byte other line ih => exact ih.imp_right fun ends => ends.trans (List.suffix_cons byte _)

/-- Behind a line another starts. -/
theorem LineStart.line {input raw rest : Bytes} (first : LineStart input (raw ++ rest))
    (line : IsLine raw rest) : LineStart input rest := by
  rcases line.newline_suffix with none | ends
  · exact Or.inr (Or.inl none)
  · rcases first with same | none | later
    · rw [same] at ends
      exact Or.inr (Or.inr ends)
    · exact absurd (List.append_eq_nil_iff.mp none).1 line.ne_nil
    · exact Or.inr (Or.inr (ends.trans ((List.suffix_cons newline _).trans later)))

/-- What is left of a line, perhaps nothing of the last one. -/
def LineEnd (tail rest : Bytes) : Prop := IsLine tail rest ∨ tail = [] ∧ rest = []

namespace LineEnd

variable {tail rest : Bytes}

theorem line (left : LineEnd tail rest) (more : tail ≠ []) : IsLine tail rest :=
  left.resolve_right fun ended => more ended.1

theorem of_cons {byte : UInt8} (line : IsLine (byte :: tail) rest) (other : byte ≠ newline) :
    LineEnd tail rest := by
  cases line with
  | ended => exact absurd rfl other
  | last => exact Or.inr ⟨rfl, rfl⟩
  | longer _ _ line => exact Or.inl line

/-- Bytes that are kept until at most the newline are all within the line. -/
theorem span (left : LineEnd tail rest) (keep : UInt8 → Bool) (stops : keep newline = false) :
    (tail ++ rest).takeWhile keep = tail.takeWhile keep ∧
      (tail ++ rest).dropWhile keep = tail.dropWhile keep ++ rest ∧
      LineEnd (tail.dropWhile keep) rest := by
  rcases left with line | ⟨rfl, rfl⟩
  · induction line with
    | ended rest => simp [stops, LineEnd, IsLine.ended]
    | last byte other =>
        by_cases kept : keep byte = true
        · simp [kept, LineEnd]
        · simp [kept, LineEnd, IsLine.last byte other]
    | longer byte other line ih =>
        by_cases kept : keep byte = true
        · simpa [kept] using ih
        · simp [kept, LineEnd, IsLine.longer byte other line]
  · simp [LineEnd]

theorem readSign_eq (left : LineEnd tail rest) :
    readSign (tail ++ rest) = ((readSign tail).1, (readSign tail).2 ++ rest) ∧
      LineEnd (readSign tail).2 rest := by
  rcases left with line | ⟨rfl, rfl⟩
  · refine ⟨CString.readSign_append line.ne_nil rest, ?_⟩
    obtain ⟨byte, others, rfl⟩ := List.exists_cons_of_ne_nil line.ne_nil
    by_cases minus : byte = 45
    · rw [readSign, if_pos minus]
      exact of_cons line (by rw [minus]; decide)
    · by_cases plus : byte = 43
      · rw [readSign, if_neg minus, if_pos plus]
        exact of_cons line (by rw [plus]; decide)
      · rw [readSign, if_neg minus, if_neg plus]
        exact Or.inl line
  · exact ⟨rfl, Or.inr ⟨rfl, rfl⟩⟩

end LineEnd

/-- The bytes of lines, each with its newline. -/
def typed (lines : List Bytes) : Bytes := lines.flatMap (· ++ [newline])

theorem typed_cons (line : Bytes) (lines : List Bytes) (rest : Bytes) :
    typed (line :: lines) ++ rest = line ++ newline :: (typed lines ++ rest) := by
  simp [typed]

/-- The first of some lines is read whole when it fits. -/
theorem fgets_typed (buffer : Bytes) {size : Nat} {line : Bytes} (single : newline ∉ line)
    (fits : line.length + 1 < size) (lines : List Bytes) (rest : Bytes) :
    fgets buffer size (typed (line :: lines) ++ rest) =
      (line ++ [newline], typed lines ++ rest) := by
  rw [typed_cons, fgets_of_ne_nil _ _ (List.append_ne_nil_of_right_ne_nil _ (List.cons_ne_nil _ _)),
    takeLine_line _ _ _ single (by omega)]

/-- White space only. -/
def blank (input : Bytes) : Bool := input.all isSpace

/-- Behind white space a number stands, and behind it, up to the end of its line,
only white space. -/
def numberLine (input : Bytes) : Bool :=
  let unsigned := (readSign (input.dropWhile isSpace)).2
  !(unsigned.takeWhile isDigit).isEmpty &&
    blank ((unsigned.dropWhile isDigit).takeWhile (· ≠ newline))

theorem dropWhile_blank {gap : Bytes} (white : blank gap = true) (input : Bytes) :
    (gap ++ input).dropWhile isSpace = input.dropWhile isSpace :=
  List.dropWhile_append_of_pos (List.all_eq_true.mp white)

theorem scanfInt_blank (store : Int → Int32) {gap : Bytes} (white : blank gap = true)
    (input : Bytes) : scanfInt store (gap ++ input) = scanfInt store input := by
  rw [scanfInt, dropWhile_blank white, scanfInt]

theorem numberLine_blank {gap : Bytes} (white : blank gap = true) (input : Bytes) :
    numberLine (gap ++ input) = numberLine input := by
  rw [numberLine, dropWhile_blank white, numberLine]

theorem blank_number {gap : Bytes} (white : blank gap = true) (store : Int → Int32) :
    numberLine gap = false ∧ scanfInt store gap = (none, []) := by
  have number := numberLine_blank white []
  have taken := scanfInt_blank store white []
  rw [List.append_nil] at number taken
  exact ⟨number, taken⟩

/-- A line that is not all white space, from its first other byte on. -/
theorem IsLine.word {raw rest : Bytes} (line : IsLine raw rest) (dark : blank raw = false) :
    (raw ++ rest).dropWhile isSpace = raw.dropWhile isSpace ++ rest ∧
      LineEnd (raw.dropWhile isSpace) rest := by
  have more : raw.dropWhile isSpace ≠ [] := by
    intro none
    rw [List.dropWhile_eq_nil_iff] at none
    rw [blank, List.all_eq_true.mpr none] at dark
    cases dark
  refine ⟨?_, Or.inl ?_⟩
  · rw [List.dropWhile_append, if_neg (by simpa using more)]
  · rw [← List.takeWhile_append_dropWhile (p := isSpace) (l := raw)] at line
    exact line.suffix more

/-- `scanf` stays inside a line that is not all white space. -/
theorem IsLine.scanfInt_eq {raw rest : Bytes} (line : IsLine raw rest) (dark : blank raw = false)
    (store : Int → Int32) :
    scanfInt store (raw ++ rest) = ((scanfInt store raw).1, (scanfInt store raw).2 ++ rest) ∧
      LineEnd (scanfInt store raw).2 rest := by
  obtain ⟨spaces, word⟩ := line.word dark
  obtain ⟨sign, unsigned⟩ := word.readSign_eq
  obtain ⟨digits, left, ended⟩ := unsigned.span isDigit (by decide)
  refine ⟨?_, ended⟩
  simp only [scanfInt, spaces, sign, digits, left]

theorem IsLine.numberLine_eq {raw rest : Bytes} (line : IsLine raw rest)
    (dark : blank raw = false) : numberLine (raw ++ rest) = numberLine raw := by
  obtain ⟨spaces, word⟩ := line.word dark
  obtain ⟨sign, unsigned⟩ := word.readSign_eq
  obtain ⟨digits, left, ended⟩ := unsigned.span isDigit (by decide)
  obtain ⟨tail, _, _⟩ := ended.span (· ≠ newline) (by decide)
  simp only [numberLine, spaces, sign, digits, left, tail]

/-- The end of a line is white space where it is so up to the newline. -/
theorem LineEnd.blank_eq {tail rest : Bytes} (left : LineEnd tail rest) :
    blank tail = blank (tail.takeWhile (· ≠ newline)) := by
  rcases left with line | ⟨rfl, rfl⟩
  · induction line with
    | ended rest => decide
    | last byte other => simp [blank, other]
    | longer byte other line ih =>
        simpa [blank, other] using congrArg (isSpace byte && ·) ih
  · rfl

/-- On the line of a number `scanf` stores it, and leaves white space. -/
theorem IsLine.scanfInt_number {raw rest : Bytes} (line : IsLine raw rest)
    (number : numberLine raw = true) (store : Int → Int32) :
    ∃ value tail, scanfInt store raw = (some value, tail) ∧
      scanfInt store (raw ++ rest) = (some value, tail ++ rest) ∧
      blank tail = true ∧ LineEnd tail rest := by
  have dark : blank raw = false := by
    by_contra white
    rw [Bool.not_eq_false] at white
    rw [(blank_number white store).1] at number
    cases number
  obtain ⟨whole, ended⟩ := line.scanfInt_eq dark store
  rw [numberLine, Bool.and_eq_true, Bool.not_eq_true', List.isEmpty_eq_false_iff] at number
  obtain ⟨digits, white⟩ := number
  have stored : scanfInt store raw = (some _, (scanfInt store raw).2) :=
    Prod.ext (if_neg digits) rfl
  refine ⟨_, _, stored, ?_, ?_, ended⟩
  · rw [whole, stored]
  · rw [ended.blank_eq]
    exact white

end Stdin

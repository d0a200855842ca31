import Mathlib.Data.List.Basic
import Scftp.Lib.CString

set_option autoImplicit false

/- Formatted and line input of the C library on a stream that is the list of
its unread bytes. -/
namespace Stdin

open CString (Bytes newline)

/-- At most `count` bytes, up to and with the first newline, and the bytes left. -/
def takeLine : Nat → Bytes → Bytes × Bytes
  | 0, input => ([], input)
  | _ + 1, [] => ([], [])
  | count + 1, byte :: rest =>
      if byte = newline then ([byte], rest)
      else (byte :: (takeLine count rest).1, (takeLine count rest).2)

/-- `fgets(buffer, size, stdin)`: the buffer afterwards and the bytes left. At
end of input it returns NULL and leaves the buffer as it was. -/
def fgets (buffer : Bytes) (size : Nat) (stdin : Bytes) : Bytes × Bytes :=
  if stdin = [] then (buffer, []) else takeLine (size - 1) stdin

@[simp] theorem fgets_eof (buffer : Bytes) (size : Nat) : fgets buffer size [] = (buffer, []) := rfl

theorem fgets_of_ne_nil (buffer : Bytes) (size : Nat) {stdin : Bytes} (unread : stdin ≠ []) :
    fgets buffer size stdin = takeLine (size - 1) stdin := if_neg unread

theorem takeLine_append (count : Nat) (input : Bytes) :
    (takeLine count input).1 ++ (takeLine count input).2 = input := by
  induction count generalizing input with
  | zero => rfl
  | succ count ih =>
      cases input with
      | nil => rfl
      | cons byte rest =>
          rw [takeLine]
          split
          · rfl
          · simp only [List.cons_append, ih rest]

/-- What a read takes and what it leaves are the stream, unless it is at its end. -/
theorem fgets_append (buffer : Bytes) (size : Nat) {stdin : Bytes} (unread : stdin ≠ []) :
    (fgets buffer size stdin).1 ++ (fgets buffer size stdin).2 = stdin := by
  rw [fgets_of_ne_nil buffer size unread, takeLine_append]

theorem takeLine_length_le (count : Nat) (input : Bytes) :
    (takeLine count input).1.length ≤ count := by
  induction count generalizing input with
  | zero => exact Nat.le_refl _
  | succ count ih =>
      cases input with
      | nil => exact Nat.zero_le _
      | cons byte rest =>
          rw [takeLine]
          split
          · simp only [List.length_cons, List.length_nil]
            omega
          · simpa only [List.length_cons, Nat.add_le_add_iff_right] using ih rest

/-- A read with room for a byte takes at least one of a nonempty stream. -/
theorem takeLine_rest_lt (count : Nat) (input : Bytes) (room : 0 < count) (unread : input ≠ []) :
    (takeLine count input).2.length < input.length := by
  obtain ⟨count, rfl⟩ := Nat.exists_eq_succ_of_ne_zero (Nat.ne_of_gt room)
  obtain ⟨byte, rest, rfl⟩ := List.exists_cons_of_ne_nil unread
  have whole := congrArg List.length (takeLine_append count rest)
  simp only [List.length_append] at whole
  rw [takeLine]
  split
  · simp only [List.length_cons]
    omega
  · simp only [List.length_cons]
    omega

theorem fgets_rest_lt (buffer : Bytes) (size : Nat) (stdin : Bytes) (room : 1 < size)
    (unread : stdin ≠ []) : (fgets buffer size stdin).2.length < stdin.length := by
  rw [fgets_of_ne_nil buffer size unread]
  exact takeLine_rest_lt _ _ (by omega) unread

theorem fgets_rest_le (buffer : Bytes) (size : Nat) (stdin : Bytes) :
    (fgets buffer size stdin).2.length ≤ stdin.length := by
  by_cases unread : stdin = []
  · subst unread
    exact Nat.le_refl _
  · rw [fgets_of_ne_nil buffer size unread]
    have whole := congrArg List.length (takeLine_append (size - 1) stdin)
    simp only [List.length_append] at whole
    omega

theorem takeLine_line (count : Nat) (line rest : Bytes) (single : newline ∉ line)
    (fits : line.length < count) :
    takeLine count (line ++ newline :: rest) = (line ++ [newline], rest) := by
  induction line generalizing count with
  | nil =>
      obtain ⟨count, rfl⟩ := Nat.exists_eq_succ_of_ne_zero (Nat.ne_of_gt fits)
      simp [takeLine]
  | cons byte line ih =>
      obtain ⟨count, rfl⟩ := Nat.exists_eq_succ_of_ne_zero (Nat.ne_of_gt (Nat.zero_lt_of_lt fits))
      simp only [List.mem_cons, not_or] at single
      simp only [List.length_cons] at fits
      simp only [List.cons_append, takeLine, Ne.symm single.1, ↓reduceIte,
        ih count single.2 (by omega)]

/-- A newline in what was read is its last byte, and no other. -/
theorem takeLine_newline (count : Nat) (input : Bytes)
    (present : newline ∈ (takeLine count input).1) :
    ∃ line, (takeLine count input).1 = line ++ [newline] ∧ newline ∉ line := by
  induction count generalizing input with
  | zero => cases present
  | succ count ih =>
      cases input with
      | nil => cases present
      | cons byte rest =>
          rw [takeLine] at present ⊢
          split
          · rename_i same
            exact ⟨[], by rw [same]; rfl, List.not_mem_nil⟩
          · rename_i other
            rw [if_neg other] at present
            rcases List.mem_cons.mp present with same | present
            · exact absurd same.symm other
            · obtain ⟨line, read, single⟩ := ih rest present
              have apart : newline ∉ byte :: line := by
                simp only [List.mem_cons, not_or]
                exact ⟨Ne.symm other, single⟩
              exact ⟨byte :: line, by rw [read]; rfl, apart⟩

/-- The first byte read is the first byte unread. -/
theorem takeLine_head (count : Nat) (byte : UInt8) (rest : Bytes) (room : 0 < count) :
    ∃ others, (takeLine count (byte :: rest)).1 = byte :: others := by
  obtain ⟨count, rfl⟩ := Nat.exists_eq_succ_of_ne_zero (Nat.ne_of_gt room)
  rw [takeLine]
  split
  · exact ⟨[], rfl⟩
  · exact ⟨_, rfl⟩

/-- A stream is a last line without a newline, or a line, a newline and the rest. -/
theorem line_cases (input : Bytes) :
    newline ∉ input ∨ ∃ line rest, input = line ++ newline :: rest ∧ newline ∉ line := by
  by_cases present : newline ∈ input
  · exact Or.inr (List.eq_append_cons_of_mem present)
  · exact Or.inl present

/-- The lines of a stream. Bytes after the last newline count as a line. -/
def lines (input : Bytes) : List Bytes :=
  if (input.splitOn newline).getLast? = some [] then (input.splitOn newline).dropLast
  else input.splitOn newline

@[simp] theorem lines_nil : lines [] = [] := by decide

/-- A newline ends a line wherever it stands. -/
theorem lines_append (front rest : Bytes) :
    lines (front ++ newline :: rest) = front.splitOn newline ++ lines rest := by
  have pieces : (front ++ newline :: rest).splitOn newline =
      front.splitOn newline ++ rest.splitOn newline := List.splitOn_append_cons_self front rest
  have some : rest.splitOn newline ≠ [] := List.splitOn_ne_nil newline rest
  unfold lines
  rw [pieces, List.getLast?_append_of_ne_nil _ some]
  split
  · rw [List.dropLast_append_of_ne_nil some]
  · rfl

theorem lines_cons (line rest : Bytes) (single : newline ∉ line) :
    lines (line ++ newline :: rest) = line :: lines rest := by
  rw [lines_append, List.splitOn_eq_singleton single]
  rfl

theorem lines_last (line : Bytes) (single : newline ∉ line) (some : line ≠ []) :
    lines line = [line] := by
  rw [lines, List.splitOn_eq_singleton single, if_neg]
  simpa using some

/-- What follows the first newline. -/
def afterLine (input : Bytes) : Bytes := (input.dropWhile (· ≠ newline)).tail

@[simp] theorem afterLine_nil : afterLine [] = [] := rfl

/-- Bytes before the first newline make no difference. -/
theorem afterLine_append (front rest : Bytes) (single : newline ∉ front) :
    afterLine (front ++ rest) = afterLine rest := by
  have skipped : ∀ byte ∈ front, decide (byte ≠ newline) = true := by
    intro byte member
    exact decide_eq_true fun same => single (same ▸ member)
  rw [afterLine, List.dropWhile_append_of_pos skipped, afterLine]

theorem afterLine_line (line rest : Bytes) (single : newline ∉ line) :
    afterLine (line ++ newline :: rest) = rest := by
  rw [afterLine_append line (newline :: rest) single]
  simp [afterLine]

theorem afterLine_last (line : Bytes) (single : newline ∉ line) : afterLine line = [] := by
  have same := afterLine_append line [] single
  rwa [List.append_nil] at same

/-- A read with a newline took the first line. -/
theorem takeLine_whole {count : Nat} {input : Bytes} (whole : newline ∈ (takeLine count input).1) :
    ∃ line, (takeLine count input).1 = line ++ [newline] ∧ newline ∉ line ∧
      input = line ++ newline :: (takeLine count input).2 := by
  obtain ⟨line, read, single⟩ := takeLine_newline count input whole
  refine ⟨line, read, single, ?_⟩
  have stream := takeLine_append count input
  rw [read, List.append_assoc] at stream
  exact stream.symm

theorem afterLine_of_whole {count : Nat} {input : Bytes}
    (whole : newline ∈ (takeLine count input).1) : afterLine input = (takeLine count input).2 := by
  obtain ⟨line, _, single, stream⟩ := takeLine_whole whole
  have behind := afterLine_line line (takeLine count input).2 single
  rwa [← stream] at behind

/-- A read without a newline took part of a line. -/
theorem afterLine_of_fragment {count : Nat} {input : Bytes}
    (fragment : newline ∉ (takeLine count input).1) :
    afterLine input = afterLine (takeLine count input).2 := by
  rw [← afterLine_append _ (takeLine count input).2 fragment, takeLine_append]

/-- The unread input begins with a line that fits a buffer with its newline. -/
def WholeLine (size : Nat) (stdin line rest : Bytes) : Prop :=
  stdin = line ++ newline :: rest ∧ newline ∉ line ∧ (0 : UInt8) ∉ line ∧ line.length + 1 < size

instance (size : Nat) (stdin line rest : Bytes) : Decidable (WholeLine size stdin line rest) :=
  instDecidableAnd

theorem WholeLine.ne_nil {size : Nat} {stdin line rest : Bytes}
    (whole : WholeLine size stdin line rest) : stdin ≠ [] := by
  rw [whole.1]
  exact List.append_ne_nil_of_right_ne_nil line (List.cons_ne_nil newline rest)

theorem WholeLine.fgets_eq {size : Nat} {stdin line rest : Bytes}
    (whole : WholeLine size stdin line rest) (buffer : Bytes) :
    fgets buffer size stdin = (line ++ [newline], rest) := by
  rw [fgets_of_ne_nil buffer size whole.ne_nil]
  obtain ⟨rfl, single, _, fits⟩ := whole
  exact takeLine_line _ line rest single (by omega)

theorem WholeLine.cut {size : Nat} {stdin line rest : Bytes}
    (whole : WholeLine size stdin line rest) : CString.cutLast (line ++ [newline]) = some line :=
  CString.cutLast_append line newline whole.2.2.1 (by decide)

def isSpace (byte : UInt8) : Bool := byte = 32 || (9 ≤ byte && byte ≤ 13)

/-- `scanf("%d")`: what it stores, if anything, and the bytes left. White space
and a sign are taken even when no digit follows. `store` turns a number into an
`int`; out of range that is up to the implementation. -/
def scanfInt (store : Int → Int32) (stdin : Bytes) : Option Int32 × Bytes :=
  let signed := CString.readSign (stdin.dropWhile isSpace)
  let digits := signed.2.takeWhile CString.isDigit
  let value := CString.digitsValue digits
  (if digits = [] then none else some (store (if signed.1 then -value else value)),
    signed.2.dropWhile CString.isDigit)

/-- A byte that `scanf("%d")` takes from the front of the input. -/
def scanfTakes (byte : UInt8) : Bool :=
  isSpace byte || byte = 45 || byte = 43 || CString.isDigit byte

theorem readSign_length_le (input : Bytes) : (CString.readSign input).2.length ≤ input.length := by
  cases input with
  | nil => exact Nat.le_refl _
  | cons byte rest =>
      simp only [CString.readSign]
      split
      · exact Nat.le_succ _
      · split
        · exact Nat.le_succ _
        · exact Nat.le_refl _

theorem dropWhile_length_le (taken : UInt8 → Bool) (input : Bytes) :
    (input.dropWhile taken).length ≤ input.length :=
  (List.dropWhile_suffix taken).length_le

theorem scanfInt_rest_le (store : Int → Int32) (stdin : Bytes) :
    (scanfInt store stdin).2.length ≤ stdin.length := by
  have spaces := dropWhile_length_le isSpace stdin
  have sign := readSign_length_le (stdin.dropWhile isSpace)
  have digits := dropWhile_length_le CString.isDigit (CString.readSign (stdin.dropWhile isSpace)).2
  simp only [scanfInt]
  omega

theorem scanfInt_stores (store : Int → Int32) (stdin : Bytes) (value : Int32)
    (stored : (scanfInt store stdin).1 = some value) :
    (scanfInt store stdin).2.length < stdin.length := by
  have spaces := dropWhile_length_le isSpace stdin
  have sign := readSign_length_le (stdin.dropWhile isSpace)
  simp only [scanfInt] at stored ⊢
  split at stored
  · cases stored
  · rename_i some
    have digit := List.length_pos_iff.mpr some
    have whole := congrArg List.length (List.takeWhile_append_dropWhile
      (p := CString.isDigit) (l := (CString.readSign (stdin.dropWhile isSpace)).2))
    rw [List.length_append] at whole
    omega

/-- `scanf("%d")` takes a byte exactly when it can take the first one. -/
theorem scanfInt_rest_lt_iff (store : Int → Int32) (stdin : Bytes) :
    (scanfInt store stdin).2.length < stdin.length ↔
      ∃ byte rest, stdin = byte :: rest ∧ scanfTakes byte = true := by
  constructor
  · intro shorter
    cases stdin with
    | nil => cases shorter
    | cons byte rest =>
        refine ⟨byte, rest, rfl, ?_⟩
        by_contra refused
        simp only [scanfTakes, Bool.or_eq_true, decide_eq_true_eq, not_or, Bool.not_eq_true]
          at refused
        obtain ⟨⟨⟨space, minus⟩, plus⟩, digit⟩ := refused
        simp [scanfInt, CString.readSign, space, minus, plus, digit] at shorter
  · rintro ⟨byte, rest, rfl, taken⟩
    have digits := dropWhile_length_le CString.isDigit rest
    simp only [scanfInt, List.length_cons]
    by_cases space : isSpace byte = true
    · have spaces := dropWhile_length_le isSpace rest
      have sign := readSign_length_le (rest.dropWhile isSpace)
      have others := dropWhile_length_le CString.isDigit
        (CString.readSign (rest.dropWhile isSpace)).2
      rw [List.dropWhile_cons_of_pos space]
      omega
    · rw [List.dropWhile_cons_of_neg space]
      by_cases minus : byte = 45
      · simp only [CString.readSign, if_pos minus]
        omega
      · by_cases plus : byte = 43
        · simp only [CString.readSign, if_neg minus, if_pos plus]
          omega
        · have digit : CString.isDigit byte = true := by
            simpa [scanfTakes, space, minus, plus] using taken
          simp only [CString.readSign, if_neg minus, if_neg plus, List.dropWhile_cons_of_pos digit]
          omega

/-- White space, and then a sign with no digit right behind it. -/
def loneSign (stdin : Bytes) : Bool :=
  match stdin.dropWhile isSpace with
  | [] => false
  | sign :: rest => (sign = 45 || sign = 43) && (rest.takeWhile CString.isDigit).isEmpty

theorem loneSign_stores (store : Int → Int32) {stdin : Bytes} (lone : loneSign stdin = true) :
    (scanfInt store stdin).1 = none := by
  unfold loneSign at lone
  split at lone
  · cases lone
  · rename_i sign rest front
    simp only [Bool.and_eq_true, Bool.or_eq_true, decide_eq_true_eq, List.isEmpty_iff] at lone
    obtain ⟨minus | plus, none⟩ := lone
    · simp [scanfInt, front, CString.readSign, minus, none]
    · simp [scanfInt, front, CString.readSign, plus, none]

/-- A number is missing where a sign stands alone, or where nothing stands that
`scanf("%d")` could ever take. -/
theorem loneSign_of_none (store : Int → Int32) {stdin : Bytes}
    (missing : (scanfInt store stdin).1 = none)
    (more : ∃ byte rest, (scanfInt store stdin).2 = byte :: rest ∧ scanfTakes byte = true) :
    loneSign stdin = true := by
  obtain ⟨byte, others, left, taken⟩ := more
  have digits : (CString.readSign (stdin.dropWhile isSpace)).2.takeWhile CString.isDigit = [] := by
    by_contra some
    simp [scanfInt, some] at missing
  cases front : stdin.dropWhile isSpace with
  | nil =>
      simp [scanfInt, front, CString.readSign] at left
  | cons sign rest =>
      have space : isSpace sign = false := by
        have head := List.head?_dropWhile_not isSpace stdin
        rw [front] at head
        simpa using head
      rw [front] at digits
      simp only [loneSign, front, Bool.and_eq_true, Bool.or_eq_true, decide_eq_true_eq,
        List.isEmpty_iff]
      by_cases minus : sign = 45
      · simp only [CString.readSign, if_pos minus] at digits
        exact ⟨Or.inl minus, digits⟩
      · by_cases plus : sign = 43
        · simp only [CString.readSign, if_neg minus, if_pos plus] at digits
          exact ⟨Or.inr plus, digits⟩
        · simp only [CString.readSign, if_neg minus, if_neg plus] at digits
          have digit : CString.isDigit sign = false := by
            by_contra digit
            simp [digit] at digits
          simp only [scanfInt, front, CString.readSign, if_neg minus, if_neg plus,
            List.dropWhile_cons_of_neg (Bool.not_eq_true _ ▸ digit)] at left
          cases left
          simp [scanfTakes, space, minus, plus, digit] at taken

/-- Where `scanf("%d")` can take nothing it leaves everything. -/
theorem scanfInt_untaken (store : Int → Int32) {stdin : Bytes}
    (untaken : ¬ ∃ byte rest, stdin = byte :: rest ∧ scanfTakes byte = true) :
    scanfInt store stdin = (none, stdin) := by
  cases stdin with
  | nil => rfl
  | cons byte rest =>
      have refused : scanfTakes byte = false := by
        by_contra taken
        exact untaken ⟨byte, rest, rfl, by simpa using taken⟩
      simp only [scanfTakes, Bool.or_eq_false_iff, decide_eq_false_iff_not] at refused
      obtain ⟨⟨⟨space, minus⟩, plus⟩, digit⟩ := refused
      simp [scanfInt, CString.readSign, space, minus, plus, digit]

end Stdin

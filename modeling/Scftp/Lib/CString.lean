import Mathlib.Data.List.TakeWhile

set_option autoImplicit false

/- The C library's byte-string functions over lists of bytes. A buffer is the
list of bytes stored in it; what string functions see of it stops at its first
NUL, so the bytes left behind a terminator are not kept. -/
namespace CString

abbrev Bytes := List UInt8

abbrev newline : UInt8 := 10

/-- The bytes of a string literal of ASCII characters. -/
def ascii (text : String) : Bytes := text.toList.map fun c => UInt8.ofNat c.toNat

/-- What the string functions see of a buffer: the bytes before its first NUL. -/
def cstr (buffer : Bytes) : Bytes := buffer.takeWhile (· ≠ 0)

def strlen (buffer : Bytes) : Nat := (cstr buffer).length

/-- Whether `strcmp` returns 0. -/
def strcmp (left right : Bytes) : Bool := cstr left == cstr right

@[simp] theorem strcmp_iff (left right : Bytes) :
    strcmp left right = true ↔ cstr left = cstr right := by
  simp only [strcmp, beq_iff_eq]

theorem strcmp_eq_false {buffer word other : Bytes} (same : strcmp buffer word = true)
    (apart : cstr word ≠ cstr other) : strcmp buffer other = false := by
  rw [← Bool.not_eq_true, strcmp_iff]
  intro equal
  rw [strcmp_iff] at same
  exact apart (same.symm.trans equal)

theorem cstr_noNul (buffer : Bytes) : (0 : UInt8) ∉ cstr buffer := by
  intro member
  have kept := List.mem_takeWhile_imp member
  simp at kept

@[simp] theorem cstr_of_noNul (text : Bytes) (noNul : (0 : UInt8) ∉ text) :
    cstr text = text := by
  rw [cstr, List.takeWhile_eq_self_iff]
  intro byte member
  simpa only [ne_eq, decide_eq_true_eq] using ne_of_mem_of_not_mem member noNul

theorem cstr_append (text rest : Bytes) (noNul : (0 : UInt8) ∉ text) :
    cstr (text ++ rest) = text ++ cstr rest := by
  rw [cstr, List.takeWhile_append_of_pos]
  · rfl
  · intro byte member
    simpa only [ne_eq, decide_eq_true_eq] using ne_of_mem_of_not_mem member noNul

/-- A line with its newline is a word with one exactly when the line is the word. -/
theorem strcmp_line (line word : Bytes) (single : newline ∉ line) (noNul : (0 : UInt8) ∉ word) :
    strcmp (line ++ [newline]) (word ++ [newline]) = true ↔ line = word := by
  have ended (text : Bytes) (clean : (0 : UInt8) ∉ text) :
      cstr (text ++ [newline]) = text ++ [newline] := by
    rw [cstr_append text [newline] clean]
    rfl
  rw [strcmp_iff, ended word noNul]
  constructor
  · intro same
    by_cases clean : (0 : UInt8) ∉ line
    · rw [ended line clean] at same
      exact List.append_cancel_right same
    · obtain ⟨front, rest, rfl, first⟩ := List.eq_append_cons_of_mem (not_not.mp clean)
      have cut : cstr (front ++ 0 :: rest ++ [newline]) = front := by
        rw [List.append_assoc, cstr_append front _ first]
        simp [cstr]
      rw [cut] at same
      apply absurd (List.mem_append_left (0 :: rest) (?_ : newline ∈ front)) single
      rw [same]
      exact List.mem_append_right word List.mem_cons_self
  · intro same
    rw [same]
    exact ended word noNul

/-- Bytes without a newline are no line. -/
theorem strcmp_fragment {read : Bytes} (fragment : newline ∉ read) (word : Bytes)
    (noNul : (0 : UInt8) ∉ word) : strcmp read (word ++ [newline]) = false := by
  rw [← Bool.not_eq_true, strcmp_iff]
  intro same
  apply fragment
  apply (List.takeWhile_prefix _).subset
  rw [cstr_append word [newline] noNul] at same
  exact same ▸ List.mem_append_right word List.mem_cons_self

theorem cstr_length_le (buffer : Bytes) : (cstr buffer).length ≤ buffer.length :=
  (List.takeWhile_prefix _).length_le

/-- A C string as a value: bytes without a NUL. -/
@[ext] structure Str where
  bytes : Bytes
  noNul : (0 : UInt8) ∉ bytes
deriving DecidableEq

/-- The string a buffer holds. -/
def toStr (buffer : Bytes) : Str := ⟨cstr buffer, cstr_noNul buffer⟩

@[simp] theorem toStr_bytes (buffer : Bytes) : (toStr buffer).bytes = cstr buffer := rfl

theorem toStr_of_noNul (text : Str) : toStr text.bytes = text :=
  Str.ext (cstr_of_noNul text.bytes text.noNul)

/-- A `char[size]` array holding a terminated string. -/
@[ext] structure CharArray (size : Nat) extends Str where
  fits : bytes.length < size
deriving DecidableEq

/-- `strcpy` into a `char[size]`; `none` when it would write past the array. -/
def strcpy {size : Nat} (source : Bytes) : Option (CharArray size) :=
  if fits : (cstr source).length < size then some ⟨toStr source, fits⟩ else none

/-- `strcat` onto a `char[size]`; `none` when it would write past the array. -/
def strcat {size : Nat} (source : Bytes) (dest : CharArray size) : Option (CharArray size) :=
  if fits : (dest.bytes ++ cstr source).length < size then
    some ⟨⟨dest.bytes ++ cstr source, by
      simpa only [List.mem_append, not_or] using ⟨dest.noNul, cstr_noNul source⟩⟩, fits⟩
  else none

theorem strcpy_of_charArray {size : Nat} (array : CharArray size) :
    strcpy array.bytes = some array := by
  have visible := cstr_of_noNul array.bytes array.noNul
  have fits : (cstr array.bytes).length < size := by rw [visible]; exact array.fits
  rw [strcpy, dif_pos fits]
  congr 1
  exact CharArray.ext visible

theorem strcpy_bytes {size : Nat} {source : Bytes} {array : CharArray size}
    (copied : strcpy source = some array) : array.bytes = cstr source := by
  unfold strcpy at copied
  split at copied
  · cases copied
    rfl
  · cases copied

theorem exists_strcpy {size : Nat} {source : Bytes} (clean : (0 : UInt8) ∉ source)
    (fits : source.length < size) :
    ∃ array : CharArray size, strcpy source = some array ∧ array.bytes = source := by
  have visible := cstr_of_noNul source clean
  have room : (cstr source).length < size := by rwa [visible]
  exact ⟨⟨toStr source, room⟩, dif_pos room, visible⟩

/-- `strcat` appends exactly when the array has room for the result. -/
theorem strcat_iff {size : Nat} {source : Bytes} {dest array : CharArray size} :
    strcat source dest = some array ↔ array.bytes = dest.bytes ++ cstr source := by
  unfold strcat
  constructor
  · intro copied
    split at copied
    · cases copied
      rfl
    · cases copied
  · intro same
    have fits : (dest.bytes ++ cstr source).length < size := by
      rw [← same]
      exact array.fits
    rw [dif_pos fits]
    congr 1
    exact CharArray.ext same.symm

/-- A copy and then an append are one copy of both texts. -/
theorem strcpy_strcat {size : Nat} (first second : Bytes) (noNul : (0 : UInt8) ∉ first) :
    (strcpy first : Option (CharArray size)).bind (strcat second) = strcpy (first ++ second) := by
  have visible : cstr first = first := cstr_of_noNul first noNul
  have both : cstr (first ++ second) = first ++ cstr second := cstr_append first second noNul
  have lengths : (cstr (first ++ second)).length = (cstr first).length + (cstr second).length := by
    rw [both, visible, List.length_append]
  by_cases fits : (cstr (first ++ second)).length < size
  · have room : (cstr first).length < size := by omega
    rw [strcpy, dif_pos room, strcpy, dif_pos fits, Option.bind_some, strcat_iff]
    simp only [toStr_bytes, both, visible]
  · rw [strcpy, strcpy, dif_neg fits]
    split
    · rename_i room
      rw [Option.bind_some, strcat, dif_neg]
      rw [toStr_bytes, List.length_append]
      omega
    · rfl

/-- `buffer[strlen(buffer) - 1] = '\0'`; `none` when the string is empty, where
the index wraps and the byte is written outside the array. -/
def cutLast (buffer : Bytes) : Option Bytes :=
  if strlen buffer = 0 then none else some (cstr buffer).dropLast

/-- A cut that is in range leaves all but the last byte of the string. -/
theorem cutLast_eq_some {buffer text : Bytes} (cut : cutLast buffer = some text) :
    0 < strlen buffer ∧ text = (cstr buffer).dropLast ∧ strlen text = strlen buffer - 1 := by
  unfold cutLast at cut
  split at cut
  · cases cut
  · rename_i some
    cases cut
    have noNul : (0 : UInt8) ∉ (cstr buffer).dropLast :=
      fun member => cstr_noNul buffer (List.dropLast_subset _ member)
    refine ⟨Nat.pos_of_ne_zero some, rfl, ?_⟩
    rw [strlen, cstr_of_noNul _ noNul, List.length_dropLast, strlen]

theorem cutLast_eq_none {buffer : Bytes} : cutLast buffer = none ↔ strlen buffer = 0 := by
  simp [cutLast]

theorem cutLast_some {buffer : Bytes} (visible : 0 < strlen buffer) :
    ∃ shorter, cutLast buffer = some shorter ∧ strlen shorter = strlen buffer - 1 := by
  have cut : cutLast buffer = some (cstr buffer).dropLast := if_neg (Nat.ne_of_gt visible)
  exact ⟨_, cut, (cutLast_eq_some cut).2.2⟩

/-- The cut is in range exactly when the buffer does not begin with a NUL. -/
theorem cutLast_cons (byte : UInt8) (rest : Bytes) :
    cutLast (byte :: rest) = none ↔ byte = 0 := by
  by_cases zero : byte = 0
  · simp [cutLast, strlen, cstr, zero]
  · simp [cutLast, strlen, cstr, zero]

theorem cutLast_append (text : Bytes) (last : UInt8) (noNul : (0 : UInt8) ∉ text)
    (nonzero : last ≠ 0) : cutLast (text ++ [last]) = some text := by
  have visible : cstr (text ++ [last]) = text ++ [last] := by
    apply cstr_of_noNul
    simpa only [List.mem_append, List.mem_singleton, not_or] using ⟨noNul, nonzero.symm⟩
  simp [cutLast, strlen, visible]

def isDigit (byte : UInt8) : Bool := 48 ≤ byte && byte ≤ 57

def digitsValue (digits : Bytes) : Nat :=
  digits.foldl (fun value byte => 10 * value + (byte.toNat - 48)) 0

/-- Whether there is a minus sign, and what follows the sign. -/
def readSign : Bytes → Bool × Bytes
  | [] => (false, [])
  | byte :: rest =>
      if byte = 45 then (true, rest)
      else if byte = 43 then (false, rest)
      else (false, byte :: rest)

/-- What follows the first byte has no say in the sign. -/
theorem readSign_append {input : Bytes} (begun : input ≠ []) (more : Bytes) :
    readSign (input ++ more) = ((readSign input).1, (readSign input).2 ++ more) := by
  obtain ⟨byte, rest, rfl⟩ := List.exists_cons_of_ne_nil begun
  simp only [List.cons_append, readSign]
  split
  · rfl
  · split <;> rfl

end CString

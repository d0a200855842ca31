import Mathlib.Algebra.Order.Field.Rat
import Mathlib.Algebra.Order.Field.Power
import Scftp.Lib.CString

set_option autoImplicit false

/- The texts of JSON numbers and strings, as they are written and as they are
read from the front of some bytes. -/
namespace Json

open CString (Bytes isDigit digitsValue readSign)

def decimal (number : Nat) : Bytes :=
  (Nat.toDigits 10 number).map fun digit => UInt8.ofNat digit.toNat

def writeInt (value : Int) : Bytes :=
  if value < 0 then 45 :: decimal value.natAbs else decimal value.natAbs

/-- The digits behind a point. A point with no digit behind it is not read. -/
def readFraction : Bytes → Bytes × Bytes
  | [] => ([], [])
  | byte :: rest =>
      if byte = 46 ∧ rest.takeWhile isDigit ≠ [] then
        (rest.takeWhile isDigit, rest.dropWhile isDigit)
      else ([], byte :: rest)

def readExponent : Bytes → Int × Bytes
  | [] => (0, [])
  | byte :: rest =>
      let (negative, digits) := readSign rest
      if (byte = 101 ∨ byte = 69) ∧ digits.takeWhile isDigit ≠ [] then
        let value := digitsValue (digits.takeWhile isDigit)
        (if negative then -value else value, digits.dropWhile isDigit)
      else (0, byte :: rest)

/-- A number without its sign, exactly. -/
def readMagnitude (input : Bytes) : Option (ℚ × Bytes) :=
  let whole := input.takeWhile isDigit
  if whole = [] then none
  else
    let (fraction, rest) := readFraction (input.dropWhile isDigit)
    let (exponent, rest) := readExponent rest
    some (digitsValue (whole ++ fraction) * 10 ^ (exponent - fraction.length), rest)

def readNumber : Bytes → Option (ℚ × Bytes)
  | [] => none
  | byte :: rest =>
      if byte = 45 then (readMagnitude rest).map fun read => (-read.1, read.2)
      else readMagnitude (byte :: rest)

/-- Bytes that do not go on with a number written before them. -/
def Delimited (rest : Bytes) : Prop :=
  ∀ byte more, rest = byte :: more →
    isDigit byte = false ∧ byte ≠ 46 ∧ byte ≠ 101 ∧ byte ≠ 69

theorem digit_toNat (digit : Char) (decimal : digit.isDigit = true) :
    (UInt8.ofNat digit.toNat).toNat = digit.toNat := by
  simp only [Char.isDigit, Bool.and_eq_true, decide_eq_true_eq] at decimal
  have upper : digit.toNat ≤ 57 := UInt32.le_iff_toNat_le.mp decimal.2
  rw [UInt8.toNat_ofNat']
  omega

theorem isDigit_of_mem_decimal (number : Nat) (byte : UInt8) (member : byte ∈ decimal number) :
    isDigit byte = true := by
  obtain ⟨digit, inside, rfl⟩ := List.mem_map.mp member
  have decimal := Nat.isDigit_of_mem_toDigits (by decide) (by decide) inside
  have same := digit_toNat digit decimal
  simp only [Char.isDigit, Bool.and_eq_true, decide_eq_true_eq] at decimal
  have lower : 48 ≤ digit.toNat := UInt32.le_iff_toNat_le.mp decimal.1
  have upper : digit.toNat ≤ 57 := UInt32.le_iff_toNat_le.mp decimal.2
  simp only [isDigit, Bool.and_eq_true, decide_eq_true_eq, UInt8.le_iff_toNat_le, same]
  exact ⟨lower, upper⟩

theorem decimal_ne_nil (number : Nat) : decimal number ≠ [] := by
  simp only [decimal, ne_eq, List.map_eq_nil_iff]
  exact Nat.toDigits_ne_nil

theorem digitsValue_decimal (number : Nat) : digitsValue (decimal number) = number := by
  have digits (text : List Char) (value : Nat) (all : ∀ digit ∈ text, digit.isDigit = true) :
      (text.map fun digit => UInt8.ofNat digit.toNat).foldl
        (fun value byte => 10 * value + (byte.toNat - 48)) value =
          Nat.ofDigitChars 10 text value := by
    induction text generalizing value with
    | nil => rfl
    | cons digit text ih =>
        rw [List.map_cons, List.foldl_cons, Nat.ofDigitChars_cons,
          ih _ fun other member => all other (List.mem_cons_of_mem _ member),
          digit_toNat digit (all digit List.mem_cons_self)]
        rfl
  rw [digitsValue, decimal, digits _ _ fun digit inside =>
    Nat.isDigit_of_mem_toDigits (by decide) (by decide) inside]
  exact Nat.ofDigitChars_ten_toDigits

/-- The scan over written digits stops where they do. -/
theorem takeWhile_decimal (number : Nat) (rest : Bytes) (delimited : Delimited rest) :
    (decimal number ++ rest).takeWhile isDigit = decimal number ∧
      (decimal number ++ rest).dropWhile isDigit = rest := by
  have all := isDigit_of_mem_decimal number
  rw [List.takeWhile_append_of_pos all, List.dropWhile_append_of_pos all]
  cases rest with
  | nil => simp
  | cons byte more => simp [(delimited byte more rfl).1]

theorem readMagnitude_decimal (number : Nat) (rest : Bytes) (delimited : Delimited rest) :
    readMagnitude (decimal number ++ rest) = some ((number : ℚ), rest) := by
  obtain ⟨taken, dropped⟩ := takeWhile_decimal number rest delimited
  have fraction : readFraction rest = ([], rest) := by
    cases rest with
    | nil => rfl
    | cons byte more => simp [readFraction, (delimited byte more rfl).2.1]
  have exponent : readExponent rest = (0, rest) := by
    cases rest with
    | nil => rfl
    | cons byte more => simp [readExponent, (delimited byte more rfl).2.2]
  simp only [readMagnitude, taken, dropped, decimal_ne_nil, ↓reduceIte, fraction, exponent,
    List.append_nil, digitsValue_decimal]
  simp

/-- A written number starts with its sign or a digit. -/
theorem writeInt_head (value : Int) :
    ∃ byte more, writeInt value = byte :: more ∧ (byte = 45 ∨ isDigit byte = true) := by
  unfold writeInt
  split
  · exact ⟨45, _, rfl, Or.inl rfl⟩
  · obtain ⟨byte, more, digits⟩ := List.exists_cons_of_ne_nil (decimal_ne_nil value.natAbs)
    have digit := isDigit_of_mem_decimal value.natAbs byte (by simp [digits])
    exact ⟨byte, more, digits, Or.inr digit⟩

theorem readNumber_writeInt (value : Int) (rest : Bytes) (delimited : Delimited rest) :
    readNumber (writeInt value ++ rest) = some ((value : ℚ), rest) := by
  have magnitude := readMagnitude_decimal value.natAbs rest delimited
  unfold writeInt
  split
  · rename_i negative
    simp only [List.cons_append, readNumber, ↓reduceIte, magnitude, Option.map_some]
    have same : -(value.natAbs : Int) = value := by omega
    have exact : -(value.natAbs : ℚ) = value := by
      rw [← Int.cast_natCast, ← Int.cast_neg, same]
    rw [exact]
  · rename_i positive
    obtain ⟨byte, more, digits⟩ := List.exists_cons_of_ne_nil (decimal_ne_nil value.natAbs)
    have digit := isDigit_of_mem_decimal value.natAbs byte (by simp [digits])
    have unsigned : byte ≠ 45 := by
      rintro rfl
      exact absurd digit (by decide)
    rw [digits] at magnitude ⊢
    rw [List.cons_append] at magnitude ⊢
    simp only [readNumber, unsigned, ↓reduceIte, magnitude]
    have same : (value.natAbs : Int) = value := by omega
    have exact : (value.natAbs : ℚ) = value := by rw [← Int.cast_natCast, same]
    rw [exact]

def hexDigit (value : Nat) : UInt8 := UInt8.ofNat (if value < 10 then 48 + value else 87 + value)

def hexValue (byte : UInt8) : Option Nat :=
  if 48 ≤ byte ∧ byte ≤ 57 then some (byte.toNat - 48)
  else if 65 ≤ byte ∧ byte ≤ 70 then some (byte.toNat - 55)
  else if 97 ≤ byte ∧ byte ≤ 102 then some (byte.toNat - 87)
  else none

/-- The letter that stands for a byte behind a backslash. -/
def escapeLetter (byte : UInt8) : Option UInt8 :=
  if byte = 34 then some 34
  else if byte = 92 then some 92
  else if byte = 8 then some 98
  else if byte = 12 then some 102
  else if byte = 10 then some 110
  else if byte = 13 then some 114
  else if byte = 9 then some 116
  else none

/-- The quote, the backslash and control bytes are escaped; others are copied. -/
def escapeByte (byte : UInt8) : Bytes :=
  match escapeLetter byte with
  | some letter => [92, letter]
  | none =>
      if byte < 32 then [92, 117, 48, 48, hexDigit (byte.toNat / 16), hexDigit (byte.toNat % 16)]
      else [byte]

def escape (text : Bytes) : Bytes := text.flatMap escapeByte

def writeString (text : Bytes) : Bytes := 34 :: escape text ++ [34]

/-- The UTF-8 bytes of a code point. -/
def utf8 (code : Nat) : Bytes :=
  if code < 0x80 then [UInt8.ofNat code]
  else if code < 0x800 then [UInt8.ofNat (0xC0 + code / 64), UInt8.ofNat (0x80 + code % 64)]
  else if code < 0x10000 then
    [UInt8.ofNat (0xE0 + code / 4096), UInt8.ofNat (0x80 + code / 64 % 64),
      UInt8.ofNat (0x80 + code % 64)]
  else
    [UInt8.ofNat (0xF0 + code / 262144), UInt8.ofNat (0x80 + code / 4096 % 64),
      UInt8.ofNat (0x80 + code / 64 % 64), UInt8.ofNat (0x80 + code % 64)]

def readHex : Bytes → Option (Nat × Bytes)
  | first :: second :: third :: fourth :: rest => do
      let first ← hexValue first
      let second ← hexValue second
      let third ← hexValue third
      let fourth ← hexValue fourth
      return (4096 * first + 256 * second + 16 * third + fourth, rest)
  | _ => none

/-- The bytes of a `\u` escape. A high surrogate needs a low one after it. -/
def readUnicode (input : Bytes) : Option (Bytes × Bytes) := do
  let (code, rest) ← readHex input
  if 0xDC00 ≤ code ∧ code ≤ 0xDFFF then none
  else if 0xD800 ≤ code ∧ code ≤ 0xDBFF then
    match rest with
    | backslash :: letter :: rest =>
        if backslash = 92 ∧ letter = 117 then do
          let (low, rest) ← readHex rest
          if 0xDC00 ≤ low ∧ low ≤ 0xDFFF then
            some (utf8 (0x10000 + 1024 * (code % 1024) + low % 1024), rest)
          else none
        else none
    | _ => none
  else some (utf8 code, rest)

/-- What stands behind a backslash. -/
def readEscape : Bytes → Option (Bytes × Bytes)
  | [] => none
  | letter :: rest =>
      if letter = 34 ∨ letter = 92 ∨ letter = 47 then some ([letter], rest)
      else if letter = 98 then some ([8], rest)
      else if letter = 102 then some ([12], rest)
      else if letter = 110 then some ([10], rest)
      else if letter = 114 then some ([13], rest)
      else if letter = 116 then some ([9], rest)
      else if letter = 117 then readUnicode rest
      else none

/-- A string from behind its opening quote to behind its closing one. Every step
takes a byte, so fuel above the length of the input is enough. -/
def readCharacters : Nat → Bytes → Option (Bytes × Bytes)
  | 0, _ => none
  | _ + 1, [] => none
  | fuel + 1, byte :: rest =>
      if byte = 34 then some ([], rest)
      else do
        let (text, rest) ← if byte = 92 then readEscape rest else some ([byte], rest)
        let (more, rest) ← readCharacters fuel rest
        return (text ++ more, rest)

def readString : Bytes → Option (Bytes × Bytes)
  | [] => none
  | byte :: rest => if byte = 34 then readCharacters (rest.length + 1) rest else none

theorem hexValue_hexDigit : ∀ value < 16, hexValue (hexDigit value) = some value := by decide

theorem readEscape_letter (byte letter : UInt8) (rest : Bytes)
    (short : escapeLetter byte = some letter) :
    readEscape (letter :: rest) = some ([byte], rest) := by
  unfold escapeLetter at short
  repeat' split at short
  all_goals cases short
  all_goals subst_vars
  all_goals rfl

/-- A control byte without a letter is read back from its hexadecimal digits. -/
theorem readEscape_control (byte : UInt8) (rest : Bytes) (control : byte < 32) :
    readEscape
        (117 :: 48 :: 48 :: hexDigit (byte.toNat / 16) :: hexDigit (byte.toNat % 16) :: rest) =
      some ([byte], rest) := by
  have small : byte.toNat < 32 := UInt8.lt_iff_toNat_lt.mp control
  have high := hexValue_hexDigit (byte.toNat / 16) (by omega)
  have low := hexValue_hexDigit (byte.toNat % 16) (by omega)
  have zero : hexValue 48 = some 0 := by decide
  have value : 4096 * 0 + 256 * 0 + 16 * (byte.toNat / 16) + byte.toNat % 16 = byte.toNat := by
    omega
  have ascii : byte.toNat < 0x80 := by omega
  have below : ¬ 0xD800 ≤ byte.toNat ∧ ¬ 0xDC00 ≤ byte.toNat := by omega
  change readUnicode _ = _
  simp only [readUnicode, readHex, high, low, zero, Option.bind_eq_bind, Option.bind_some,
    Option.pure_def, value, below, false_and, ↓reduceIte, utf8, ascii, UInt8.ofNat_toNat]

theorem readCharacters_escapeByte (fuel : Nat) (byte : UInt8) (rest : Bytes) :
    readCharacters (fuel + 1) (escapeByte byte ++ rest) =
      (readCharacters fuel rest).map fun read => (byte :: read.1, read.2) := by
  have finish (read : Option (Bytes × Bytes)) :
      (read.bind fun more => some ([byte] ++ more.1, more.2)) =
        read.map fun more => (byte :: more.1, more.2) := by
    cases read <;> rfl
  rw [← finish]
  unfold escapeByte
  split
  · rename_i letter short
    simp [readCharacters, readEscape_letter byte letter rest short]
  · rename_i copied
    split
    · rename_i control
      simp [readCharacters, readEscape_control byte rest control]
    · have quote : byte ≠ 34 := by
        rintro rfl
        exact absurd copied (by decide)
      have backslash : byte ≠ 92 := by
        rintro rfl
        exact absurd copied (by decide)
      simp [readCharacters, quote, backslash]

theorem readCharacters_escape (text rest : Bytes) (fuel : Nat) (enough : text.length < fuel) :
    readCharacters fuel (escape text ++ 34 :: rest) = some (text, rest) := by
  induction text generalizing fuel with
  | nil =>
      obtain ⟨fuel, rfl⟩ := Nat.exists_eq_succ_of_ne_zero (Nat.ne_of_gt (Nat.zero_lt_of_lt enough))
      rfl
  | cons byte text ih =>
      obtain ⟨fuel, rfl⟩ := Nat.exists_eq_succ_of_ne_zero (Nat.ne_of_gt (Nat.zero_lt_of_lt enough))
      simp only [List.length_cons] at enough
      rw [escape, List.flatMap_cons, List.append_assoc, readCharacters_escapeByte]
      have read := ih fuel (by omega)
      rw [escape] at read
      rw [read, Option.map_some]

theorem length_le_escape (text : Bytes) : text.length ≤ (escape text).length := by
  induction text with
  | nil => exact Nat.le_refl _
  | cons byte text ih =>
      have one : 1 ≤ (escapeByte byte).length := by
        unfold escapeByte
        split
        · simp
        · split <;> simp
      simp only [escape, List.flatMap_cons, List.length_append, List.length_cons] at ih ⊢
      omega

/-- A written string is read back whatever stands behind it. -/
theorem readString_writeString (text rest : Bytes) :
    readString (writeString text ++ rest) = some (text, rest) := by
  have length := length_le_escape text
  simp only [writeString, List.cons_append, List.append_assoc, List.nil_append, readString,
    ↓reduceIte]
  apply readCharacters_escape
  simp only [List.length_append, List.length_cons]
  omega

/- Written texts are C strings. -/

theorem zero_not_mem_decimal (number : Nat) : (0 : UInt8) ∉ decimal number := by
  intro member
  exact absurd (isDigit_of_mem_decimal number 0 member) (by decide)

theorem zero_not_mem_writeInt (value : Int) : (0 : UInt8) ∉ writeInt value := by
  have digits := zero_not_mem_decimal value.natAbs
  unfold writeInt
  split
  · simp [digits]
  · exact digits

theorem hexDigit_ne_zero : ∀ value < 16, hexDigit value ≠ 0 := by decide

theorem zero_not_mem_escapeByte (byte : UInt8) : (0 : UInt8) ∉ escapeByte byte := by
  unfold escapeByte
  split
  · rename_i letter short
    have visible : letter ≠ 0 := by
      rintro rfl
      unfold escapeLetter at short
      repeat' split at short
      all_goals exact absurd short (by decide)
    simp [Ne.symm visible]
  · split
    · rename_i control
      have small : byte.toNat < 32 := UInt8.lt_iff_toNat_lt.mp control
      have high := hexDigit_ne_zero (byte.toNat / 16) (by omega)
      have low := hexDigit_ne_zero (byte.toNat % 16) (by omega)
      simp [Ne.symm high, Ne.symm low]
    · rename_i printable
      have visible : byte ≠ 0 := by
        rintro rfl
        exact printable (by decide)
      simp [Ne.symm visible]

theorem zero_not_mem_writeString (text : Bytes) : (0 : UInt8) ∉ writeString text := by
  have escaped : (0 : UInt8) ∉ escape text := by
    intro member
    obtain ⟨byte, _, inside⟩ := List.mem_flatMap.mp member
    exact zero_not_mem_escapeByte byte inside
  simp [writeString, escaped]

end Json

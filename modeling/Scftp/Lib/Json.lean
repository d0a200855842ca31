import Scftp.Lib.JsonText

set_option autoImplicit false

/- JSON values, written without spaces and read from the front of some bytes. -/

open CString (Bytes Str cstr)

/-- A JSON value. A number is exact; a string ends at its first NUL. -/
inductive Json where
  | null
  | bool (value : Bool)
  | number (value : ℚ)
  | string (text : Str)
  | array (items : List Json)
  | object (members : List (Str × Json))

namespace Json

/-- A number without what stands behind its point. -/
def cut (value : ℚ) : Int := value.num.tdiv value.den

mutual

/-- Numbers are written as integers. -/
def write : Json → Bytes
  | .null => CString.ascii "null"
  | .bool true => CString.ascii "true"
  | .bool false => CString.ascii "false"
  | .number value => writeInt (cut value)
  | .string text => writeString text.bytes
  | .array [] => [91, 93]
  | .array (item :: items) => 91 :: write item ++ writeItems items
  | .object [] => [123, 125]
  | .object ((key, value) :: members) =>
      123 :: writeString key.bytes ++ 58 :: write value ++ writeMembers members

/-- The rest of an array, from the comma or bracket on. -/
def writeItems : List Json → Bytes
  | [] => [93]
  | item :: items => 44 :: write item ++ writeItems items

def writeMembers : List (Str × Json) → Bytes
  | [] => [125]
  | (key, value) :: members =>
      44 :: writeString key.bytes ++ 58 :: write value ++ writeMembers members

end

mutual

/-- All numbers in a value are integers. -/
def Whole : Json → Prop
  | .number value => ∃ whole : Int, value = whole
  | .array items => WholeItems items
  | .object members => WholeMembers members
  | _ => True

def WholeItems : List Json → Prop
  | [] => True
  | item :: items => Whole item ∧ WholeItems items

def WholeMembers : List (Str × Json) → Prop
  | [] => True
  | (_, value) :: members => Whole value ∧ WholeMembers members

end

def skipSpace (input : Bytes) : Bytes := input.dropWhile (· ≤ 32)

/-- A fixed text at the front of the input. -/
def readWord (word : Bytes) (value : Json) (input : Bytes) : Option (Json × Bytes) :=
  if word.isPrefixOf input then some (value, input.drop word.length) else none

/-- A key and its colon. -/
def readKey (input : Bytes) : Option (Str × Bytes) := do
  let (key, rest) ← readString input
  match skipSpace rest with
  | [] => none
  | byte :: rest => if byte = 58 then some (CString.toStr key, skipSpace rest) else none

mutual

/-- The value at the front of the input. Every call takes a byte first, so fuel
above the length of the input is enough. -/
def readValue : Nat → Bytes → Option (Json × Bytes)
  | 0, _ => none
  | _ + 1, [] => none
  | fuel + 1, byte :: rest =>
      if byte = 34 then
        (readString (byte :: rest)).map fun read => (.string (CString.toStr read.1), read.2)
      else if byte = 91 then
        match skipSpace rest with
        | [] => none
        | next :: rest =>
            if next = 93 then some (.array [], rest)
            else do
              let (item, rest) ← readValue fuel (next :: rest)
              let (items, rest) ← readItems fuel (skipSpace rest)
              return (.array (item :: items), rest)
      else if byte = 123 then
        match skipSpace rest with
        | [] => none
        | next :: rest =>
            if next = 125 then some (.object [], rest)
            else do
              let (key, rest) ← readKey (next :: rest)
              let (value, rest) ← readValue fuel rest
              let (members, rest) ← readMembers fuel (skipSpace rest)
              return (.object ((key, value) :: members), rest)
      else if byte = 110 then readWord (CString.ascii "null") .null (byte :: rest)
      else if byte = 116 then readWord (CString.ascii "true") (.bool true) (byte :: rest)
      else if byte = 102 then readWord (CString.ascii "false") (.bool false) (byte :: rest)
      else (readNumber (byte :: rest)).map fun read => (.number read.1, read.2)

def readItems : Nat → Bytes → Option (List Json × Bytes)
  | 0, _ => none
  | _ + 1, [] => none
  | fuel + 1, byte :: rest =>
      if byte = 93 then some ([], rest)
      else if byte = 44 then do
        let (item, rest) ← readValue fuel (skipSpace rest)
        let (items, rest) ← readItems fuel (skipSpace rest)
        return (item :: items, rest)
      else none

def readMembers : Nat → Bytes → Option (List (Str × Json) × Bytes)
  | 0, _ => none
  | _ + 1, [] => none
  | fuel + 1, byte :: rest =>
      if byte = 125 then some ([], rest)
      else if byte = 44 then do
        let (key, rest) ← readKey (skipSpace rest)
        let (value, rest) ← readValue fuel rest
        let (members, rest) ← readMembers fuel (skipSpace rest)
        return ((key, value) :: members, rest)
      else none

end

/-- The first value of a text. What follows it is ignored. -/
def parse (text : Bytes) : Option Json :=
  (readValue (text.length + 1) (skipSpace text)).map Prod.fst

/-- ASCII letters in lower case. -/
def lower (text : Bytes) : Bytes :=
  text.map fun byte => if 65 ≤ byte ∧ byte ≤ 90 then byte + 32 else byte

/-- The first member of an object whose key matches, ignoring case. -/
def getObjectItem (json : Json) (key : Bytes) : Option Json :=
  match json with
  | .object members =>
      (members.find? fun entry => lower entry.1.bytes = lower (cstr key)).map Prod.snd
  | _ => none

/-- The string of a string; NULL for other values. -/
def valuestring : Json → Option Str
  | .string text => some text
  | _ => none

/-- The integer of a number, at the nearest end of the range when outside it. -/
def valueint : Json → Int32
  | .number value => Int32.ofIntClamp (cut value)
  | .bool true => 1
  | _ => 0

@[simp] theorem cut_intCast (value : Int) : cut (value : ℚ) = value := by
  simp [cut]

theorem valueint_toInt (value : Int32) : (Json.number value.toInt).valueint = value := by
  simp only [valueint, cut_intCast, Int32.ofIntClamp_toInt]

mutual

theorem zero_not_mem_write : ∀ json : Json, (0 : UInt8) ∉ json.write
  | .null => by rw [write]; decide
  | .bool true => by rw [write]; decide
  | .bool false => by rw [write]; decide
  | .number value => by rw [write]; exact zero_not_mem_writeInt (cut value)
  | .string text => by rw [write]; exact zero_not_mem_writeString text.bytes
  | .array [] => by rw [write]; decide
  | .array (item :: items) => by
      simp [write, zero_not_mem_write item, zero_not_mem_writeItems items]
  | .object [] => by rw [write]; decide
  | .object ((key, value) :: members) => by
      simp [write, zero_not_mem_writeString key.bytes, zero_not_mem_write value,
        zero_not_mem_writeMembers members]

theorem zero_not_mem_writeItems : ∀ items : List Json, (0 : UInt8) ∉ writeItems items
  | [] => by rw [writeItems]; decide
  | item :: items => by
      simp [writeItems, zero_not_mem_write item, zero_not_mem_writeItems items]

theorem zero_not_mem_writeMembers : ∀ members : List (Str × Json),
    (0 : UInt8) ∉ writeMembers members
  | [] => by rw [writeMembers]; decide
  | (key, value) :: members => by
      simp [writeMembers, zero_not_mem_writeString key.bytes, zero_not_mem_write value,
        zero_not_mem_writeMembers members]

end

/-- A written value starts with a byte that is no space and closes nothing. -/
theorem write_head (json : Json) :
    ∃ byte more, json.write = byte :: more ∧ 32 < byte ∧ byte ≠ 93 ∧ byte ≠ 125 := by
  cases json with
  | null => exact ⟨_, _, rfl, by decide⟩
  | bool value => cases value <;> exact ⟨_, _, rfl, by decide⟩
  | number value =>
      obtain ⟨byte, more, written, head⟩ := writeInt_head (cut value)
      refine ⟨byte, more, by rw [write, written], ?_⟩
      rcases head with rfl | digit
      · decide
      · simp only [CString.isDigit, Bool.and_eq_true, decide_eq_true_eq, UInt8.le_iff_toNat_le]
          at digit
        simp only [UInt8.lt_iff_toNat_lt, ne_eq, ← UInt8.toNat_inj]
        simp at digit ⊢
        omega
  | string text => exact ⟨34, _, by rw [write, writeString, List.cons_append], by decide⟩
  | array items =>
      cases items with
      | nil => exact ⟨91, _, by rw [write], by decide⟩
      | cons item items => exact ⟨91, _, by rw [write, List.cons_append], by decide⟩
  | object members =>
      rcases members with _ | ⟨⟨key, value⟩, members⟩
      · exact ⟨123, _, by rw [write], by decide⟩
      · exact ⟨123, _, by rw [write, List.cons_append, List.cons_append], by decide⟩

/-- No space is skipped where a byte above 32 stands. -/
theorem skipSpace_cons (byte : UInt8) (rest : Bytes) (visible : 32 < byte) :
    skipSpace (byte :: rest) = byte :: rest := by
  have shown : ¬ byte ≤ 32 := by
    rw [UInt8.le_iff_toNat_le]
    rw [UInt8.lt_iff_toNat_lt] at visible
    omega
  simp [skipSpace, shown]

theorem skipSpace_write (json : Json) (rest : Bytes) :
    skipSpace (json.write ++ rest) = json.write ++ rest := by
  obtain ⟨byte, more, written, visible, _⟩ := write_head json
  rw [written]
  exact skipSpace_cons byte _ visible

theorem skipSpace_writeItems (items : List Json) (rest : Bytes) :
    skipSpace (writeItems items ++ rest) = writeItems items ++ rest := by
  cases items with
  | nil => exact skipSpace_cons 93 _ (by decide)
  | cons item items =>
      rw [writeItems]
      exact skipSpace_cons 44 _ (by decide)

theorem skipSpace_writeMembers (members : List (Str × Json)) (rest : Bytes) :
    skipSpace (writeMembers members ++ rest) = writeMembers members ++ rest := by
  rcases members with _ | ⟨⟨key, value⟩, members⟩
  · exact skipSpace_cons 125 _ (by decide)
  · rw [writeMembers]
    exact skipSpace_cons 44 _ (by decide)

theorem delimited_writeItems (items : List Json) (rest : Bytes) :
    Delimited (writeItems items ++ rest) := by
  rintro byte more same
  cases items with
  | nil =>
      cases same
      decide
  | cons item items =>
      rw [writeItems] at same
      cases same
      decide

theorem delimited_writeMembers (members : List (Str × Json)) (rest : Bytes) :
    Delimited (writeMembers members ++ rest) := by
  rintro byte more same
  rcases members with _ | ⟨⟨key, value⟩, members⟩
  · cases same
    decide
  · rw [writeMembers] at same
    cases same
    decide

/-- A written key is read back with its colon. -/
theorem readKey_write (key : Str) (value : Json) (rest : Bytes) :
    readKey (writeString key.bytes ++ 58 :: (value.write ++ rest)) =
      some (key, value.write ++ rest) := by
  simp only [readKey, readString_writeString, Option.bind_eq_bind, Option.bind_some,
    skipSpace_cons 58 _ (by decide), ↓reduceIte, skipSpace_write, CString.toStr_of_noNul]

/-- The bytes behind a value do not go on with it. Only a number needs this. -/
def Ends (rest : Bytes) : Json → Prop
  | .number _ => Delimited rest
  | _ => True

theorem ends_of_delimited {rest : Bytes} (delimited : Delimited rest) (json : Json) :
    json.Ends rest := by
  cases json with
  | number value => exact delimited
  | _ => trivial

/-- A value that begins like a number is read as one. -/
theorem readValue_number (fuel : Nat) (byte : UInt8) (rest : Bytes)
    (head : byte = 45 ∨ CString.isDigit byte = true) :
    readValue (fuel + 1) (byte :: rest) =
      (readNumber (byte :: rest)).map fun read => (.number read.1, read.2) := by
  have others : byte ≠ 34 ∧ byte ≠ 91 ∧ byte ≠ 123 ∧ byte ≠ 110 ∧ byte ≠ 116 ∧ byte ≠ 102 := by
    refine ⟨?_, ?_, ?_, ?_, ?_, ?_⟩ <;>
      · rintro rfl
        exact absurd head (by decide)
  simp only [readValue, others, ↓reduceIte]

theorem readValue_writeInt (fuel : Nat) (value : Int) (rest : Bytes) (delimited : Delimited rest) :
    readValue (fuel + 1) (writeInt value ++ rest) = some (.number (value : ℚ), rest) := by
  have number := readNumber_writeInt value rest delimited
  obtain ⟨byte, more, written, head⟩ := writeInt_head value
  rw [written, List.cons_append] at number ⊢
  rw [readValue_number fuel byte _ head, number, Option.map_some]

mutual

/-- A written value is read back whatever stands behind it, if it ends there. -/
theorem readValue_write : ∀ (json : Json) (fuel : Nat) (rest : Bytes),
    json.Whole → json.write.length ≤ fuel → json.Ends rest →
      readValue fuel (json.write ++ rest) = some (json, rest)
  | json, 0, rest, whole, enough, ends => by
      obtain ⟨byte, more, written, _⟩ := write_head json
      rw [written] at enough
      simp at enough
  | .null, fuel + 1, rest, whole, enough, ends => by
      simp [write, readValue, readWord, CString.ascii]
  | .bool value, fuel + 1, rest, whole, enough, ends => by
      cases value <;> simp [write, readValue, readWord, CString.ascii]
  | .number value, fuel + 1, rest, whole, enough, ends => by
      rw [Whole] at whole
      obtain ⟨number, rfl⟩ := whole
      rw [write, cut_intCast]
      exact readValue_writeInt fuel number rest ends
  | .string text, fuel + 1, rest, whole, enough, ends => by
      have read := readString_writeString text.bytes rest
      rw [writeString, List.cons_append, List.cons_append] at read
      rw [write, writeString, List.cons_append, List.cons_append, readValue, if_pos rfl, read,
        Option.map_some, CString.toStr_of_noNul]
  | .array [], fuel + 1, rest, whole, enough, ends => by
      simp [write, readValue, skipSpace_cons 93 rest (by decide)]
  | .array (item :: items), fuel + 1, rest, whole, enough, ends => by
      simp only [Whole, WholeItems] at whole
      simp only [write, List.cons_append, List.length_cons, List.length_append] at enough
      have first := readValue_write item fuel (writeItems items ++ rest) whole.1 (by omega)
        (ends_of_delimited (delimited_writeItems items rest) item)
      have others := readItems_write items fuel rest whole.2 (by omega)
      obtain ⟨byte, more, written, visible, opened, _⟩ := write_head item
      rw [written, List.cons_append] at first
      simp only [write, List.cons_append, List.append_assoc, readValue, written,
        skipSpace_cons byte _ visible, opened, ↓reduceIte, first, skipSpace_writeItems, others,
        Option.bind_eq_bind, Option.bind_some, Option.pure_def]
      simp
  | .object [], fuel + 1, rest, whole, enough, ends => by
      simp [write, readValue, skipSpace_cons 125 rest (by decide)]
  | .object ((key, value) :: members), fuel + 1, rest, whole, enough, ends => by
      simp only [Whole, WholeMembers] at whole
      simp only [write, List.cons_append, List.length_cons, List.length_append] at enough
      have first := readValue_write value fuel (writeMembers members ++ rest) whole.1 (by omega)
        (ends_of_delimited (delimited_writeMembers members rest) value)
      have others := readMembers_write members fuel rest whole.2 (by omega)
      have named := readKey_write key value (writeMembers members ++ rest)
      rw [writeString, List.cons_append, List.cons_append] at named
      simp only [write, writeString, List.cons_append, List.append_assoc] at named ⊢
      simp only [readValue, skipSpace_cons 34 _ (by decide), named, first, skipSpace_writeMembers,
        others, Option.bind_eq_bind, Option.bind_some, Option.pure_def]
      simp

theorem readItems_write : ∀ (items : List Json) (fuel : Nat) (rest : Bytes),
    WholeItems items → (writeItems items).length ≤ fuel →
      readItems fuel (writeItems items ++ rest) = some (items, rest)
  | [], 0, rest, whole, enough => by simp [writeItems] at enough
  | _ :: _, 0, rest, whole, enough => by simp [writeItems] at enough
  | [], fuel + 1, rest, whole, enough => by simp [writeItems, readItems]
  | item :: items, fuel + 1, rest, whole, enough => by
      rw [WholeItems] at whole
      simp only [writeItems, List.cons_append, List.length_cons, List.length_append] at enough
      have first := readValue_write item fuel (writeItems items ++ rest) whole.1 (by omega)
        (ends_of_delimited (delimited_writeItems items rest) item)
      have others := readItems_write items fuel rest whole.2 (by omega)
      simp only [writeItems, List.cons_append, List.append_assoc, readItems, skipSpace_write,
        first, skipSpace_writeItems, others, Option.bind_eq_bind, Option.bind_some, Option.pure_def]
      simp

theorem readMembers_write : ∀ (members : List (Str × Json)) (fuel : Nat) (rest : Bytes),
    WholeMembers members → (writeMembers members).length ≤ fuel →
      readMembers fuel (writeMembers members ++ rest) = some (members, rest)
  | [], 0, rest, whole, enough => by simp [writeMembers] at enough
  | _ :: _, 0, rest, whole, enough => by simp [writeMembers] at enough
  | [], fuel + 1, rest, whole, enough => by simp [writeMembers, readMembers]
  | (key, value) :: members, fuel + 1, rest, whole, enough => by
      rw [WholeMembers] at whole
      simp only [writeMembers, List.cons_append, List.length_cons, List.length_append] at enough
      have first := readValue_write value fuel (writeMembers members ++ rest) whole.1 (by omega)
        (ends_of_delimited (delimited_writeMembers members rest) value)
      have others := readMembers_write members fuel rest whole.2 (by omega)
      have named := readKey_write key value (writeMembers members ++ rest)
      have visible : skipSpace (writeString key.bytes ++ 58 :: (value.write ++
          (writeMembers members ++ rest))) = writeString key.bytes ++ 58 :: (value.write ++
          (writeMembers members ++ rest)) := skipSpace_cons 34 _ (by decide)
      simp only [writeMembers, List.cons_append, List.append_assoc, readMembers, visible, named,
        first, skipSpace_writeMembers, others, Option.bind_eq_bind, Option.bind_some,
        Option.pure_def]
      simp

end

/-- A written value that its own text ends is parsed from the front of any text. -/
theorem parse_write (json : Json) (rest : Bytes) (whole : json.Whole) (ends : json.Ends rest) :
    parse (json.write ++ rest) = some json := by
  have enough : json.write.length ≤ (json.write ++ rest).length + 1 := by
    simp only [List.length_append]
    omega
  rw [parse, skipSpace_write, readValue_write json _ rest whole enough ends, Option.map_some]

end Json

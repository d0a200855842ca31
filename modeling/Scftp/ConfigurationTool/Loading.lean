import Scftp.ConfigurationTool.Main
import Scftp.Lib.JsonPrefix

set_option autoImplicit false

/- Reading files that the tool did not write: files that break the reader, and
files that are not all there, where it reads on into the heap. -/
namespace Scftp.ConfigurationTool

open CString Machine Stdin

/-- The keys of the numbers in the configuration file. -/
def numberKeys : List String :=
  ["port", "encryption", "max connections", "authentication", "buffer size"]

/-- An item is a string that fits an array. -/
def FitsArray (size : Nat) (item : Option Json) : Prop :=
  ∃ text, item = some (.string text) ∧ text.bytes.length < size

/-- A value that `JsonToScftpStruct` can take apart: it has all seven keys, and the
name and the root are strings that fit their arrays. -/
structure Loadable (json : Json) : Prop where
  name : FitsArray 64 (json.getObjectItem (ascii "name"))
  root : FitsArray 128 (json.getObjectItem (ascii "root"))
  numbers : ∀ key ∈ numberKeys, ∃ item, json.getObjectItem (ascii key) = some item

theorem getItem_ok (json : Json) (key : String) (item : Json) :
    getItem (some json) key = .ok item ↔ json.getObjectItem (ascii key) = some item := by
  rw [getItem, Option.bind_some]
  cases json.getObjectItem (ascii key) with
  | none => simp
  | some found => simp

theorem copyString_ok (size : Nat) (item : Json) :
    (∃ array, copyString size item = .ok array) ↔
      ∃ text, item = .string text ∧ text.bytes.length < size := by
  rw [copyString]
  cases item with
  | string text =>
      have visible := cstr_of_noNul text.bytes text.noNul
      by_cases fits : text.bytes.length < size
      · have room : (cstr text.bytes).length < size := by rwa [visible]
        simp only [Json.valuestring, strcpy, dif_pos room]
        exact iff_of_true ⟨_, rfl⟩ ⟨text, rfl, fits⟩
      · have full : ¬ (cstr text.bytes).length < size := by rwa [visible]
        simp only [Json.valuestring, strcpy, dif_neg full]
        apply iff_of_false
        · rintro ⟨array, impossible⟩
          cases impossible
        · rintro ⟨other, same, short⟩
          cases same
          exact fits short
  | _ => simp [Json.valuestring]

theorem bind_ok {ε α β : Type} (first : Except ε α) (next : α → Except ε β) (result : β) :
    (first >>= next) = .ok result ↔ ∃ value, first = .ok value ∧ next value = .ok result := by
  cases first with
  | error fault => exact iff_of_false (fun impossible => by cases impossible) (by simp)
  | ok value => simp [bind, Except.bind]

theorem jsonToScftpStruct_ok (jData : Option Json) :
    (∃ pData, jsonToScftpStruct jData = .ok pData) ↔ ∃ json, jData = some json ∧ Loadable json := by
  cases jData with
  | none =>
      apply iff_of_false
      · rintro ⟨pData, impossible⟩
        cases impossible
      · rintro ⟨json, impossible, _⟩
        cases impossible
  | some json =>
      simp only [jsonToScftpStruct, bind_ok, getItem_ok, Option.some.injEq, exists_eq_left']
      constructor
      · rintro ⟨pData, nameItem, named, name, nameCopied, rootItem, rooted, root, rootCopied,
          port, ported, encryption, encrypted, connections, connected, authentication,
          authenticated, size, sized, _⟩
        refine ⟨?_, ?_, ?_⟩
        · obtain ⟨text, rfl, fits⟩ := (copyString_ok 64 nameItem).mp ⟨name, nameCopied⟩
          exact ⟨text, named, fits⟩
        · obtain ⟨text, rfl, fits⟩ := (copyString_ok 128 rootItem).mp ⟨root, rootCopied⟩
          exact ⟨text, rooted, fits⟩
        · simp only [numberKeys, List.mem_cons, List.not_mem_nil, or_false, forall_eq_or_imp,
            forall_eq]
          exact ⟨⟨_, ported⟩, ⟨_, encrypted⟩, ⟨_, connected⟩, ⟨_, authenticated⟩, ⟨_, sized⟩⟩
      · rintro ⟨⟨name, named, nameFits⟩, ⟨root, rooted, rootFits⟩, numbers⟩
        simp only [numberKeys, List.mem_cons, List.not_mem_nil, or_false, forall_eq_or_imp,
          forall_eq] at numbers
        obtain ⟨⟨_, ported⟩, ⟨_, encrypted⟩, ⟨_, connected⟩, ⟨_, authenticated⟩, ⟨_, sized⟩⟩ :=
          numbers
        obtain ⟨nameArray, nameCopied⟩ := (copyString_ok 64 _).mpr ⟨name, rfl, nameFits⟩
        obtain ⟨rootArray, rootCopied⟩ := (copyString_ok 128 _).mpr ⟨root, rfl, rootFits⟩
        exact ⟨_, _, named, _, nameCopied, _, rooted, _, rootCopied, _, ported, _, encrypted, _,
          connected, _, authenticated, _, sized, rfl⟩

/-- A file loads exactly when the text the parser sees, with what stands behind
the content, begins with such a value. -/
theorem load_ok (file : Option Bytes) (residue : Bytes) :
    (∃ pData, load file residue = .ok pData) ↔
      ∃ content json, file = some content ∧
        Json.parse (cstr (content ++ residue)) = some json ∧ Loadable json := by
  rw [load, jsonToScftpStruct_ok]
  simp only [readToJson, Option.bind_eq_bind, Option.bind_eq_some_iff]
  constructor
  · rintro ⟨json, ⟨content, same, parsed⟩, loadable⟩
    exact ⟨content, json, same, parsed, loadable⟩
  · rintro ⟨content, json, same, parsed, loadable⟩
    exact ⟨json, ⟨content, same, parsed⟩, loadable⟩

/-- Whatever the file holds: reading it dereferences no NULL and copies no more
than fits, on its own and in `print` and `update`, exactly when what the parser
sees begins with an object that has the seven keys, two of them with strings that
fit. -/
theorem load_safe_iff (file : Option Bytes) (residue : Bytes) :
    ((∃ pData, load file residue = .ok pData) ↔
        ∃ content json, file = some content ∧
          Json.parse (cstr (content ++ residue)) = some json ∧ Loadable json) ∧
      ∀ (env : Env) (tool : Tool), tool.file = file → env.residue = residue →
        tool.update = none →
        strcmp tool.command (ascii "print\n") = true ∨
          strcmp tool.command (ascii "update\n") = true →
        (toolStep env tool ≠ .fault ↔
          ∃ content json, file = some content ∧
            Json.parse (cstr (content ++ residue)) = some json ∧ Loadable json) := by
  refine ⟨load_ok file residue, ?_⟩
  rintro env tool rfl rfl idle named
  rw [toolStep_fault_iff idle named, load_ok]

/-- A file that is no JSON, and one that lacks the keys, break the reader. -/
theorem load_unsafe :
    load (some (ascii "name")) [] = .error .nullItem ∧
      load (some (ascii "\x7b\x7d")) [] = .error .nullItem ∧
      load (some (ascii "\x7b\"name\":null\x7d")) [] = .error .nullString := by
  exact ⟨rfl, rfl, rfl⟩

/-- What is read depends on the file alone exactly when the content begins with a
complete value, or with none whatever stands behind it. -/
theorem readToJson_file_alone_iff (content : Str) :
    (∀ residue other,
        readToJson (some content.bytes) residue = readToJson (some content.bytes) other) ↔
      Json.Complete content.bytes ∨
        ∀ more : Str, Json.parse (content.bytes ++ more.bytes) = none := by
  have seen (residue : Bytes) : readToJson (some content.bytes) residue =
      Json.parse (content.bytes ++ cstr residue) := by
    simp only [readToJson, Option.bind_eq_bind, Option.bind_some,
      cstr_append content.bytes residue content.noNul]
  constructor
  · intro alone
    by_contra neither
    obtain ⟨incomplete, hopeful⟩ := not_or.mp neither
    obtain ⟨more, completed⟩ := not_forall.mp hopeful
    obtain ⟨json, parsed⟩ := Option.ne_none_iff_exists'.mp completed
    have bare := alone more.bytes []
    rw [seen, seen, cstr_of_noNul more.bytes more.noNul, parsed] at bare
    simp only [cstr, List.takeWhile_nil, List.append_nil] at bare
    -- the content has a value of its own, so it can only be a number that goes on
    have opened : Json.openNumber (Json.skipSpace content.bytes) = true := by
      by_contra closed
      exact incomplete ⟨⟨json, bare.symm⟩, by simpa using closed⟩
    obtain ⟨other, longer, changed⟩ := Json.parse_append_of_open bare.symm opened
    have digit := alone [49] []
    rw [seen, seen, show cstr [49] = [49] by decide, longer] at digit
    simp only [cstr, List.takeWhile_nil, List.append_nil, ← bare] at digit
    exact changed (Option.some.inj digit)
  · intro either residue other
    rw [seen, seen]
    rcases either with ⟨⟨json, parsed⟩, closed⟩ | hopeless
    · rw [Json.parse_append_of_closed parsed closed, Json.parse_append_of_closed parsed closed]
    · have first := hopeless (toStr residue)
      have second := hopeless (toStr other)
      rw [toStr_bytes] at first second
      rw [first, second]

theorem residue_completes :
    readToJson (some (ascii "\x7b\"name\":\"a\"")) [] = none ∧
      readToJson (some (ascii "\x7b\"name\":\"a\"")) (ascii "\x7d") =
        some (.object [stringMember "name" (toStr (ascii "a"))]) := by
  exact ⟨rfl, rfl⟩

end Scftp.ConfigurationTool

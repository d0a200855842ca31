import Scftp.ConfigurationTool.Sessions
import Scftp.Lib.JsonPrefix

set_option autoImplicit false

/- Saving the configuration, and saving that stops on the way. The file is emptied
before anything is written to it, and no result is looked at. -/
namespace Scftp.ConfigurationTool

open CString Machine Stdin

/-- What saving does to the file, effect by effect. -/
inductive Effect where
  /-- `fopen` with mode `w`. -/
  | truncate
  /-- A byte of `fputs` that reaches the file. -/
  | append (byte : UInt8)

def Effect.apply (file : Option Bytes) : Effect → Option Bytes
  | .truncate => some []
  | .append byte => some (file.getD [] ++ [byte])

/-- `fopen`, `fputs` and `fclose` on a text. -/
def saveEffects (text : Bytes) : List Effect := .truncate :: text.map .append

/-- The file when saving stops after some of its effects. With none of them `fopen`
has failed, or was not reached. -/
def saveStopped (text : Bytes) (effects : Nat) (previous : Option Bytes) : Option Bytes :=
  ((saveEffects text).take effects).foldl Effect.apply previous

/-- The file holds the whole of its previous content or of the new text, and
loads if it did before. -/
structure Intact (previous : Option Bytes) (text : Bytes) (file : Option Bytes) : Prop where
  whole : file = previous ∨ file = some text
  loads : (∃ pData, Loads previous pData) → ∃ pData, Loads file pData

/-- Saving stopped before it began or after it was done, or has so far written
what the file held anyway. -/
def Harmless (previous : Option Bytes) (text : Bytes) (effects : Nat) : Prop :=
  effects = 0 ∨ text.length < effects ∨ previous = some (text.take (effects - 1))

theorem saveStopped_zero (text : Bytes) (previous : Option Bytes) :
    saveStopped text 0 previous = previous := rfl

theorem saveStopped_succ (text : Bytes) (effects : Nat) (previous : Option Bytes) :
    saveStopped text (effects + 1) previous = some (text.take effects) := by
  have appended (rest front : Bytes) :
      (rest.map Effect.append).foldl Effect.apply (some front) = some (front ++ rest) := by
    induction rest generalizing front with
    | nil => simp
    | cons byte rest ih =>
        rw [List.map_cons, List.foldl_cons, Effect.apply, Option.getD_some, ih,
          List.append_assoc]
        rfl
  rw [saveStopped, saveEffects, List.take_succ_cons, List.foldl_cons, Effect.apply, ← List.map_take,
    appended, List.nil_append]

/-- Saving that runs to its end is the write back of `update`, and saving that
cannot open the file is its failure. -/
theorem bufferSizeStep_saves (env : Env) (tool : Tool) (update : Update) (after : Tool)
    (stepped : bufferSizeStep env tool update = .next after) (ended : after.update = none) :
    ∃ pData : ScftpData, after.file = saveStopped pData.saved
      (if env.fopen then pData.saved.length + 1 else 0) tool.file := by
  unfold bufferSizeStep at stepped
  dsimp only at stepped
  split at stepped
  · cases stepped
    cases ended
  · cases stepped
    refine ⟨{ update.pData with
      bufferSize := if 512 < (env.scanf tool.stdin).1.getD 0 then 512
        else (env.scanf tool.stdin).1.getD 0 }, ?_⟩
    cases env.fopen with
    | true => simp only [↓reduceIte, saveStopped_succ, List.take_length]
    | false => rfl

theorem not_loads_truncated (pData : ScftpData) (length : Nat)
    (short : length < pData.saved.length) (other : ScftpData) :
    ¬ Loads (some (pData.saved.take length)) other := by
  intro loads
  have clean := Json.zero_not_mem_write pData.handle
  have text : pData.saved = pData.handle.write := cstr_of_noNul _ clean
  have cut : pData.saved.drop length ≠ [] := by
    intro nothing
    have empty := congrArg List.length nothing
    rw [List.length_drop, List.length_nil] at empty
    omega
  have nothing : Json.parse (pData.saved.take length) = none :=
    Json.parse_truncated (whole_handle pData)
      (text.symm.trans (List.take_append_drop length pData.saved).symm) cut
  have visible : cstr (pData.saved.take length) = pData.saved.take length := by
    apply cstr_of_noNul
    intro member
    rw [text] at member
    exact clean (List.mem_of_mem_take member)
  have bare := loads []
  simp only [load, readToJson, Option.bind_eq_bind, Option.bind_some, List.append_nil, visible,
    nothing] at bare
  cases bare

theorem intact_iff (pData : ScftpData) (previous : Option Bytes) (effects : Nat) :
    Intact previous pData.saved (saveStopped pData.saved effects previous) ↔
      Harmless previous pData.saved effects := by
  cases effects with
  | zero =>
      rw [saveStopped_zero]
      exact iff_of_true ⟨Or.inl rfl, id⟩ (Or.inl rfl)
  | succ effects =>
      rw [saveStopped_succ]
      by_cases done : pData.saved.length ≤ effects
      · rw [List.take_of_length_le done]
        exact iff_of_true ⟨Or.inr rfl, fun _ => ⟨pData, loads_saved pData⟩⟩
          (Or.inr (Or.inl (Nat.lt_succ_of_le done)))
      · have other : some (pData.saved.take effects) ≠ some pData.saved := by
          intro same
          have lengths := congrArg List.length (Option.some.inj same)
          rw [List.length_take] at lengths
          omega
        constructor
        · intro intact
          exact Or.inr (Or.inr (intact.whole.resolve_right other).symm)
        · rintro (impossible | late | same)
          · cases impossible
          · omega
          · rw [Nat.add_sub_cancel] at same
            rw [same]
            exact ⟨Or.inl rfl, id⟩

/-- Whatever the file held, whatever is saved and wherever saving stops, in
`update` and in the writer of the defaults: the file keeps its previous content or
has the whole new text exactly when saving stopped before its first effect or
after its last, or had come to what the file held. In between it does not load. -/
theorem save_intact_iff (previous : Option Bytes) (effects : Nat) :
    (∀ pData : ScftpData,
      (Intact previous pData.saved (saveStopped pData.saved effects previous) ↔
        Harmless previous pData.saved effects) ∧
      (0 < effects → effects ≤ pData.saved.length →
        ∀ other, ¬ Loads (saveStopped pData.saved effects previous) other)) ∧
    ∀ root : CharArray 128,
      (Intact previous (createDefaultConfigFile root)
          (saveStopped (createDefaultConfigFile root) effects previous) ↔
        Harmless previous (createDefaultConfigFile root) effects) ∧
      (0 < effects → effects ≤ (createDefaultConfigFile root).length →
        ∀ other, ¬ Loads (saveStopped (createDefaultConfigFile root) effects previous) other) := by
  have each (pData : ScftpData) :
      (Intact previous pData.saved (saveStopped pData.saved effects previous) ↔
        Harmless previous pData.saved effects) ∧
      (0 < effects → effects ≤ pData.saved.length →
        ∀ other, ¬ Loads (saveStopped pData.saved effects previous) other) := by
    refine ⟨intact_iff pData previous effects, ?_⟩
    intro begun unfinished other
    obtain ⟨written, rfl⟩ : ∃ written, effects = written + 1 := ⟨effects - 1, by omega⟩
    rw [saveStopped_succ]
    exact not_loads_truncated pData written unfinished other
  refine ⟨each, ?_⟩
  intro root
  rw [createDefaultConfigFile_eq_saved]
  exact each (ScftpData.default root)

/-- The defaults are saved over themselves. When saving stops behind the opening
of the file, nothing is left, and nothing loads. -/
theorem save_loses_config :
    Loads (some (ScftpData.default sampleRoot).saved) (.default sampleRoot) ∧
      saveStopped (ScftpData.default sampleRoot).saved 1
        (some (ScftpData.default sampleRoot).saved) = some [] ∧
      load (some []) [] = .error .nullItem ∧
      ¬ Intact (some (ScftpData.default sampleRoot).saved) (ScftpData.default sampleRoot).saved
        (some []) := by
  have loads := loads_saved (ScftpData.default sampleRoot)
  refine ⟨loads, rfl, rfl, ?_⟩
  intro intact
  obtain ⟨other, again⟩ := intact.loads ⟨_, loads⟩
  have impossible := again []
  cases impossible

end Scftp.ConfigurationTool

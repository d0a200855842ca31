import Scftp.ConfigurationTool.Processes

set_option autoImplicit false

/- The configuration file between the calls of any number of tools. -/
namespace Scftp.ConfigurationTool

open CString Interleaving Program Program.Prog

abbrev FileProc := Proc FileCall (Except Fault ScftpData) SystemCall Handed

/-- Tools on one file. A client may be any program that loads and saves. -/
abbrev Tools (ι : Type) :=
  Config ι FileCall (Except Fault ScftpData) SystemCall Handed SharedFile

/-- What is left of `ReadToJson` and `JsonToScftpStruct` when the size is known. -/
def FileCall.reading (residue : Bytes) (size : Nat) :
    Prog SystemCall Handed (Except Fault ScftpData) :=
  .call (.fread size) fun read => .done (ConfigurationTool.load (some read.bytes) residue)

/-- What is left of `JsonToFile` when the file is open, and empty. -/
def FileCall.writing (pData : ScftpData) : Prog SystemCall Handed (Except Fault ScftpData) :=
  .call (.fclose pData) fun _ => .done (.ok pData)

/-- Between the two calls of a load. -/
def Reading : FileProc → Prop
  | .inside _ (.call (.fread _) _) _ => True
  | _ => False

/-- Between the two calls of a save. -/
def Saving : FileProc → Prop
  | .inside _ (.call (.fclose _) _) _ => True
  | _ => False

/-- The places inside a call on the file. -/
inductive Within : FileCall → Prog SystemCall Handed (Except Fault ScftpData) → Prop where
  | opening (residue : Bytes) : Within (.load residue) (FileCall.load residue).body
  | reading (residue : Bytes) (size : Nat) : Within (.load residue) (FileCall.reading residue size)
  | loaded (residue : Bytes) (result : Except Fault ScftpData) :
      Within (.load residue) (.done result)
  | emptying (pData : ScftpData) (fopen : Bool) :
      Within (.jsonToFile pData fopen) (FileCall.jsonToFile pData fopen).body
  | writing (pData : ScftpData) : Within (.jsonToFile pData true) (FileCall.writing pData)
  | saved (pData : ScftpData) (fopen : Bool) :
      Within (.jsonToFile pData fopen) (.done (.ok pData))

theorem load_body (residue : Bytes) :
    (FileCall.load residue).body = .call .ftell fun opened =>
      match opened.size with
      | none => .done (ConfigurationTool.load none residue)
      | some size => FileCall.reading residue size := rfl

theorem jsonToFile_body (pData : ScftpData) (fopen : Bool) :
    (FileCall.jsonToFile pData fopen).body = .call (.fopen fopen) fun _ =>
      if fopen then FileCall.writing pData else .done (.ok pData) := rfl

theorem within_of_stage {call : FileCall} {left : Prog SystemCall Handed (Except Fault ScftpData)}
    (stage : Stage FileCall.body call left) : Within call left := by
  induction stage with
  | start =>
      cases call with
      | load residue => exact .opening residue
      | jsonToFile pData fopen => exact .emptying pData fopen
  | later sub answered result before ih =>
      generalize same : Prog.call sub answered = place at ih
      cases ih with
      | opening residue =>
          rw [load_body] at same
          obtain ⟨rfl, rfl⟩ := Prog.call.inj same
          dsimp only
          cases result.size with
          | none => exact .loaded residue _
          | some size => exact .reading residue size
      | reading residue size =>
          obtain ⟨rfl, rfl⟩ := Prog.call.inj same
          exact .loaded residue _
      | loaded residue result => cases same
      | emptying pData fopen =>
          rw [jsonToFile_body] at same
          obtain ⟨rfl, rfl⟩ := Prog.call.inj same
          cases fopen with
          | true => exact .writing pData
          | false => exact .saved pData false
      | writing pData =>
          obtain ⟨rfl, rfl⟩ := Prog.call.inj same
          exact .saved pData true
      | saved pData fopen => cases same

section Turns

variable {ι : Type} [DecidableEq ι]

/-- Some tools start on a file. -/
def Tools.start (content : Option Bytes) (pData : ScftpData)
    (clients : ι → Prog FileCall (Except Fault ScftpData) Unit) : Tools ι :=
  Config.initial ⟨content, pData⟩ clients

def Tools.step (config : Tools ι) (i : ι) : Tools ι :=
  Interleaving.step FileCall.body SystemCall.answer config i

def Tools.run (config : Tools ι) (schedule : List ι) : Tools ι :=
  Interleaving.run FileCall.body SystemCall.answer config schedule

/-- A tool goes on, and the file with it. -/
def Tools.moved (config : Tools ι) (i : ι) (proc : FileProc) (file : SharedFile) : Tools ι :=
  ⟨file, Function.update config.procs i proc, config.returned⟩

/-- All that a turn can do. -/
inductive Turn (config : Tools ι) (i : ι) : Tools ι → Prop where
  | rests (before : config.procs i = .ready (.done ())) : Turn config i config
  | begins (call : FileCall) (next : Except Fault ScftpData → Prog FileCall _ Unit)
      (before : config.procs i = .ready (.call call next)) :
      Turn config i (config.moved i (.inside call call.body next) config.shared)
  | missing (residue : Bytes) (next : Except Fault ScftpData → Prog FileCall _ Unit)
      (before : config.procs i = .inside (.load residue) (FileCall.load residue).body next)
      (absent : config.shared.content = none) :
      Turn config i (config.moved i
        (.inside (.load residue) (.done (ConfigurationTool.load none residue)) next) config.shared)
  | measures (residue content : Bytes) (next : Except Fault ScftpData → Prog FileCall _ Unit)
      (before : config.procs i = .inside (.load residue) (FileCall.load residue).body next)
      (held : config.shared.content = some content) :
      Turn config i (config.moved i
        (.inside (.load residue) (FileCall.reading residue content.length) next) config.shared)
  | reads (residue : Bytes) (size : Nat) (next : Except Fault ScftpData → Prog FileCall _ Unit)
      (before : config.procs i = .inside (.load residue) (FileCall.reading residue size) next) :
      Turn config i (config.moved i
        (.inside (.load residue) (.done (ConfigurationTool.load
          (some ((config.shared.content.getD []).take size)) residue)) next) config.shared)
  | empties (pData : ScftpData) (next : Except Fault ScftpData → Prog FileCall _ Unit)
      (before : config.procs i =
        .inside (.jsonToFile pData true) (FileCall.jsonToFile pData true).body next) :
      Turn config i (config.moved i (.inside (.jsonToFile pData true) (FileCall.writing pData) next)
        { config.shared with content := some [] })
  | refused (pData : ScftpData) (next : Except Fault ScftpData → Prog FileCall _ Unit)
      (before : config.procs i =
        .inside (.jsonToFile pData false) (FileCall.jsonToFile pData false).body next) :
      Turn config i (config.moved i (.inside (.jsonToFile pData false) (.done (.ok pData)) next)
        config.shared)
  | writes (pData : ScftpData) (next : Except Fault ScftpData → Prog FileCall _ Unit)
      (before : config.procs i = .inside (.jsonToFile pData true) (FileCall.writing pData) next) :
      Turn config i (config.moved i (.inside (.jsonToFile pData true) (.done (.ok pData)) next)
        ⟨some (overwrite pData.saved (config.shared.content.getD [])), pData⟩)
  | returns (call : FileCall) (result : Except Fault ScftpData)
      (next : Except Fault ScftpData → Prog FileCall _ Unit)
      (before : config.procs i = .inside call (.done result) next)
      (within : Within call (.done result)) :
      Turn config i { config.moved i (.ready (next result)) config.shared with
        returned := config.returned ++ [(i, call, result)] }

/-- What a turn does, told by where its tool within. -/
theorem turn_step (config : Tools ι) (i : ι) (staged : Staged FileCall.body config) :
    Turn config i (config.step i) := by
  unfold Tools.step Interleaving.step
  split
  · rename_i value before
    exact .rests before
  · rename_i call next before
    exact .begins call next before
  · rename_i call sub answered next before
    have within := within_of_stage (staged i call _ next before)
    generalize same : Prog.call sub answered = place at within
    cases within with
    | opening residue =>
        rw [same] at before
        rw [load_body] at same
        obtain ⟨rfl, rfl⟩ := Prog.call.inj same
        cases held : config.shared.content with
        | none =>
            simp only [SystemCall.answer, held, Option.map_none]
            exact .missing residue next before held
        | some content =>
            simp only [SystemCall.answer, held, Option.map_some]
            exact .measures residue content next before held
    | reading residue size =>
        rw [same] at before
        obtain ⟨rfl, rfl⟩ := Prog.call.inj same
        exact .reads residue size next before
    | loaded residue result => cases same
    | emptying pData fopen =>
        rw [same] at before
        rw [jsonToFile_body] at same
        obtain ⟨rfl, rfl⟩ := Prog.call.inj same
        cases fopen with
        | true => exact .empties pData next before
        | false => exact .refused pData next before
    | writing pData =>
        rw [same] at before
        obtain ⟨rfl, rfl⟩ := Prog.call.inj same
        exact .writes pData next before
    | saved pData fopen => cases same
  · rename_i call result next before
    exact .returns call result next before (within_of_stage (staged i call _ next before))

variable {config : Tools ι} {i : ι}

@[simp] theorem moved_self (proc : FileProc) (file : SharedFile) :
    (config.moved i proc file).procs i = proc := by
  simp only [Tools.moved, Function.update_self]

theorem moved_other {j : ι} (proc : FileProc) (file : SharedFile) (other : j ≠ i) :
    (config.moved i proc file).procs j = config.procs j := by
  simp only [Tools.moved, ne_eq, other, not_false_eq_true, Function.update_of_ne]

@[simp] theorem moved_shared (proc : FileProc) (file : SharedFile) :
    (config.moved i proc file).shared = file := rfl

@[simp] theorem moved_returned (proc : FileProc) (file : SharedFile) :
    (config.moved i proc file).returned = config.returned := rfl

/-- A save that is under way stays so while its tool does not move. -/
theorem saving_moved {proc : FileProc} {file : SharedFile} (before : ¬ Saving (config.procs i))
    (saves : ∃ j, Saving (config.procs j)) :
    ∃ j, Saving ((config.moved i proc file).procs j) := by
  obtain ⟨j, saving⟩ := saves
  have other : j ≠ i := by
    rintro rfl
    exact before saving
  exact ⟨j, by rwa [moved_other proc file other]⟩

/-- The file is empty while a save is under way, or loads to what was saved last. -/
def Tools.Kept (config : Tools ι) : Prop :=
  (config.shared.content = some [] ∧ ∃ i, Saving (config.procs i)) ∨
    Loads config.shared.content config.shared.lastSaved

/-- Of a text written over another only the first counts. -/
theorem loads_overwrite (pData : ScftpData) (content : Bytes) :
    Loads (some (overwrite pData.saved content)) pData := by
  intro residue
  have loads := loads_saved pData (content.drop pData.saved.length ++ residue)
  simpa only [load, readToJson, overwrite, Option.bind_eq_bind, Option.bind_some,
    List.append_assoc] using loads

theorem Tools.Kept.moved {proc : FileProc} (kept : config.Kept)
    (before : ¬ Saving (config.procs i)) : (config.moved i proc config.shared).Kept := by
  rcases kept with ⟨empty, saves⟩ | loads
  · exact Or.inl ⟨empty, saving_moved before saves⟩
  · exact Or.inr loads

theorem kept_step (staged : Staged FileCall.body config) (kept : config.Kept) :
    (config.step i).Kept := by
  have turn := turn_step config i staged
  generalize config.step i = after at turn
  cases turn with
  | rests before => exact kept
  | begins call next before => exact kept.moved (by simp [before, Saving])
  | missing residue next before absent => exact kept.moved (by simp [before, load_body, Saving])
  | measures residue content next before held =>
      exact kept.moved (by simp [before, load_body, Saving])
  | reads residue size next before =>
      exact kept.moved (by simp [before, FileCall.reading, Saving])
  | empties pData next before =>
      exact Or.inl ⟨rfl, i, by simp [FileCall.writing, Saving]⟩
  | refused pData next before => exact kept.moved (by simp [before, jsonToFile_body, Saving])
  | writes pData next before => exact Or.inr (loads_overwrite pData _)
  | returns call result next before within =>
      have moved : (config.moved i (.ready (next result)) config.shared).Kept :=
        kept.moved (by simp [before, Saving])
      exact moved

/-- For any number of tools and any order of their calls of the system, whatever
they have read: the file is empty only while some save is between its two calls,
and otherwise loads to the configuration of the save that was finished last. -/
theorem file_kept (clients : ι → Prog FileCall (Except Fault ScftpData) Unit)
    (content : Option Bytes) (pData : ScftpData) (loads : Loads content pData)
    (schedule : List ι) :
    Always FileCall.body SystemCall.answer Tools.Kept (Tools.start content pData clients)
      schedule := by
  have every := always_of_kept
    (fun config : Tools ι => Staged FileCall.body config ∧ config.Kept)
    (fun config i held => ⟨staged_step config i held.1, kept_step held.1 held.2⟩) schedule
    (Tools.start content pData clients) ⟨staged_initial _ _ _, Or.inr loads⟩
  exact every.mono fun config held => held.2

end Turns

/-- Two tools that both update the defaults, their calls taken by turns. -/
theorem updates_kept :
    Always FileCall.body SystemCall.answer (Tools.Kept : Tools Bool → Prop)
      (Tools.start answering.file (.default sampleRoot)
        fun _ => configTool (fun _ => willing) 7 answering.main)
      ((List.replicate 20 [false, true]).flatten) :=
  file_kept _ _ _ (loads_saved (ScftpData.default sampleRoot)) _

end Scftp.ConfigurationTool

import Scftp.ConfigurationTool.SharedFile

set_option autoImplicit false

/- Tools that do not read the file while another saves it. Saves may overlap one
another. -/
namespace Scftp.ConfigurationTool

open CString Interleaving Machine Program Program.Prog Stdin

/-- The file as a register: a load gets what it holds, a save replaces it. -/
def FileCall.register : FileCall → ScftpData → Except Fault ScftpData × ScftpData
  | .load _, held => (.ok held, held)
  | .jsonToFile pData fopen, held => (.ok pData, if fopen then pData else held)

section Turns

variable {ι : Type}

/-- No load begins during a save, and no save during a load. -/
def ReadsAlone (config : Tools ι) (i : ι) : Prop :=
  match config.procs i with
  | .inside _ (.call .ftell _) _ => ∀ j, ¬ Saving (config.procs j)
  | .inside _ (.call (.fopen true) _) _ => ∀ j, ¬ Reading (config.procs j)
  | _ => True

instance : DecidablePred Saving := fun proc => by
  unfold Saving
  split <;> infer_instance

instance : DecidablePred Reading := fun proc => by
  unfold Reading
  split <;> infer_instance

instance (config : Tools Bool) (i : Bool) : Decidable (ReadsAlone config i) := by
  unfold ReadsAlone
  split <;> infer_instance

/-- What turns that read alone keep. -/
structure Settled (config : Tools ι) : Prop where
  staged : Staged FileCall.body config
  kept : config.Kept
  exclusive : ∀ i j, Reading (config.procs i) → ¬ Saving (config.procs j)
  sized : ∀ i residue size next,
    config.procs i = .inside (.load residue) (FileCall.reading residue size) next →
      ∃ content, config.shared.content = some content ∧ content.length ≤ size

theorem settled_start (clients : ι → Prog FileCall (Except Fault ScftpData) Unit)
    {content : Option Bytes} {pData : ScftpData} (loads : Loads content pData) :
    Settled (Tools.start content pData clients) where
  staged := staged_initial _ _ _
  kept := Or.inr loads
  exclusive := by
    intro i j reading
    simp [Tools.start, Config.initial, Reading] at reading
  sized := by
    intro i residue size next impossible
    cases impossible

variable {config : Tools ι} {i : ι}

/-- What a settled load reads is the configuration that was saved last. -/
theorem Settled.loads (settled : Settled config) {residue : Bytes} {size : Nat}
    {next : Except Fault ScftpData → Prog FileCall (Except Fault ScftpData) Unit}
    (before : config.procs i = .inside (.load residue) (FileCall.reading residue size) next) :
    load (some ((config.shared.content.getD []).take size)) residue =
      .ok config.shared.lastSaved := by
  obtain ⟨content, held, short⟩ := settled.sized i residue size next before
  have reading : Reading (config.procs i) := by simp [before, FileCall.reading, Reading]
  have loads := settled.kept.resolve_left fun emptied =>
    emptied.2.elim fun j saving => settled.exclusive i j reading saving
  rw [held] at loads ⊢
  rw [Option.getD_some, List.take_of_length_le short]
  exact loads residue

/-- Each call on the file takes effect at its last call of the system. -/
theorem commitsAtEnd_of_settled (settled : Settled config) :
    CommitsAtEnd FileCall.register SystemCall.answer (fun _ => true) SharedFile.lastSaved
      config i := by
  intro call sub answered next before
  have within := within_of_stage (settled.staged i call _ next before)
  simp only [↓reduceIte]
  generalize same : Prog.call sub answered = place at within
  cases within with
  | opening residue =>
      rw [load_body] at same
      obtain ⟨rfl, rfl⟩ := Prog.call.inj same
      cases held : config.shared.content with
      | some content => simp only [SystemCall.answer, held, Option.map_some, FileCall.reading]
      | none =>
          -- a file that loaded once does not go away
          rcases settled.kept with ⟨emptied, -⟩ | loads
          · rw [held] at emptied
            cases emptied
          · have impossible := loads residue
            rw [held] at impossible
            cases impossible
  | reading residue size =>
      have read := settled.loads (same ▸ before)
      obtain ⟨rfl, rfl⟩ := Prog.call.inj same
      simp only [SystemCall.answer, FileCall.register, read]
  | loaded residue result => cases same
  | emptying pData fopen =>
      rw [jsonToFile_body] at same
      obtain ⟨rfl, rfl⟩ := Prog.call.inj same
      cases fopen <;> simp [SystemCall.answer, FileCall.register, FileCall.writing]
  | writing pData =>
      obtain ⟨rfl, rfl⟩ := Prog.call.inj same
      simp only [SystemCall.answer, FileCall.register, ↓reduceIte]
  | saved pData fopen => cases same

theorem body_calls (call : FileCall) : ∃ sub answered, call.body = .call sub answered := by
  cases call with
  | load residue => exact ⟨_, _, load_body residue⟩
  | jsonToFile pData fopen => exact ⟨_, _, jsonToFile_body pData fopen⟩

variable [DecidableEq ι]

/-- A tool that comes to neither read nor save leaves the invariant alone. -/
theorem Settled.quiet (settled : Settled config) {proc : FileProc} {file : SharedFile}
    (staged : Staged FileCall.body (config.moved i proc file))
    (kept : (config.moved i proc file).Kept) (noRead : ¬ Reading proc) (noSave : ¬ Saving proc)
    (same : file = config.shared ∨ ∀ j, ¬ Reading (config.procs j)) :
    Settled (config.moved i proc file) where
  staged := staged
  kept := kept
  exclusive := by
    intro j k reading saving
    by_cases here : j = i
    · subst here
      rw [moved_self] at reading
      exact noRead reading
    · by_cases there : k = i
      · subst there
        rw [moved_self] at saving
        exact noSave saving
      · rw [moved_other proc file here] at reading
        rw [moved_other proc file there] at saving
        exact settled.exclusive j k reading saving
  sized := by
    intro j residue size next before
    by_cases here : j = i
    · subst here
      rw [moved_self] at before
      subst before
      simp [FileCall.reading, Reading] at noRead
    · rw [moved_other proc file here] at before
      rcases same with rfl | none
      · exact settled.sized j residue size next before
      · refine absurd ?_ (none j)
        simp [before, FileCall.reading, Reading]

theorem settled_step (settled : Settled config) (alone : ReadsAlone config i) :
    Settled (config.step i) := by
  have staged : Staged FileCall.body (config.step i) := staged_step config i settled.staged
  have kept : (config.step i).Kept := kept_step settled.staged settled.kept
  have turn := turn_step config i settled.staged
  generalize config.step i = after at staged kept turn
  cases turn with
  | rests before => exact settled
  | begins call next before =>
      refine settled.quiet staged kept ?_ ?_ (Or.inl rfl) <;>
        cases call <;> simp [load_body, jsonToFile_body, Reading, Saving]
  | missing residue next before absent =>
      exact settled.quiet staged kept (by simp [Reading]) (by simp [Saving]) (Or.inl rfl)
  | measures residue content next before held =>
      have noSave : ∀ j, ¬ Saving (config.procs j) := by
        simpa only [ReadsAlone, before, load_body] using alone
      refine ⟨staged, kept, ?_, ?_⟩
      · intro j k _ saving
        by_cases there : k = i
        · subst there
          simp [FileCall.reading, Saving] at saving
        · rw [moved_other _ _ there] at saving
          exact noSave k saving
      · intro j other size following reads
        by_cases here : j = i
        · subst here
          simp only [moved_self, Proc.inside.injEq, FileCall.reading, Prog.call.injEq,
            SystemCall.fread.injEq] at reads
          exact ⟨content, held, le_of_eq reads.2.1.1⟩
        · rw [moved_other _ _ here] at reads
          exact settled.sized j other size following reads
  | reads residue size next before =>
      exact settled.quiet staged kept (by simp [Reading]) (by simp [Saving]) (Or.inl rfl)
  | empties pData next before =>
      have noRead : ∀ j, ¬ Reading (config.procs j) := by
        simpa only [ReadsAlone, before, jsonToFile_body] using alone
      have still : ∀ j, ¬ Reading ((config.moved i
          (.inside (.jsonToFile pData true) (FileCall.writing pData) next)
          { config.shared with content := some [] }).procs j) := by
        intro j
        by_cases here : j = i
        · subst here
          simp [FileCall.writing, Reading]
        · rw [moved_other _ _ here]
          exact noRead j
      refine ⟨staged, kept, fun j k reading => absurd reading (still j), ?_⟩
      intro j residue size following reads
      refine absurd ?_ (still j)
      simp [reads, FileCall.reading, Reading]
  | refused pData next before =>
      exact settled.quiet staged kept (by simp [Reading]) (by simp [Saving]) (Or.inl rfl)
  | writes pData next before =>
      refine settled.quiet staged kept (by simp [Reading]) (by simp [Saving]) (Or.inr ?_)
      intro j reading
      exact settled.exclusive j i reading (by simp [before, FileCall.writing, Saving])
  | returns call result next before within =>
      have moved : Settled (config.moved i (.ready (next result)) config.shared) :=
        settled.quiet staged kept (by simp [Reading]) (by simp [Saving]) (Or.inl rfl)
      exact ⟨staged, kept, moved.exclusive, moved.sized⟩

/-- For any number of tools and any order of their calls of the system in which no
load overlaps a save: the file is a register. In the order of their last calls of
the system, every load gets the configuration of the save before it, and the file
loads to the last of them unless a save is under way; each tool has returned from
its calls in that order. -/
theorem file_register (clients : ι → Prog FileCall (Except Fault ScftpData) Unit)
    (content : Option Bytes) (pData : ScftpData) (loads : Loads content pData)
    (schedule : List ι)
    (alone : AllTurns FileCall.body SystemCall.answer ReadsAlone
      (Tools.start content pData clients) schedule) :
    let start : Tools ι := Tools.start content pData clients
    let order := finished FileCall.body SystemCall.answer start schedule
    Explained FileCall.register pData order ∧
      outcome FileCall.register pData order = (start.run schedule).shared.lastSaved ∧
      ((∀ i, ¬ Saving ((start.run schedule).procs i)) →
        Loads (start.run schedule).shared.content (outcome FileCall.register pData order)) ∧
      ∀ i, order.filter (fun entry => entry.1 = i) =
        (start.run schedule).returned.filter (fun entry => entry.1 = i) ++
          ((start.run schedule).procs i).pending i := by
  intro start order
  have commits : AllTurns FileCall.body SystemCall.answer
      (CommitsAtEnd FileCall.register SystemCall.answer (fun _ => true) SharedFile.lastSaved)
      start schedule :=
    alone.of_invariant Settled (fun _ _ => settled_step)
      (fun _ _ settled _ => commitsAtEnd_of_settled settled) schedule _
      (settled_start clients loads)
  obtain ⟨explained, reached⟩ := explained_finished schedule start commits
  refine ⟨explained, reached, ?_, ?_⟩
  · intro quiet
    have settled : Settled (start.run schedule) :=
      (Interleaving.run_invariant Settled (fun _ _ => settled_step) schedule start
        (settled_start clients loads) alone).1
    rw [show outcome FileCall.register pData order = _ from reached]
    exact settled.kept.resolve_left fun emptied => emptied.2.elim quiet
  intro i
  have same : (start.run schedule).returned.filter (fun entry => entry.1 = i) ++
      ((start.run schedule).procs i).pending i = _ :=
    finished_returned body_calls schedule start i
  rw [same]
  simp [start, Tools.start, Config.initial, Proc.pending, order]

end Turns

def printing : Main := ⟨ascii "print\n", [], none⟩

/-- One tool updates the configuration in seven steps, the other prints it in one. -/
def updateAndPrint : Bool → Nat × Main
  | false => (7, answering.main)
  | true => (1, printing)

def twoClients (i : Bool) : Prog FileCall (Except Fault ScftpData) Unit :=
  configTool (fun _ => willing) (updateAndPrint i).1 (updateAndPrint i).2

def twoTools : Tools Bool :=
  Tools.start (some (ScftpData.default sampleRoot).saved) (.default sampleRoot) twoClients

/-- The print is called for first, and loads when the update has saved. -/
def printsBehind : List Bool :=
  [true, false, false, false, false, false, false, false, true, true, true, false]

theorem printsBehind_alone :
    AllTurns FileCall.body SystemCall.answer ReadsAlone twoTools printsBehind := by
  decide +kernel

theorem update_printed :
    let order := finished FileCall.body SystemCall.answer twoTools printsBehind
    Explained FileCall.register (.default sampleRoot) order ∧
      Loads (twoTools.run printsBehind).shared.content
        (outcome FileCall.register (.default sampleRoot) order) := by
  have quiet : ∀ i, ¬ Saving ((twoTools.run printsBehind).procs i) := by decide +kernel
  unfold twoTools at quiet ⊢
  have register := file_register twoClients _ _ (loads_saved (ScftpData.default sampleRoot))
    printsBehind printsBehind_alone
  exact ⟨register.1, register.2.2.1 quiet⟩

/-- The print gets the port that the update has saved. -/
example :
    (twoTools.run printsBehind).returned.map (fun entry =>
        (entry.1, entry.2.2.toOption.map ScftpData.port)) =
      [(false, some 9999), (true, some 8080), (false, some 8080)] := by
  decide +kernel

/-- A load between the two calls of a save finds nothing to parse. -/
example :
    ((Tools.start (some (ScftpData.default sampleRoot).saved) (.default sampleRoot)
        fun saves : Bool => if saves then .call (.jsonToFile (.default sampleRoot) true) fun _ =>
          .done () else .call (.load []) fun _ => .done ()).run
      [true, true, false, false, false, false]).returned =
        [(false, .load [], .error .nullItem)] := by rfl

/-- A configuration in range with a number of connections. -/
def Proper (maxConnections : Int32) (pData : ScftpData) : Prop :=
  InRange pData ∧ pData.maxConnections = maxConnections

/-- What a tool may save. -/
def FileCall.Proper (maxConnections : Int32) : FileCall → Prop
  | .load _ => True
  | .jsonToFile pData _ => ConfigurationTool.Proper maxConnections pData

/-- What a tool expects of its file. -/
def FileCall.Succeeds (maxConnections : Int32) (_ : FileCall) (result : Except Fault ScftpData) :
    Prop :=
  ∃ pData, result = .ok pData ∧ ConfigurationTool.Proper maxConnections pData

/-- A call of `update` has a proper configuration in hand. -/
def Main.Holds (maxConnections : Int32) (main : Main) : Prop :=
  ∀ update, main.update = some update → Proper maxConnections update.pData

/-- The tool goes on, or ends without a fault. -/
def Proceeds (maxConnections : Int32) : Outcome Main → Prop
  | .next main => main.Holds maxConnections
  | .exit _ => True
  | .fault => False

section Tool

variable {maxConnections : Int32}

theorem Proper.revises {before after : ScftpData} (proper : Proper maxConnections before)
    (revises : Revises before after) : Proper maxConnections after :=
  ⟨revises.inRange proper.1, by rw [revises.maxConnections, proper.2]⟩

theorem revises_bufferSize (pData : ScftpData) (iBuffer : Int32) (positive : ¬ iBuffer < 1) :
    Revises pData { pData with bufferSize := if 512 < iBuffer then 512 else iBuffer } := by
  refine ⟨rfl, fun held => ⟨held.1, held.2, ?_⟩⟩
  dsimp only
  split
  · exact ⟨by decide, by decide⟩
  · rename_i small
    exact ⟨Int32.not_lt.mp positive, Int32.not_lt.mp small⟩

/-- While its loads succeed, the tool saves what it may and does not fault. -/
theorem mainStep_meets (env : Env) (main : Main) (holds : main.Holds maxConnections) :
    (mainStep env main).Meets (FileCall.Proper maxConnections) (FileCall.Succeeds maxConnections)
      (Proceeds maxConnections) := by
  cases running : main.update with
  | none =>
      have idle (after : Main) (same : after.update = none) : after.Holds maxConnections := by
        intro update impossible
        rw [same] at impossible
        cases impossible
      simp only [mainStep, running, perform_bind, pure_eq]
      split
      · refine meets_call trivial ?_
        rintro _ ⟨pData, rfl, proper⟩
        exact idle _ rfl
      · split
        · refine meets_call trivial ?_
          rintro _ ⟨pData, rfl, proper⟩ update called
          cases called
          exact proper
        · split
          · exact trivial
          · exact idle _ rfl
  | some update =>
      have proper := holds update running
      by_cases last : update.prompt = .bufferSize
      · simp only [mainStep, running, last, perform_bind, pure_eq]
        split
        · intro _ again
          cases again
          exact proper
        · rename_i positive
          refine meets_call (proper.revises (revises_bufferSize update.pData _ positive)) ?_
          rintro _ _ _ ⟨⟩
      · rw [mainStep_early env main update running last]
        rcases updateStep_leaves env (main.on none) update with
          ⟨after, stepped, leaves⟩ | ⟨_, exits⟩
        · rw [stepped]
          cases leaves with
          | again iBuffer =>
              intro _ again
              cases again
              exact proper
          | passed iBuffer prompt pData next revises =>
              intro _ called
              cases called
              exact proper.revises revises
          | saved pData ends revises => exact absurd ends last
        · rw [exits]
          trivial

theorem mainLoop_meets (envs : Nat → Env) (main : Main) (holds : main.Holds maxConnections)
    (count : Nat) :
    (mainLoop envs count main).Meets (FileCall.Proper maxConnections)
      (FileCall.Succeeds maxConnections) (Proceeds maxConnections) := by
  induction count with
  | zero => exact meets_done holds
  | succ count ih =>
      refine ih.bind fun outcome proceeds => ?_
      cases outcome with
      | next main => exact mainStep_meets (envs count) main proceeds
      | exit main => trivial
      | fault => exact proceeds.elim

theorem register_succeeds {call : FileCall} {held : ScftpData}
    (proper : Proper maxConnections held) (asked : call.Proper maxConnections) :
    call.Succeeds maxConnections (call.register held).1 := by
  cases call with
  | load residue => exact ⟨held, rfl, proper⟩
  | jsonToFile pData fopen => exact ⟨pData, rfl, asked⟩

/-- A turn that reads alone keeps the contract, and the file proper. -/
theorem contract_turn {ι : Type} [DecidableEq ι] {config : Tools ι} {i : ι}
    (settled : Settled config)
    (contract : Contract (FileCall.Proper maxConnections) (FileCall.Succeeds maxConnections) config)
    (proper : Proper maxConnections config.shared.lastSaved) :
    Contract (FileCall.Proper maxConnections) (FileCall.Succeeds maxConnections) (config.step i) ∧
      Proper maxConnections (config.step i).shared.lastSaved := by
  constructor
  · refine contract_step body_calls config i contract ?_
    intro call sub answered next result before asked last
    have effect := commitsAtEnd_of_settled settled call sub answered next before
    simp only [↓reduceIte, last] at effect
    have same : result = (call.register config.shared.lastSaved).1 := by rw [effect]
    rw [same]
    exact register_succeeds proper asked
  · have turn := turn_step config i settled.staged
    generalize config.step i = after at turn
    cases turn with
    | writes pData next before =>
        have mine := contract.procs i
        rw [before] at mine
        exact mine.1
    | rests before => exact proper
    | begins call next before => exact proper
    | missing residue next before absent => exact proper
    | measures residue content next before held => exact proper
    | reads residue size next before => exact proper
    | empties pData next before => exact proper
    | refused pData next before => exact proper
    | returns call result next before within => exact proper

theorem configTool_meets (envs : Nat → Env) (count : Nat) (main : Main)
    (idle : main.update = none) :
    (configTool envs count main).Meets (FileCall.Proper maxConnections)
      (FileCall.Succeeds maxConnections) fun _ => True := by
  refine (mainLoop_meets envs main ?_ count).bind fun _ _ => trivial
  intro update impossible
  rw [idle] at impossible
  cases impossible

end Tool

/-- Any number of tools, on any input and with any answers of the system, whose
loads do not overlap saves: every load of each of them succeeds with a
configuration in range and with the number of connections there was at the start,
they save only such configurations, and the last of them is what the file loads to
whenever it is not just being written. -/
theorem tools_kept {ι : Type} [DecidableEq ι] (envs : ι → Nat → Env) (counts : ι → Nat)
    (mains : ι → Main) (idle : ∀ i, (mains i).update = none) (content : Option Bytes)
    (pData : ScftpData) (loads : Loads content pData) (inRange : InRange pData)
    (schedule : List ι)
    (alone : AllTurns FileCall.body SystemCall.answer ReadsAlone
      (Tools.start content pData fun i => configTool (envs i) (counts i) (mains i)) schedule) :
    Always FileCall.body SystemCall.answer
      (fun config : Tools ι => config.Kept ∧ Proper pData.maxConnections config.shared.lastSaved ∧
        ∀ entry ∈ config.returned, entry.2.1.Proper pData.maxConnections ∧
          entry.2.1.Succeeds pData.maxConnections entry.2.2)
      (Tools.start content pData fun i => configTool (envs i) (counts i) (mains i)) schedule := by
  have start := settled_start (fun i => configTool (envs i) (counts i) (mains i)) loads
  have contract : Contract (FileCall.Proper pData.maxConnections)
      (FileCall.Succeeds pData.maxConnections)
      (Tools.start content pData fun i => configTool (envs i) (counts i) (mains i)) :=
    contract_initial _ _ _ fun i => configTool_meets (envs i) (counts i) (mains i) (idle i)
  have every := (Interleaving.run_invariant
    (fun config : Tools ι => Settled config ∧ Contract (FileCall.Proper pData.maxConnections)
      (FileCall.Succeeds pData.maxConnections) config ∧
      Proper pData.maxConnections config.shared.lastSaved)
    (fun config i held allowed => ⟨settled_step held.1 allowed,
      contract_turn held.1 held.2.1 held.2.2⟩)
    schedule _ ⟨start, contract, inRange, rfl⟩ alone).2
  exact every.mono fun config held => ⟨held.1.kept, held.2.2, held.2.1.returned⟩

theorem update_kept :
    Always FileCall.body SystemCall.answer
      (fun config : Tools Bool => config.Kept ∧ Proper 5 config.shared.lastSaved ∧
        ∀ entry ∈ config.returned, entry.2.1.Proper 5 ∧ entry.2.1.Succeeds 5 entry.2.2)
      twoTools printsBehind :=
  tools_kept (fun _ _ => willing) (fun i => (updateAndPrint i).1) (fun i => (updateAndPrint i).2)
    (by decide) _ (.default sampleRoot) (loads_saved _) (inRange_default sampleRoot) printsBehind
    printsBehind_alone

end Scftp.ConfigurationTool

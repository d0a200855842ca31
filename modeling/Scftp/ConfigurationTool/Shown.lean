import Scftp.ConfigurationTool.Holdings
import Scftp.ConfigurationTool.Rounds

set_option autoImplicit false

/- What `print` shows of a configuration, and that it is all of it. -/
namespace Scftp.ConfigurationTool.Calls

open CString FileTree Json Machine Program Program.Prog Stdin

/-- Its lines behind the name. -/
def shownLines (sData : ScftpData) : List Bytes :=
  [ascii "root : " ++ sData.root.bytes,
    ascii "port : " ++ writeInt sData.port.toInt,
    ascii "encryption : " ++ writeInt sData.encryptionLevel.toInt,
    ascii "max connections : " ++ writeInt sData.maxConnections.toInt,
    ascii "authentication : " ++ writeInt sData.authentication.toInt,
    ascii "buffer size : " ++ writeInt sData.bufferSize.toInt,
    []]

section Text

theorem newline_notMem_writeInt (value : Int) : newline ∉ writeInt value := by
  have digits : newline ∉ decimal value.natAbs := by
    intro member
    have digit := isDigit_of_mem_decimal value.natAbs newline member
    revert digit
    decide
  unfold writeInt
  split
  · rw [List.mem_cons, not_or]
    exact ⟨by decide, digits⟩
  · exact digits

theorem writeInt_injective : Function.Injective writeInt := by
  intro first second same
  have read (value : Int) := readNumber_writeInt value [] (by intro byte more; simp)
  simp only [List.append_nil] at read
  have equal := (read first).symm.trans (same ▸ read second)
  simpa using equal

/-- A text of lines, split at their ends. -/
theorem splitOn_lines (front : Bytes) (lines : List Bytes)
    (single : ∀ line ∈ lines, newline ∉ line) :
    (front ++ (lines.map (newline :: ·)).flatten).splitOn newline =
      front.splitOn newline ++ lines := by
  induction lines generalizing front with
  | nil => simp
  | cons line rest ih =>
      have alone : line.splitOn newline = [line] := by
        have one := List.splitOn_intercalate newline
          (fun other member => single other (by simpa using Or.inl (List.mem_singleton.mp member)))
          (List.cons_ne_nil line [])
        simpa using one
      rw [List.map_cons, List.flatten_cons, List.cons_append, List.splitOn_append_cons_self,
        ih line fun other member => single other (List.mem_cons_of_mem line member), alone]
      rfl

theorem shown_eq_lines (sData : ScftpData) :
    shown sData = ascii "name : " ++ sData.name.bytes ++
      ((shownLines sData).map (newline :: ·)).flatten := by
  simp only [shown, shownLines, List.map_cons, List.map_nil, List.flatten_cons,
    List.flatten_nil, List.append_nil, List.append_assoc]
  rfl

theorem newline_notMem_shownLines {sData : ScftpData} (plain : newline ∉ sData.root.bytes) :
    ∀ line ∈ shownLines sData, newline ∉ line := by
  have labelled (label : Bytes) (value : Int) (clean : newline ∉ label) :
      newline ∉ label ++ writeInt value := by
    rw [List.mem_append, not_or]
    exact ⟨clean, newline_notMem_writeInt value⟩
  have root : newline ∉ ascii "root : " ++ sData.root.bytes := by
    rw [List.mem_append, not_or]
    exact ⟨by decide, plain⟩
  simp only [shownLines, List.forall_mem_cons]
  exact ⟨root, labelled _ _ (by decide), labelled _ _ (by decide), labelled _ _ (by decide),
    labelled _ _ (by decide), labelled _ _ (by decide), List.not_mem_nil, fun _ => nofun⟩

theorem splitOn_shown {sData : ScftpData} (plain : newline ∉ sData.root.bytes) :
    (shown sData).splitOn newline =
      (ascii "name : " ++ sData.name.bytes).splitOn newline ++ shownLines sData := by
  rw [shown_eq_lines, splitOn_lines _ _ (newline_notMem_shownLines plain)]

/-- With no newline in the root, what is shown is the configuration. -/
theorem shown_injective {first second : ScftpData}
    (plainFirst : newline ∉ first.root.bytes) (plainSecond : newline ∉ second.root.bytes)
    (same : shown first = shown second) : first = second := by
  have lines := congrArg (List.splitOn newline) same
  rw [splitOn_shown plainFirst, splitOn_shown plainSecond] at lines
  have lengths : (shownLines first).length = (shownLines second).length := by
    simp only [shownLines, List.length_cons]
  obtain ⟨names, others⟩ := List.append_inj' lines lengths
  have name := congrArg (List.intercalate [newline]) names
  rw [List.intercalate_splitOn, List.intercalate_splitOn, List.append_cancel_left_eq] at name
  simp only [shownLines, List.cons.injEq, List.append_cancel_left_eq, writeInt_injective.eq_iff,
    Int32.toInt_inj] at others
  obtain ⟨root, port, encryption, connections, authentication, size, _⟩ := others
  exact ScftpData.ext (CharArray.ext name) (CharArray.ext root) port authentication encryption size
    connections

/-- A newline in the root can make a part of it look like the name's. -/
example : ∃ first second : ScftpData, first ≠ second ∧ shown first = shown second := by
  let named (name : CharArray 64) (root : CharArray 128) : ScftpData :=
    { ScftpData.default root with name }
  refine ⟨named ⟨⟨ascii "a", by decide⟩, by decide⟩ ⟨⟨ascii "b\nroot : c", by decide⟩, by decide⟩,
    named ⟨⟨ascii "a\nroot : b", by decide⟩, by decide⟩ ⟨⟨ascii "c", by decide⟩, by decide⟩, ?_, ?_⟩
  · decide
  · rfl

end Text

section Run

variable {env : Env} {tool after : Tool} {update : Update}

/-- The cut takes the newline of a line that was read. -/
theorem newline_notMem_cutLast {stdin path : Bytes} {size : Nat}
    (cut : cutLast (fgets [] size stdin).1 = some path) : newline ∉ path := by
  obtain ⟨_, rfl, _⟩ := cutLast_eq_some cut
  intro member
  have present : newline ∈ (fgets [] size stdin).1 :=
    (List.takeWhile_sublist _).subset (List.dropLast_subset _ member)
  have unread : stdin ≠ [] := by
    rintro rfl
    cases present
  rw [fgets_of_ne_nil [] size unread] at present member
  obtain ⟨line, read, single⟩ := takeLine_newline _ _ present
  rw [read] at member
  have prior : (cstr (line ++ [newline])).dropLast <+: line := by
    have within : cstr (line ++ [newline]) <+: line ++ [newline] := List.takeWhile_prefix _
    apply List.prefix_of_prefix_length_le ((List.dropLast_prefix _).trans within)
      (List.prefix_append line [newline])
    have cut := cstr_length_le (line ++ [newline])
    rw [List.length_append, List.length_singleton] at cut
    rw [List.length_dropLast]
    omega
  exact single (prior.subset member)

/-- The roots in the tool have no newline: that of the file, and that in hand. -/
structure RootsPlain (tool : Tool) : Prop where
  file : ∃ pData, Loads tool.file pData ∧ newline ∉ pData.root.bytes
  update : ∀ update, tool.update = some update → newline ∉ update.pData.root.bytes

theorem RootsPlain.called (plain : RootsPlain tool) (rest command : Bytes) (update : Update)
    (clean : newline ∉ update.pData.root.bytes) :
    RootsPlain ⟨rest, command, tool.file, some update⟩ := by
  refine ⟨plain.file, fun other same => ?_⟩
  cases same
  exact clean

/-- What the root's loop stores has lost the newline of its line. -/
theorem rootStep_plain (plain : RootsPlain tool) (clean : newline ∉ update.pData.root.bytes)
    (stepped : ConfigurationTool.rootStep env tool update = .next after) : RootsPlain after := by
  unfold ConfigurationTool.rootStep at stepped
  dsimp only at stepped
  split at stepped
  · cases stepped
    exact plain.called _ _ _ clean
  · split at stepped
    · cases stepped
    · rename_i path cut
      split at stepped
      · split at stepped
        · cases stepped
        · rename_i shorter again
          split at stepped
          · cases stepped
          · rename_i root copied
            cases stepped
            apply plain.called
            intro member
            rw [strcpy_bytes copied, (cutLast_eq_some again).2.1] at member
            have inShorter := List.dropLast_subset _ ((List.takeWhile_sublist _).subset member)
            have inPath := (List.takeWhile_sublist _).subset inShorter
            exact newline_notMem_cutLast cut inPath
      · cases stepped
        exact plain.called _ _ _ clean

theorem portStep_plain (plain : RootsPlain tool) (clean : newline ∉ update.pData.root.bytes)
    (stepped : ConfigurationTool.portStep env tool update = .next after) : RootsPlain after := by
  unfold ConfigurationTool.portStep at stepped
  dsimp only at stepped
  split at stepped
  · cases stepped
    exact plain.called _ _ _ clean
  · split at stepped
    · cases stepped
    · cases stepped
      exact plain.called _ _ _ clean
    · cases stepped
      exact plain.called _ _ _ clean

theorem updateStep_plain (plain : RootsPlain tool) (clean : newline ∉ update.pData.root.bytes)
    (stepped : ConfigurationTool.updateStep env tool update = .next after) : RootsPlain after := by
  unfold ConfigurationTool.updateStep at stepped
  split at stepped
  · unfold ConfigurationTool.nameStep at stepped
    dsimp only at stepped
    split at stepped
    · cases stepped
      exact plain.called _ _ _ clean
    · split at stepped
      · cases stepped
      · cases stepped
        exact plain.called _ _ _ clean
  · exact rootStep_plain plain clean stepped
  · exact portStep_plain plain clean stepped
  · cases stepped
    exact plain.called _ _ _ clean
  · unfold ConfigurationTool.encryptionStep at stepped
    dsimp only at stepped
    split at stepped
    · cases stepped
      exact plain.called _ _ _ clean
    · cases stepped
      exact plain.called _ _ _ clean
  · unfold ConfigurationTool.bufferSizeStep at stepped
    dsimp only at stepped
    split at stepped
    · cases stepped
      exact plain.called _ _ _ clean
    · cases stepped
      refine ⟨?_, nofun⟩
      dsimp only
      split
      · exact ⟨_, loads_saved _, clean⟩
      · exact plain.file

theorem rootsPlain_step (env : Env) (plain : RootsPlain tool)
    (stepped : toolStep env tool = .next after) : RootsPlain after := by
  cases running : tool.update with
  | none =>
      have commands := toolStep_commands env running
      rw [stepped] at commands
      cases commands with
      | updates pData noExit loads =>
          obtain ⟨held, file, clean⟩ := plain.file
          rw [file env.residue] at loads
          cases loads
          exact plain.called _ _ ⟨.name, 0, pData⟩ clean
      | stays noExit noUpdate loads => exact ⟨plain.file, plain.update⟩
  | some update =>
      rw [toolStep_running env tool update running] at stepped
      exact updateStep_plain plain (plain.update update running) stepped

theorem rootsPlain_run {envs : Nat → Env} {start : Tool} (plain : RootsPlain start) :
    ∀ count tool, toolRun envs start count = .next tool → RootsPlain tool := by
  apply Machine.run_invariant (fun _ (tool : Tool) => RootsPlain tool) plain
  intro count before after reached held stepped
  exact rootsPlain_step (envs count) held stepped

theorem printCommand_wp {envs : Nat → Env} {system : System} {locals : Locals} {path : Bytes}
    {pData : ScftpData} {post : Outcome Locals → System → Prop}
    (typed : strcmp locals.arrCCommand (ascii "print\n") = true)
    (plain : system.tree.lookup path ≠ some .directory)
    (loads : Loads (system.tree.read path) pData)
    (goesOn : ∀ outcome after, after.output = system.output ++ shown pData → post outcome after) :
    (commands locals path).wp (answer envs) Allowed post system := by
  unfold commands
  simp only [typed, ↓reduceIte]
  rw [wp_bind]
  apply load_wp plain
  intro read first
  rw [loads]
  apply ends_wp
  intro after second
  apply goesOn
  rw [second.output, first.output, List.append_nil]

/-- What a step prints that reads `print`. -/
theorem print_wp {envs : Nat → Env} {system : System} {locals : Locals} {path : Bytes}
    {pData : ScftpData} (idle : locals.update = none)
    (typed : strcmp (fgets locals.arrCCommand 64 system.stdin).1 (ascii "print\n") = true)
    (plain : system.tree.lookup path ≠ some .directory)
    (loads : Loads (system.tree.read path) pData) :
    (mainStep locals path).wp (answer envs) Allowed
      (fun _ after => after.output = system.output ++ (ruler ++ ascii "->" ++ shown pData))
      system := by
  unfold mainStep
  rw [idle]
  apply prompt_wp
  apply prompt_wp
  apply fgets_wp
  intro read line
  apply printCommand_wp
  · rw [line]
    exact typed
  · exact plain
  · exact loads
  · intro outcome after printed
    rw [printed]
    simp only [System.behind, System.shows, List.append_assoc]

end Run

section Processes

theorem process_run_succ {process : Process} {moment : Nat} {locals : Locals}
    (reached : (process.run moment).1 = .next locals) :
    process.run (moment + 1) =
      (mainStep locals process.path).run (answer process.envs) (process.run moment).2 := by
  unfold Process.run main at reached ⊢
  cases found : setLocationDefaults process.home.bytes with
  | none =>
      rw [found] at reached
      cases reached
  | some locations =>
      obtain ⟨_, filed, _⟩ := setLocationDefaults_bytes process.home locations found
      simp only [found, run_bind, filed, mainLoop] at reached ⊢
      rw [reached]
      rfl

/-- The configuration file at a moment. -/
def Process.file (process : Process) (moment : Nat) : Option Bytes :=
  (process.run moment).2.tree.read process.path

/-- The step behind a moment reads the command `print`. -/
def Process.PrintsAt (process : Process) (moment : Nat) : Prop :=
  ∃ locals, (process.run moment).1 = .next locals ∧ locals.update = none ∧
    strcmp (fgets locals.arrCCommand 64 (process.run moment).2.stdin).1 (ascii "print\n") = true

/-- What the step behind a moment puts on the screen. -/
def Process.printed (process : Process) (moment : Nat) : Bytes :=
  (process.run (moment + 1)).2.output.drop (process.run moment).2.output.length

/-- Start-up leaves a configuration that has no newline in its root. -/
structure Process.Clear (process : Process) : Prop where
  plain : process.tree.lookup process.path ≠ some .directory
  started : ∃ locations started pData,
    startUp process.home.bytes process.tree = some (locations, started) ∧
      Loads (started.read process.path) pData ∧ newline ∉ pData.root.bytes

theorem plain_of_loads {tree : FileTree} {path : Bytes} {pData : ScftpData}
    (loads : Loads (tree.read path) pData) : tree.lookup path ≠ some .directory := by
  intro directory
  have missing : tree.read path = none := by rw [FileTree.read, directory]
  rw [missing] at loads
  cases loads []

/-- Wherever the loop goes on, the file is a configuration without a newline in its root. -/
theorem file_clear {process : Process} (clear : process.Clear) {moment : Nat}
    (prints : process.PrintsAt moment) :
    ∃ pData, Loads (process.file moment) pData ∧ newline ∉ pData.root.bytes := by
  obtain ⟨locals, reached, _⟩ := prints
  obtain ⟨locations, started, pData, begun, loads, root⟩ := clear.started
  have follows := (process_reached process clear.plain moment begun).1.symm
  rw [reached] at follows
  have start : RootsPlain (process.tool started) := ⟨⟨pData, loads, root⟩, nofun⟩
  exact (rootsPlain_run start moment _ follows).file

theorem printed_eq {process : Process} {moment : Nat} (prints : process.PrintsAt moment)
    {pData : ScftpData} (loads : Loads (process.file moment) pData) :
    process.printed moment = ruler ++ ascii "->" ++ shown pData := by
  obtain ⟨locals, reached, idle, typed⟩ := prints
  have meets : (mainStep locals process.path).wp (answer process.envs) Allowed
      (fun _ after => after.output =
        (process.run moment).2.output ++ (ruler ++ ascii "->" ++ shown pData))
      (process.run moment).2 := print_wp idle typed (plain_of_loads loads) loads
  have output := ((wp_iff _ _).mp meets).2
  rw [Process.printed, process_run_succ reached, output, List.drop_left]

/-- In any two runs, or at two moments of one, `print` shows the same exactly when the
file holds the same configuration. -/
theorem prints_tell (first second : Process) (clearFirst : first.Clear)
    (clearSecond : second.Clear) (moment later : Nat) (printsFirst : first.PrintsAt moment)
    (printsSecond : second.PrintsAt later) :
    first.printed moment = second.printed later ↔
      ∃ pData, Loads (first.file moment) pData ∧ Loads (second.file later) pData := by
  obtain ⟨pData, loads, root⟩ := file_clear clearFirst printsFirst
  obtain ⟨other, loadsOther, rootOther⟩ := file_clear clearSecond printsSecond
  rw [printed_eq printsFirst loads, printed_eq printsSecond loadsOther,
    List.append_cancel_left_eq]
  constructor
  · intro same
    have equal := shown_injective root rootOther same
    exact ⟨pData, loads, equal ▸ loadsOther⟩
  · rintro ⟨both, holdsFirst, holdsSecond⟩
    rw [loads_unique loads holdsFirst, loads_unique loadsOther holdsSecond]

/-- A print of the default configuration in the same home. -/
def showing : Process := { updating with stdin := ascii "print\n" }

/-- The locations under the home `/h`. -/
def sampleLocations : Locations where
  rootDirectory := sampleRoot
  configFileLocation := ⟨⟨ascii "/h/.config/SCFTP/scftp_config.json", by decide⟩, by decide⟩
  configFolderLocation := ⟨⟨ascii "/h/.config/SCFTP/", by decide⟩, by decide⟩

theorem updating_started : ∃ started,
    started = ConfigurationTool.prepareFile sampleLocations
        (ConfigurationTool.prepareFolder sampleLocations updating.tree) ∧
      startUp updating.home.bytes updating.tree = some (sampleLocations, started) ∧
        started.read updating.path = some (ScftpData.default sampleRoot).saved := by
  obtain ⟨started, same⟩ : ∃ started, started = ConfigurationTool.prepareFile sampleLocations
    (ConfigurationTool.prepareFolder sampleLocations updating.tree) := ⟨_, rfl⟩
  refine ⟨started, same, ?_, ?_⟩
  · rw [same]
    rfl
  · rw [same]
    decide +kernel

theorem clear_updating : updating.Clear := by
  obtain ⟨started, -, begun, read⟩ := updating_started
  refine ⟨by decide, sampleLocations, started, .default sampleRoot, begun, ?_, by decide⟩
  have loads := loads_saved (ScftpData.default sampleRoot)
  rw [← read] at loads
  exact loads

theorem clear_showing : showing.Clear := ⟨clear_updating.plain, clear_updating.started⟩

/-- The command behind the last prompt is the rest of its line. -/
theorem prints_updating : updating.PrintsAt 8 :=
  ⟨⟨[newline], none⟩, by decide +kernel, rfl, by decide +kernel⟩

theorem prints_showing : showing.PrintsAt 0 := ⟨⟨[], none⟩, rfl, rfl, by decide⟩

/-- A file that was updated, beside the default one. -/
theorem showing_tells :
    updating.printed 8 = showing.printed 0 ↔
      ∃ pData, Loads (updating.file 8) pData ∧ Loads (showing.file 0) pData :=
  prints_tell updating showing clear_updating clear_showing 8 0 prints_updating prints_showing

end Processes

end Scftp.ConfigurationTool.Calls

import Scftp.ConfigurationTool.Saving
import Scftp.ConfigurationTool.StartUp

set_option autoImplicit false

/- Lives of the tool, one after the other, each of which may be killed at any
moment, and what the next start-up makes of the file. -/
namespace Scftp.ConfigurationTool

open CString FileTree Machine Stdin

/-- The file after steps of the tool; a step that faults leaves it as it is. -/
def fileAfter (envs : Nat → Env) (tool : Tool) : Nat → Option Bytes
  | 0 => tool.file
  | count + 1 =>
      match toolRun envs tool (count + 1) with
      | .next after => after.file
      | .exit left => left.file
      | .fault => fileAfter envs tool count

/-- One life of the tool: its input, the bytes its command buffer happens to hold,
what the system answers, and when it is killed. A save of the defaults at start-up
is cut behind `filled` effects; if there is none or it is finished, the loop takes
`steps` steps and is killed in the next, which is cut behind `saved` effects if it
is a save. -/
structure Life where
  stdin : Bytes
  arrCCommand : Bytes
  envs : Nat → Env
  filled : Nat
  steps : Nat
  saved : Nat

/-- The save a life was killed in: what the file held before it, its text, and its
effects that were done. Without a save there are none. -/
structure Ending where
  previous : Option Bytes
  text : Bytes
  effects : Nat

def Ending.file (ending : Ending) : Option Bytes :=
  saveStopped ending.text ending.effects ending.previous

/-- Some bytes of the text are in the file, and not all. -/
def Ending.Torn (ending : Ending) : Prop :=
  1 < ending.effects ∧ ending.effects ≤ ending.text.length

/-- `main` finds no file, or an empty one. -/
def needsDefaults (locations : Locations) (tree : FileTree) : Bool :=
  let file := locations.configFileLocation.bytes
  checkFileExist tree file = notExist || checkFileEmpty tree file = empty

def Life.loopEnding (life : Life) (tool : Tool) : Ending :=
  match toolRun life.envs tool life.steps with
  | .next before =>
      match before.update, toolStep (life.envs life.steps) before with
      | some _, .next { update := none, file := some text, .. } =>
          if (life.envs life.steps).fopen then ⟨before.file, text, life.saved⟩
          else ⟨before.file, [], 0⟩
      | _, _ => ⟨before.file, [], 0⟩
  | _ => ⟨fileAfter life.envs tool life.steps, [], 0⟩

/-- The end of a life that has its folder. -/
def Life.ending (life : Life) (locations : Locations) (tree : FileTree) : Ending :=
  let file := locations.configFileLocation.bytes
  let text := createDefaultConfigFile locations.rootDirectory
  if needsDefaults locations tree && life.filled ≤ text.length then
    ⟨tree.read file, text, life.filled⟩
  else
    life.loopEnding ⟨life.stdin, life.arrCCommand, (prepareFile locations tree).read file, none⟩

def leave (locations : Locations) (tree : FileTree) (file : Option Bytes) : FileTree :=
  match file with
  | none => tree
  | some content => (tree.write locations.configFileLocation.bytes content).getD tree

/-- The files after a life; `none` when a location overflows its buffer. -/
def Life.after (life : Life) (home : Bytes) (tree : FileTree) : Option FileTree := do
  let locations ← setLocationDefaults home
  let tree := prepareFolder locations tree
  return leave locations tree (life.ending locations tree).file

/-- In range, with the number of connections there was or that of the defaults. -/
def Regular (maxConnections : Int32) (pData : ScftpData) : Prop :=
  InRange pData ∧
    (pData.maxConnections = maxConnections ∨ pData.maxConnections = defaultMaxConnections)

/-- What start-up can go on from: no file, an empty one or a regular configuration. -/
def Usable (maxConnections : Int32) (file : Option Bytes) : Prop :=
  file = none ∨ file = some [] ∨ ∃ pData, Loads file pData ∧ Regular maxConnections pData

/-- A home directory with the folder `.config`, and a file start-up can go on from. -/
structure Sound (maxConnections : Int32) (home : Str) (tree : FileTree) : Prop where
  fits : home.bytes.length ≤ 95
  config : tree.lookup (home.bytes ++ ascii "/.config") = some .directory
  folder : tree.lookup (home.bytes ++ ascii "/.config/SCFTP") = none ∨
    tree.lookup (home.bytes ++ ascii "/.config/SCFTP") = some .directory
  plain : tree.lookup (configPath home) ≠ some .directory
  file : Usable maxConnections (tree.read (configPath home))

/-- After start-up the file loads to a regular configuration, and no step of the
tool faults, whatever is typed. -/
def Serves (maxConnections : Int32) (home : Str) (tree : FileTree) : Prop :=
  ∃ locations after, startUp home.bytes tree = some (locations, after) ∧
    (∃ pData, Loads (after.read locations.configFileLocation.bytes) pData ∧
      Regular maxConnections pData) ∧
    ∀ stdin arrCCommand envs count, toolRun envs
      ⟨stdin, arrCCommand, after.read locations.configFileLocation.bytes, none⟩ count ≠ .fault

/-- Start-up serves before, between and after the lives. -/
def Survives (maxConnections : Int32) (home : Str) : FileTree → List Life → Prop
  | tree, [] => Serves maxConnections home tree
  | tree, life :: rest => Serves maxConnections home tree ∧
      ∀ after, life.after home.bytes tree = some after → Survives maxConnections home after rest

/-- No life is killed while part of a text is in the file. -/
def Untorn (home : Str) : FileTree → List Life → Prop
  | _, [] => True
  | tree, life :: rest =>
      (∀ locations, setLocationDefaults home.bytes = some locations →
        ¬ (life.ending locations (prepareFolder locations tree)).Torn) ∧
      ∀ after, life.after home.bytes tree = some after → Untorn home after rest

section Files

variable {maxConnections : Int32} {home : Str} {tree : FileTree} {locations : Locations}

/-- The home directory once start-up has seen to the folder. -/
structure Foldered (home : Str) (tree : FileTree) : Prop where
  config : tree.lookup (home.bytes ++ ascii "/.config") = some .directory
  folder : tree.lookup (home.bytes ++ ascii "/.config/SCFTP") = some .directory
  plain : tree.lookup (configPath home) ≠ some .directory
  place : ∃ place, tree.resolve (configPath home) = some place

theorem read_of_lookup {other : FileTree}
    (same : other.lookup (configPath home) = tree.lookup (configPath home)) :
    other.read (configPath home) = tree.read (configPath home) := by
  rw [FileTree.read, FileTree.read, same]

/-- Both spellings of the folder lead to one place. -/
theorem folder_places {place : Location}
    (here : tree.resolve (home.bytes ++ ascii "/.config") = some place)
    (directory : tree.nodes place = some .directory) :
    tree.resolve (home.bytes ++ ascii "/.config/SCFTP") = some (ascii "SCFTP" :: place) ∧
      tree.resolve (home.bytes ++ ascii "/.config/SCFTP/") = some (ascii "SCFTP" :: place) := by
  rw [folder_path, slashed_path]
  exact ⟨resolve_child here directory (ascii "SCFTP") (ascii "SCFTP") (by decide),
    resolve_child here directory (ascii "SCFTP/") (ascii "SCFTP") (by decide)⟩

theorem foldered_prepareFolder (sound : Sound maxConnections home tree)
    (found : setLocationDefaults home.bytes = some locations) :
    Foldered home (prepareFolder locations tree) ∧
      (prepareFolder locations tree).read (configPath home) = tree.read (configPath home) := by
  obtain ⟨place, here, directory⟩ := Option.bind_eq_some_iff.mp sound.config
  obtain ⟨_, _, foldered⟩ := setLocationDefaults_bytes home locations found
  obtain ⟨writable, same⟩ := prepareFolder_spec locations foldered here directory sound.folder
  obtain ⟨bare, slashed⟩ := folder_places here directory
  refine ⟨?_, read_of_lookup same⟩
  have folder := sound.folder
  rw [lookup_of_resolve bare] at folder
  rcases folder with missing | present
  · obtain ⟨made, created, nodes, kept⟩ := mkdir_of_resolve slashed missing
    have made_eq : prepareFolder locations tree = made := by
      have absent : tree.opendir (home.bytes ++ ascii "/.config/SCFTP/") = false := by
        simp [opendir, lookup_of_resolve slashed, missing]
      simp only [prepareFolder, foldered, checkFolderExist, absent, createFolder, created]
      rfl
    have other : place ≠ ascii "SCFTP" :: place := (List.cons_ne_self _ _).symm
    refine ⟨?_, ?_, by rw [same]; exact sound.plain, writable⟩
    · rw [made_eq, lookup_of_resolve (kept _ _ here), nodes, Function.update_of_ne other, directory]
    · rw [made_eq, lookup_of_resolve (kept _ _ bare), nodes, Function.update_self]
  · have kept : prepareFolder locations tree = tree := by
      have there : tree.opendir (home.bytes ++ ascii "/.config/SCFTP/") = true := by
        simp [opendir, lookup_of_resolve slashed, present]
      simp only [prepareFolder, foldered, checkFolderExist, there]
      rfl
    rw [kept] at writable ⊢
    exact ⟨sound.config, by rw [lookup_of_resolve bare, present], sound.plain, writable⟩

/-- What is left in the file is read from it, and the folders stay. -/
theorem foldered_leave (foldered : Foldered home tree)
    (found : setLocationDefaults home.bytes = some locations) (file : Option Bytes) :
    Foldered home (leave locations tree file) ∧
      (leave locations tree file).read (configPath home) =
        file.or (tree.read (configPath home)) := by
  obtain ⟨_, filed, _⟩ := setLocationDefaults_bytes home locations found
  cases file with
  | none => exact ⟨foldered, rfl⟩
  | some content =>
      obtain ⟨place, resolved⟩ := foldered.place
      have free : tree.nodes place ≠ some .directory := by
        rw [← lookup_of_resolve resolved]
        exact foldered.plain
      obtain ⟨after, written, nodes, ways⟩ := write_nodes content resolved free
      have left : leave locations tree (some content) = after := by
        rw [leave, filed, written, Option.getD_some]
      have directory (path : Bytes) (held : tree.lookup path = some .directory) :
          after.lookup path = some .directory := by
        obtain ⟨spot, reached, stands⟩ := Option.bind_eq_some_iff.mp held
        have other : spot ≠ place := by
          rintro rfl
          exact free stands
        rw [lookup_of_resolve ((ways path).trans reached), nodes, Function.update_of_ne other,
          stands]
      have filled : after.lookup (configPath home) = some (.file content) := by
        rw [lookup_of_resolve ((ways _).trans resolved), nodes, Function.update_self]
      rw [left]
      refine ⟨⟨directory _ foldered.config, directory _ foldered.folder, ?_, place, ?_⟩, ?_⟩
      · rw [filled]
        simp
      · rw [ways, resolved]
      · rw [FileTree.read, filled]
        rfl

theorem sound_of_foldered (foldered : Foldered home tree) (fits : home.bytes.length ≤ 95)
    (file : Usable maxConnections (tree.read (configPath home))) :
    Sound maxConnections home tree :=
  ⟨fits, foldered.config, Or.inr foldered.folder, foldered.plain, file⟩

theorem needsDefaults_iff (foldered : Foldered home tree)
    (found : setLocationDefaults home.bytes = some locations) :
    needsDefaults locations tree = true ↔
      tree.read (configPath home) = none ∨ tree.read (configPath home) = some [] := by
  obtain ⟨_, filed, _⟩ := setLocationDefaults_bytes home locations found
  have plain := foldered.plain
  simp only [needsDefaults, filed, checkFileExist, checkFileEmpty, access, FileTree.read]
  cases held : tree.lookup (configPath home) with
  | none => simp [notExist]
  | some node =>
      cases node with
      | directory => exact absurd held plain
      | file content => cases content <;> simp [notExist, exist, notEmpty, empty]

theorem prepareFile_eq (locations : Locations) (tree : FileTree) :
    prepareFile locations tree =
      if needsDefaults locations tree then
        leave locations tree (some (createDefaultConfigFile locations.rootDirectory))
      else tree := by
  simp only [prepareFile, needsDefaults, leave, writeDefaultConfigFile, Bool.or_eq_true,
    decide_eq_true_eq]
  split
  · rename_i missing
    simp [missing]
  · rename_i present
    simp [present]

theorem regular_default (root : CharArray 128) : Regular maxConnections (.default root) :=
  ⟨inRange_default root, Or.inr rfl⟩

/-- What the loop starts from, when start-up can go on from the file. -/
theorem read_prepareFile (foldered : Foldered home tree)
    (found : setLocationDefaults home.bytes = some locations)
    (usable : Usable maxConnections (tree.read (configPath home))) :
    ∃ pData, Loads ((prepareFile locations tree).read (configPath home)) pData ∧
      Regular maxConnections pData := by
  rw [prepareFile_eq]
  by_cases fills : needsDefaults locations tree = true
  · obtain ⟨_, read⟩ := foldered_leave foldered found
      (some (createDefaultConfigFile locations.rootDirectory))
    rw [if_pos fills, read, Option.some_or, createDefaultConfigFile_eq_saved]
    exact ⟨_, loads_saved _, regular_default _⟩
  · rw [if_neg fills]
    rw [needsDefaults_iff foldered found, not_or] at fills
    rcases usable with missing | vacant | loads
    · exact absurd missing fills.1
    · exact absurd vacant fills.2
    · exact loads

end Files

section Loop

variable {maxConnections : Int32} {start : Tool}

/-- From a safe state the tool goes on, or ends with a file that loads. -/
theorem safe_run (envs : Nat → Env) (safe : Safe maxConnections start) (count : Nat) :
    (∃ tool, toolRun envs start count = .next tool ∧ Safe maxConnections tool) ∨
      ∃ left, toolRun envs start count = .exit left ∧
        ∃ pData, Loads left.file pData ∧ InRange pData ∧
          pData.maxConnections = maxConnections := by
  induction count with
  | zero => exact Or.inl ⟨start, rfl, safe⟩
  | succ count ih =>
      rcases ih with ⟨tool, reached, still⟩ | ⟨left, ended, held⟩
      · rcases safe_step (envs count) still with ⟨after, stepped, next⟩ | ⟨left, exits, same⟩
        · exact Or.inl ⟨after, by rw [toolRun_succ reached, stepped], next⟩
        · exact Or.inr ⟨left, by rw [toolRun_succ reached, exits], by rw [same]; exact still.file⟩
      · exact Or.inr ⟨left, run_succ_of_exit ended, held⟩

theorem safe_of_loads {file : Option Bytes} {pData : ScftpData} (stdin arrCCommand : Bytes)
    (loads : Loads file pData) (inRange : InRange pData) :
    Safe pData.maxConnections ⟨stdin, arrCCommand, file, none⟩ :=
  ⟨⟨pData, loads, inRange, rfl⟩, by rintro _ ⟨⟩⟩

theorem fileAfter_of_exit {envs : Nat → Env} {count : Nat} {left : Tool}
    (ended : toolRun envs start count = .exit left) : fileAfter envs start count = left.file := by
  cases count with
  | zero => cases ended
  | succ count => simp only [fileAfter, ended]

theorem saved_text {env : Env} {before after : Tool} {update : Update} {text : Bytes}
    (safe : Safe maxConnections before) (running : before.update = some update)
    (stepped : toolStep env before = .next after) (ended : after.update = none)
    (file : after.file = some text) (opened : env.fopen = true) :
    ∃ pData : ScftpData, text = pData.saved ∧ InRange pData ∧
      pData.maxConnections = maxConnections := by
  obtain ⟨inRange, kept⟩ := safe.update update running
  cases leaves_of_next env before update running stepped with
  | again iBuffer => cases ended
  | passed iBuffer prompt pData next revises => cases ended
  | saved pData last revises =>
      simp only [opened, ↓reduceIte, Option.some.injEq] at file
      exact ⟨pData, file.symm, revises.inRange inRange, by rw [revises.maxConnections, kept]⟩

/-- A save that a life is killed in is one of a configuration in range, and the
file before it loads. -/
theorem loopEnding_spec (life : Life) (safe : Safe maxConnections start) :
    (∃ pData, Loads (life.loopEnding start).previous pData ∧ InRange pData ∧
        pData.maxConnections = maxConnections) ∧
      ((life.loopEnding start).effects = 0 ∨
        ∃ pData : ScftpData, (life.loopEnding start).text = pData.saved ∧ InRange pData ∧
          pData.maxConnections = maxConnections) := by
  rcases safe_run life.envs safe life.steps with ⟨before, reached, still⟩ | ⟨left, ended, held⟩
  · simp only [Life.loopEnding, reached]
    split
    · rename_i update stdin arrCCommand text running stepped
      split
      · rename_i opened
        exact ⟨still.file, Or.inr (saved_text still running stepped rfl rfl opened)⟩
      · exact ⟨still.file, Or.inl rfl⟩
    · exact ⟨still.file, Or.inl rfl⟩
  · simp only [Life.loopEnding, ended, fileAfter_of_exit ended]
    exact ⟨held, Or.inl trivial⟩

end Loop

section Lives

variable {maxConnections : Int32} {home : Str} {tree : FileTree} {locations : Locations}

/-- The save a life is killed in is one of a regular configuration, on a file that
start-up can go on from. -/
structure Ending.Regular (maxConnections : Int32) (ending : Ending) : Prop where
  previous : Usable maxConnections ending.previous
  saving : ending.effects = 0 ∨ ∃ pData : ScftpData, ending.text = pData.saved ∧
    ConfigurationTool.Regular maxConnections pData

theorem regular_ending (life : Life) (foldered : Foldered home tree)
    (found : setLocationDefaults home.bytes = some locations)
    (usable : Usable maxConnections (tree.read (configPath home))) :
    (life.ending locations tree).Regular maxConnections := by
  obtain ⟨_, filed, _⟩ := setLocationDefaults_bytes home locations found
  unfold Life.ending
  dsimp only
  rw [filed]
  split
  · exact ⟨usable, Or.inr ⟨_, createDefaultConfigFile_eq_saved _, regular_default _⟩⟩
  · obtain ⟨pData, loads, inRange, accepted⟩ := read_prepareFile foldered found usable
    obtain ⟨⟨now, held, nowInRange, same⟩, saving⟩ :=
      loopEnding_spec life (safe_of_loads life.stdin life.arrCCommand loads inRange)
    refine ⟨Or.inr (Or.inr ⟨now, held, nowInRange, by rwa [same]⟩), ?_⟩
    refine saving.imp_right ?_
    rintro ⟨saved, text, savedInRange, kept⟩
    exact ⟨saved, text, savedInRange, by rwa [kept]⟩

/-- A life that is not torn leaves a file that start-up can go on from. -/
theorem Ending.Regular.usable {ending : Ending} (regular : ending.Regular maxConnections)
    (whole : ¬ ending.Torn) : Usable maxConnections ending.file := by
  unfold Ending.file
  rcases regular.saving with none | ⟨pData, text, accepted⟩
  · rw [none, saveStopped_zero]
    exact regular.previous
  · cases effects : ending.effects with
    | zero => exact regular.previous
    | succ written =>
        rw [saveStopped_succ]
        rw [Ending.Torn, effects, not_and, not_le] at whole
        cases written with
        | zero => exact Or.inr (Or.inl rfl)
        | succ written =>
            rw [List.take_of_length_le (by have := whole (by omega); omega), text]
            exact Or.inr (Or.inr ⟨pData, loads_saved pData, accepted⟩)

/-- A torn life leaves a beginning of a text that is not empty and does not load. -/
theorem Ending.Regular.torn {ending : Ending} (regular : ending.Regular maxConnections)
    (torn : ending.Torn) :
    ∃ byte rest, ending.file = some (byte :: rest) ∧ ∀ other, ¬ Loads ending.file other := by
  obtain ⟨begun, unfinished⟩ := torn
  rcases regular.saving with none | ⟨pData, text, _⟩
  · omega
  · obtain ⟨written, effects⟩ : ∃ written, ending.effects = written + 2 :=
      ⟨ending.effects - 2, by omega⟩
    have short : written + 1 < pData.saved.length := by
      rw [effects, text] at unfinished
      omega
    have file : ending.file = some (pData.saved.take (written + 1)) := by
      rw [Ending.file, effects, saveStopped_succ, text]
    obtain ⟨byte, rest, content⟩ := List.exists_cons_of_length_pos
      (by omega : 0 < pData.saved.length)
    refine ⟨byte, rest.take written, by rw [file, content, List.take_succ_cons], ?_⟩
    rw [file]
    exact not_loads_truncated pData (written + 1) short

theorem startUp_of_fits (tree : FileTree) (fits : home.bytes.length ≤ 95) :
    ∃ locations, setLocationDefaults home.bytes = some locations ∧
      locations.configFileLocation.bytes = configPath home ∧
      startUp home.bytes tree =
        some (locations, prepareFile locations (prepareFolder locations tree)) := by
  obtain ⟨locations, found⟩ := (setLocationDefaults_iff home).mpr fits
  refine ⟨locations, found, (setLocationDefaults_bytes home locations found).2.1, ?_⟩
  rw [startUp, found]
  rfl

theorem serves_of_sound (sound : Sound maxConnections home tree) :
    Serves maxConnections home tree := by
  obtain ⟨locations, found, filed, started⟩ := startUp_of_fits tree sound.fits
  obtain ⟨foldered, read⟩ := foldered_prepareFolder sound found
  have usable := sound.file
  rw [← read] at usable
  obtain ⟨pData, loads, regular⟩ := read_prepareFile foldered found usable
  rw [← filed] at loads
  refine ⟨locations, _, started, ⟨pData, loads, regular⟩, ?_⟩
  intro stdin arrCCommand envs count broken
  rcases safe_run envs (safe_of_loads stdin arrCCommand loads regular.1) count with
    ⟨tool, reached, _⟩ | ⟨left, ended, _⟩
  · rw [broken] at reached
    cases reached
  · rw [broken] at ended
    cases ended

theorem prepareFolder_of_foldered (foldered : Foldered home tree)
    (found : setLocationDefaults home.bytes = some locations) :
    prepareFolder locations tree = tree := by
  obtain ⟨place, here, directory⟩ := Option.bind_eq_some_iff.mp foldered.config
  obtain ⟨_, _, named⟩ := setLocationDefaults_bytes home locations found
  obtain ⟨bare, slashed⟩ := folder_places here directory
  have present := foldered.folder
  rw [lookup_of_resolve bare] at present
  have there : tree.opendir (home.bytes ++ ascii "/.config/SCFTP/") = true := by
    simp [opendir, lookup_of_resolve slashed, present]
  simp only [prepareFolder, named, checkFolderExist, there]
  rfl

/-- Start-up leaves a file alone that holds anything, so one that does not load stays. -/
theorem not_serves_of_torn (foldered : Foldered home tree) (fits : home.bytes.length ≤ 95)
    {byte : UInt8} {rest : Bytes} (read : tree.read (configPath home) = some (byte :: rest))
    (broken : ∀ other, ¬ Loads (some (byte :: rest)) other) :
    ¬ Serves maxConnections home tree := by
  rintro ⟨locations, after, started, ⟨pData, loads, _⟩, _⟩
  obtain ⟨filled, found, filed, made⟩ := startUp_of_fits tree fits
  rw [started] at made
  cases made
  have kept : prepareFile locations tree = tree := by
    rw [prepareFile_eq, if_neg]
    rw [needsDefaults_iff foldered found, read]
    simp
  rw [prepareFolder_of_foldered foldered found, kept, filed, read] at loads
  exact broken pData loads

theorem after_eq (life : Life) (found : setLocationDefaults home.bytes = some locations) :
    life.after home.bytes tree = some (leave locations (prepareFolder locations tree)
      (life.ending locations (prepareFolder locations tree)).file) := by
  rw [Life.after, found]
  rfl

/-- One life, told by whether it is torn. -/
theorem life_step (life : Life) (sound : Sound maxConnections home tree)
    (found : setLocationDefaults home.bytes = some locations) :
    ∃ after, life.after home.bytes tree = some after ∧
      (¬ (life.ending locations (prepareFolder locations tree)).Torn →
        Sound maxConnections home after) ∧
      ((life.ending locations (prepareFolder locations tree)).Torn →
        ¬ Serves maxConnections home after) := by
  obtain ⟨foldered, read⟩ := foldered_prepareFolder sound found
  have usable := sound.file
  rw [← read] at usable
  have regular := regular_ending life foldered found usable
  obtain ⟨still, content⟩ := foldered_leave foldered found
    (life.ending locations (prepareFolder locations tree)).file
  refine ⟨_, after_eq life found, ?_, ?_⟩
  · intro whole
    refine sound_of_foldered still sound.fits ?_
    rw [content]
    cases left : (life.ending locations (prepareFolder locations tree)).file with
    | none => exact usable
    | some text =>
        rw [Option.some_or, ← left]
        exact regular.usable whole
  · intro torn
    obtain ⟨byte, rest, left, broken⟩ := regular.torn torn
    rw [left] at still content broken ⊢
    rw [Option.some_or] at content
    exact not_serves_of_torn still sound.fits content broken

theorem Survives.serves {lives : List Life}
    (survives : Survives maxConnections home tree lives) : Serves maxConnections home tree := by
  cases lives with
  | nil => exact survives
  | cons life rest => exact survives.1

end Lives

/-- Whatever is typed in any number of lives of the tool, and wherever each is
killed: start-up leaves a configuration that loads, in range, and no command
faults, before, between and after all of them, exactly when none is killed while
part of a text is in the file. An empty file is filled again, part of one is kept. -/
theorem lives_iff (maxConnections : Int32) (home : Str) (tree : FileTree)
    (sound : Sound maxConnections home tree) (lives : List Life) :
    Survives maxConnections home tree lives ↔ Untorn home tree lives := by
  induction lives generalizing tree with
  | nil => exact iff_of_true (serves_of_sound sound) trivial
  | cons life rest ih =>
      obtain ⟨locations, found, _, _⟩ := startUp_of_fits tree sound.fits
      obtain ⟨after, lived, whole, torn⟩ := life_step life sound found
      constructor
      · rintro ⟨_, later⟩
        have untorn : ¬ (life.ending locations (prepareFolder locations tree)).Torn :=
          fun partly => torn partly (later after lived).serves
        refine ⟨?_, ?_⟩
        · intro other same
          rw [found] at same
          cases same
          exact untorn
        · intro next same
          rw [lived] at same
          cases same
          exact (ih after (whole untorn)).mp (later after lived)
      · rintro ⟨untorn, later⟩
        refine ⟨serves_of_sound sound, ?_⟩
        intro next same
        rw [lived] at same
        cases same
        exact (ih after (whole (untorn locations found))).mpr (later after lived)

theorem untorn_of_emptied (home : Str) (tree : FileTree) (lives : List Life)
    (emptied : ∀ life ∈ lives, life.filled ≤ 1 ∧ life.saved ≤ 1) : Untorn home tree lives := by
  induction lives generalizing tree with
  | nil => trivial
  | cons life rest ih =>
      obtain ⟨filled, saved⟩ := emptied life List.mem_cons_self
      refine ⟨?_, fun after _ => ih after fun later member =>
        emptied later (List.mem_cons_of_mem _ member)⟩
      rintro locations _ ⟨begun, _⟩
      have short : (life.ending locations (prepareFolder locations tree)).effects ≤ 1 := by
        unfold Life.ending Life.loopEnding
        dsimp only
        split
        · exact filled
        · split
          · split
            · split
              · exact saved
              · exact Nat.zero_le 1
            · exact Nat.zero_le 1
          · exact Nat.zero_le 1
      omega

/-- A life that answers all prompts and is killed when its save has emptied the file. -/
def emptying : Life where
  stdin := answering.stdin
  arrCCommand := []
  envs _ := willing
  filled := 1000
  steps := 6
  saved := 1

/-- Two lives that are killed at start-up, one behind `fopen` and one before it. -/
theorem emptied_survives :
    Survives 5 sampleHome (FileTree.directories [[], [ascii "h"], [ascii ".config", ascii "h"]]
      (by decide) (by decide)) [{ emptying with filled := 1 }, { emptying with filled := 0 }] := by
  refine (lives_iff 5 sampleHome _ ?_ _).mpr (untorn_of_emptied _ _ _ (by decide))
  exact ⟨by decide, by decide, by decide, by decide, Or.inl (by decide)⟩

end Scftp.ConfigurationTool

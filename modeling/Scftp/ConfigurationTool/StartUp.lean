import Scftp.ConfigurationTool.Common
import Scftp.Lib.FileTree

set_option autoImplicit false

/- utils.c and the start of `main`: the folder and the file of the configuration. -/
namespace Scftp.ConfigurationTool

open CString FileTree

/-- The buffers of common.h, in static storage and so empty at first. -/
structure Locations where
  rootDirectory : CharArray 128
  configFileLocation : CharArray 128
  configFolderLocation : CharArray 128

def emptyLocation : CharArray 128 := ⟨⟨[], List.not_mem_nil⟩, by decide⟩

/-- The three `strcat` calls that fill one buffer. -/
def setLocation (home suffix : Bytes) : Option (CharArray 128) := do
  let location ← strcat home emptyLocation
  let location ← strcat (ascii "/") location
  strcat suffix location

/-- `SetLocationDefaults`; `none` when a buffer overflows. -/
def setLocationDefaults (home : Bytes) : Option Locations := do
  let rootDirectory ← setLocation home (ascii "SCFTP/")
  let configFileLocation ← setLocation home (ascii ".config/SCFTP/scftp_config.json")
  let configFolderLocation ← setLocation home (ascii ".config/SCFTP/")
  return { rootDirectory, configFileLocation, configFolderLocation }

def notExist : UInt8 := 0
def exist : UInt8 := 1
def empty : UInt8 := 0
def notEmpty : UInt8 := 1

/-- A failed `mkdir` is only reported. -/
def createFolder (tree : FileTree) (folderPath : Bytes) : FileTree :=
  (tree.mkdir folderPath).getD tree

def checkFolderExist (tree : FileTree) (folderName : Bytes) : UInt8 :=
  if tree.opendir folderName then exist else notExist

def checkFileExist (tree : FileTree) (fileName : Bytes) : UInt8 :=
  if tree.access fileName then exist else notExist

def checkFileEmpty (tree : FileTree) (fileName : Bytes) : UInt8 :=
  match tree.lookup fileName with
  | none => -1
  | some (.file []) => empty
  | some _ => notEmpty

/-- `CreateDefaultConfigFile` on the file tree. A failed `fopen` is only reported. -/
def writeDefaultConfigFile (locations : Locations) (tree : FileTree) : FileTree :=
  (tree.write locations.configFileLocation.bytes
    (createDefaultConfigFile locations.rootDirectory)).getD tree

/-- `main` checks the folder and creates it when it is missing. -/
def prepareFolder (locations : Locations) (tree : FileTree) : FileTree :=
  let folder := locations.configFolderLocation.bytes
  if checkFolderExist tree folder = notExist then createFolder tree folder else tree

/-- `main` checks the file and fills it when it is missing or empty. -/
def prepareFile (locations : Locations) (tree : FileTree) : FileTree :=
  let file := locations.configFileLocation.bytes
  if checkFileExist tree file = notExist then writeDefaultConfigFile locations tree
  else if checkFileEmpty tree file = empty then writeDefaultConfigFile locations tree
  else tree

/-- `main` up to its command loop; `none` when a location overflows its buffer. -/
def startUp (home : Bytes) (tree : FileTree) : Option (Locations × FileTree) := do
  let locations ← setLocationDefaults home
  return (locations, prepareFile locations (prepareFolder locations tree))

/-- Where the configuration file of a home directory stands. -/
def configPath (home : Str) : Bytes := home.bytes ++ ascii "/.config/SCFTP/scftp_config.json"

/-- A home directory: the folders on the way to the configuration are there or
not, and its file is missing, empty or a configuration. -/
structure Home (home : Str) (tree : FileTree) : Prop where
  directory : tree.lookup home.bytes = some .directory
  config : tree.lookup (home.bytes ++ ascii "/.config") = none ∨
    tree.lookup (home.bytes ++ ascii "/.config") = some .directory
  folder : tree.lookup (home.bytes ++ ascii "/.config/SCFTP") = none ∨
    tree.lookup (home.bytes ++ ascii "/.config/SCFTP") = some .directory
  file : tree.lookup (configPath home) = none ∨ tree.lookup (configPath home) = some (.file []) ∨
    ∃ content pData, tree.lookup (configPath home) = some (.file content) ∧
      Loads (some content) pData

/-- What start-up must leave: the configuration that was there, or the defaults
with the root under the home directory. -/
def Expected (home : Str) (tree : FileTree) (pData : ScftpData) : Prop :=
  match tree.read (configPath home) with
  | some (byte :: rest) => Loads (some (byte :: rest)) pData
  | _ => ∃ root : CharArray 128, root.bytes = home.bytes ++ ascii "/SCFTP/" ∧
      pData = ScftpData.default root

theorem setLocation_iff (home : Str) (suffix : Bytes) (location : CharArray 128) :
    setLocation home.bytes suffix = some location ↔
      location.bytes = home.bytes ++ slash :: cstr suffix := by
  have visible : cstr home.bytes = home.bytes := cstr_of_noNul home.bytes home.noNul
  simp only [setLocation, Option.bind_eq_bind, Option.bind_eq_some_iff, strcat_iff]
  constructor
  · rintro ⟨first, named, second, slashed, final⟩
    rw [final, slashed, named, visible]
    simp [emptyLocation, ascii, cstr]
  · intro final
    have fits := location.fits
    rw [final, List.length_append, List.length_cons] at fits
    have noNul : (0 : UInt8) ∉ home.bytes ++ ascii "/" := by
      simpa using ⟨home.noNul, by decide⟩
    refine ⟨⟨home, by omega⟩, by rw [visible]; rfl, ⟨⟨home.bytes ++ ascii "/", noNul⟩, ?_⟩, rfl, ?_⟩
    · simp only [List.length_append]
      change home.bytes.length + 1 < 128
      omega
    · rw [final]
      simp [ascii]

/-- The locations fit their buffers exactly when the home path has at most 95 bytes. -/
theorem setLocationDefaults_iff (home : Str) :
    (∃ locations, setLocationDefaults home.bytes = some locations) ↔ home.bytes.length ≤ 95 := by
  have room (suffix : Bytes) (noNul : (0 : UInt8) ∉ suffix) :
      (∃ location, setLocation home.bytes suffix = some location) ↔
        home.bytes.length + 1 + suffix.length < 128 := by
    simp only [setLocation_iff, cstr_of_noNul suffix noNul]
    constructor
    · rintro ⟨location, same⟩
      have fits := location.fits
      rw [same, List.length_append, List.length_cons] at fits
      omega
    · intro fits
      have clean : (0 : UInt8) ∉ home.bytes ++ slash :: suffix := by
        simpa using ⟨home.noNul, by decide, noNul⟩
      have short : (home.bytes ++ slash :: suffix).length < 128 := by
        rw [List.length_append, List.length_cons]
        omega
      exact ⟨⟨⟨_, clean⟩, short⟩, rfl⟩
  have root := room (ascii "SCFTP/") (by decide)
  have file := room (ascii ".config/SCFTP/scftp_config.json") (by decide)
  have folder := room (ascii ".config/SCFTP/") (by decide)
  rw [show (ascii "SCFTP/").length = 6 from rfl] at root
  rw [show (ascii ".config/SCFTP/scftp_config.json").length = 31 from rfl] at file
  rw [show (ascii ".config/SCFTP/").length = 14 from rfl] at folder
  constructor
  · rintro ⟨locations, found⟩
    simp only [setLocationDefaults, Option.bind_eq_bind, Option.bind_eq_some_iff] at found
    obtain ⟨_, _, location, filled, _⟩ := found
    have fits := file.mp ⟨location, filled⟩
    omega
  · intro fits
    obtain ⟨rootDirectory, first⟩ := root.mpr (by omega)
    obtain ⟨configFile, second⟩ := file.mpr (by omega)
    obtain ⟨configFolder, third⟩ := folder.mpr (by omega)
    exact ⟨⟨rootDirectory, configFile, configFolder⟩, by
      simp only [setLocationDefaults, first, second, third, Option.bind_eq_bind, Option.bind_some]
      rfl⟩

theorem setLocationDefaults_bytes (home : Str) (locations : Locations)
    (found : setLocationDefaults home.bytes = some locations) :
    locations.rootDirectory.bytes = home.bytes ++ ascii "/SCFTP/" ∧
      locations.configFileLocation.bytes = configPath home ∧
      locations.configFolderLocation.bytes = home.bytes ++ ascii "/.config/SCFTP/" := by
  simp only [setLocationDefaults, Option.bind_eq_bind, Option.bind_eq_some_iff, setLocation_iff]
    at found
  obtain ⟨root, rooted, file, filed, folder, foldered, made⟩ := found
  cases made
  exact ⟨rooted, filed, foldered⟩

/- Paths under the home directory, one directory at a time. -/
section Paths

variable {home : Str} {tree : FileTree} {place : Location}

theorem folder_path (home : Str) : home.bytes ++ ascii "/.config/SCFTP" =
    home.bytes ++ ascii "/.config" ++ slash :: ascii "SCFTP" :=
  (List.append_assoc home.bytes (ascii "/.config") (ascii "/SCFTP")).symm

theorem slashed_path (home : Str) : home.bytes ++ ascii "/.config/SCFTP/" =
    home.bytes ++ ascii "/.config" ++ slash :: ascii "SCFTP/" :=
  (List.append_assoc home.bytes (ascii "/.config") (ascii "/SCFTP/")).symm

theorem file_path (home : Str) :
    configPath home = home.bytes ++ ascii "/.config/SCFTP" ++ slash :: ascii "scftp_config.json" :=
  (List.append_assoc home.bytes (ascii "/.config/SCFTP") (ascii "/scftp_config.json")).symm

theorem resolve_config (here : tree.resolve home.bytes = some place)
    (directory : tree.nodes place = some .directory) :
    tree.resolve (home.bytes ++ ascii "/.config") = some (ascii ".config" :: place) :=
  resolve_child here directory (ascii ".config") (ascii ".config") (by decide)

/-- With `.config` there, the folder check leaves a folder for the file, and the
file as it was. -/
theorem prepareFolder_spec (locations : Locations)
    (foldered : locations.configFolderLocation.bytes = home.bytes ++ ascii "/.config/SCFTP/")
    (here : tree.resolve (home.bytes ++ ascii "/.config") = some place)
    (directory : tree.nodes place = some .directory)
    (folder : tree.lookup (home.bytes ++ ascii "/.config/SCFTP") = none ∨
      tree.lookup (home.bytes ++ ascii "/.config/SCFTP") = some .directory) :
    (∃ file, (prepareFolder locations tree).resolve (configPath home) = some file) ∧
      (prepareFolder locations tree).lookup (configPath home) = tree.lookup (configPath home) := by
  have bare : tree.resolve (home.bytes ++ ascii "/.config/SCFTP") =
      some (ascii "SCFTP" :: place) := by
    rw [folder_path]
    exact resolve_child here directory (ascii "SCFTP") (ascii "SCFTP") (by decide)
  have slashed : tree.resolve (home.bytes ++ ascii "/.config/SCFTP/") =
      some (ascii "SCFTP" :: place) := by
    rw [slashed_path]
    exact resolve_child here directory (ascii "SCFTP/") (ascii "SCFTP") (by decide)
  have inside {other : FileTree}
      (reached : other.resolve (home.bytes ++ ascii "/.config/SCFTP") =
        some (ascii "SCFTP" :: place))
      (present : other.nodes (ascii "SCFTP" :: place) = some .directory) :
      other.resolve (configPath home) =
        some (ascii "scftp_config.json" :: ascii "SCFTP" :: place) := by
    rw [file_path]
    exact resolve_child reached present (ascii "scftp_config.json") (ascii "scftp_config.json")
      (by decide)
  rw [lookup_of_resolve bare] at folder
  rcases folder with missing | present
  · obtain ⟨made, created, nodes, kept⟩ := mkdir_of_resolve slashed missing
    have same : prepareFolder locations tree = made := by
      have absent : tree.opendir (home.bytes ++ ascii "/.config/SCFTP/") = false := by
        simp [opendir, lookup_of_resolve slashed, missing]
      simp only [prepareFolder, foldered, checkFolderExist, absent, createFolder, created]
      rfl
    have file := inside (kept _ _ bare) (by rw [nodes, Function.update_self])
    have vacant : tree.nodes (ascii "scftp_config.json" :: ascii "SCFTP" :: place) = none := by
      by_contra occupied
      rw [tree.closed _ _ occupied] at missing
      cases missing
    have lost : tree.resolve (configPath home) = none := by
      rw [file_path]
      apply resolve_below_none bare _ (ascii "scftp_config.json") (by decide)
      simp [missing]
    rw [same]
    refine ⟨⟨_, file⟩, ?_⟩
    rw [lookup_of_resolve file, nodes, Function.update_of_ne (by simp), vacant, lookup, lost,
      Option.bind_none]
  · have same : prepareFolder locations tree = tree := by
      have found : tree.opendir (home.bytes ++ ascii "/.config/SCFTP/") = true := by
        simp [opendir, lookup_of_resolve slashed, present]
      simp only [prepareFolder, foldered, checkFolderExist, found]
      rfl
    rw [same]
    exact ⟨⟨_, inside bare present⟩, rfl⟩

end Paths

/-- The file checks leave a configuration in a place that can be written. -/
theorem prepareFile_spec (home : Str) (tree : FileTree) (locations : Locations)
    (found : setLocationDefaults home.bytes = some locations)
    (writable : ∃ file, tree.resolve (configPath home) = some file)
    (state : tree.lookup (configPath home) = none ∨
      tree.lookup (configPath home) = some (.file []) ∨
      ∃ content pData, tree.lookup (configPath home) = some (.file content) ∧
        Loads (some content) pData) :
    ∃ pData, Expected home tree pData ∧
      Loads ((prepareFile locations tree).read (configPath home)) pData := by
  obtain ⟨rooted, filed, _⟩ := setLocationDefaults_bytes home locations found
  obtain ⟨file, resolved⟩ := writable
  have node := lookup_of_resolve resolved
  have default (free : tree.nodes file ≠ some .directory)
      (same : prepareFile locations tree = writeDefaultConfigFile locations tree) :
      Loads ((prepareFile locations tree).read (configPath home))
        (ScftpData.default locations.rootDirectory) := by
    obtain ⟨made, written, read⟩ := write_of_resolve
      (createDefaultConfigFile locations.rootDirectory) resolved free
    rw [same, writeDefaultConfigFile, filed, written, Option.getD_some, read,
      createDefaultConfigFile_eq_saved]
    exact loads_saved _
  rcases state with missing | vacant | ⟨content, pData, held, loads⟩
  · have same : prepareFile locations tree = writeDefaultConfigFile locations tree := by
      simp only [prepareFile, filed, checkFileExist, access, missing]
      rfl
    refine ⟨_, ?_, default (by rw [← node, missing]; simp) same⟩
    simp only [Expected, FileTree.read, missing]
    exact ⟨_, rooted, rfl⟩
  · have same : prepareFile locations tree = writeDefaultConfigFile locations tree := by
      simp only [prepareFile, filed, checkFileExist, access, checkFileEmpty, vacant]
      rfl
    refine ⟨_, ?_, default (by rw [← node, vacant]; simp) same⟩
    simp only [Expected, FileTree.read, vacant]
    exact ⟨_, rooted, rfl⟩
  · cases content with
    | nil =>
        have refused : load (some []) [] = .error .nullItem := rfl
        rw [loads []] at refused
        cases refused
    | cons byte rest =>
        have same : prepareFile locations tree = tree := by
          simp only [prepareFile, filed, checkFileExist, access, checkFileEmpty, held]
          rfl
        refine ⟨pData, ?_, ?_⟩
        · simp only [Expected, FileTree.read, held]
          exact loads
        · rw [same]
          simp only [FileTree.read, held]
          exact loads

/-- Without the folder `.config`, nothing is created and there is no file to read. -/
theorem prepare_lost (home : Str) (tree : FileTree) (locations : Locations)
    (found : setLocationDefaults home.bytes = some locations)
    (directory : tree.lookup home.bytes = some .directory)
    (missing : tree.lookup (home.bytes ++ ascii "/.config") ≠ some .directory) :
    prepareFile locations (prepareFolder locations tree) = tree ∧
      tree.read (configPath home) = none := by
  obtain ⟨place, here, directory⟩ := Option.bind_eq_some_iff.mp directory
  have config := resolve_config here directory
  rw [lookup_of_resolve config] at missing
  obtain ⟨_, filed, foldered⟩ := setLocationDefaults_bytes home locations found
  have noFolder : tree.resolve (home.bytes ++ ascii "/.config/SCFTP/") = none := by
    rw [slashed_path]
    exact resolve_below_none config missing (ascii "SCFTP/") (by decide)
  have noFile : tree.resolve (configPath home) = none := by
    rw [file_path, folder_path, List.append_assoc]
    exact resolve_below_none config missing (ascii "SCFTP/scftp_config.json") (by decide)
  have created : createFolder tree (home.bytes ++ ascii "/.config/SCFTP/") = tree := by
    rw [createFolder, mkdir_eq_none noFolder, Option.getD_none]
  have written : writeDefaultConfigFile locations tree = tree := by
    rw [writeDefaultConfigFile, filed, write_eq_none _ noFile, Option.getD_none]
  refine ⟨?_, ?_⟩
  · simp only [prepareFolder, prepareFile, foldered, created, ite_self, written]
  · simp [FileTree.read, lookup, noFile]

/-- After start-up the file loads to what `Expected` asks for. -/
def Ready (home : Str) (tree : FileTree) : Prop :=
  ∃ locations after pData, startUp home.bytes tree = some (locations, after) ∧
    locations.configFileLocation.bytes = configPath home ∧ Expected home tree pData ∧
    Loads (after.read locations.configFileLocation.bytes) pData

theorem not_ready_of_lost (home : Str) (tree : FileTree)
    (directory : tree.lookup home.bytes = some .directory)
    (missing : tree.lookup (home.bytes ++ ascii "/.config") ≠ some .directory) :
      ¬ Ready home tree := by
  rintro ⟨locations, after, pData, started, filed, _, loads⟩
  simp only [startUp, Option.bind_eq_bind, Option.bind_eq_some_iff] at started
  obtain ⟨filled, found, made⟩ := started
  obtain ⟨unchanged, unread⟩ := prepare_lost home tree filled found directory missing
  rw [unchanged] at made
  cases made
  have refused : load none [] = .error .nullItem := rfl
  rw [filed, unread] at loads
  rw [loads []] at refused
  cases refused

/-- Start-up leaves the configuration that was there, or the defaults, in a file
that loads, exactly when the home path has at most 95 bytes and the folder
`.config` is already there. -/
theorem startUp_iff (home : Str) (tree : FileTree) (state : Home home tree) :
    Ready home tree ↔
      home.bytes.length ≤ 95 ∧ tree.lookup (home.bytes ++ ascii "/.config") = some .directory := by
  constructor
  · intro ready
    refine ⟨?_, ?_⟩
    · obtain ⟨locations, after, pData, started, _⟩ := ready
      simp only [startUp, Option.bind_eq_bind, Option.bind_eq_some_iff] at started
      obtain ⟨filled, found, _⟩ := started
      exact (setLocationDefaults_iff home).mp ⟨filled, found⟩
    · by_contra missing
      exact not_ready_of_lost home tree state.directory missing ready
  · rintro ⟨fits, present⟩
    obtain ⟨place, here, directory⟩ := Option.bind_eq_some_iff.mp state.directory
    have config := resolve_config here directory
    rw [lookup_of_resolve config] at present
    obtain ⟨locations, found⟩ := (setLocationDefaults_iff home).mpr fits
    obtain ⟨_, filed, foldered⟩ := setLocationDefaults_bytes home locations found
    obtain ⟨writable, same⟩ :=
      prepareFolder_spec locations foldered config present state.folder
    obtain ⟨pData, expected, loads⟩ := prepareFile_spec home _ locations found writable
      (by rw [same]; exact state.file)
    refine ⟨locations, prepareFile locations (prepareFolder locations tree), pData,
      ?_, filed, ?_, ?_⟩
    · rw [startUp, found]
      rfl
    · simpa only [Expected, FileTree.read, same] using expected
    · rw [filed]
      exact loads

def sampleHome : Str := ⟨ascii "/h", by decide⟩

theorem folders_ready :
    Ready sampleHome (FileTree.directories [[], [ascii "h"], [ascii ".config", ascii "h"]]
      (by decide) (by decide)) := by
  apply (startUp_iff sampleHome _ ?_).mpr
  · exact ⟨by decide, by decide⟩
  · exact ⟨by decide, by decide, by decide, Or.inl (by decide)⟩

/-- A home without the folder `.config`: start-up leaves no file at all. -/
theorem bareHome_not_ready :
    Home sampleHome (FileTree.directories [[], [ascii "h"]] (by decide) (by decide)) ∧
      ¬ Ready sampleHome (FileTree.directories [[], [ascii "h"]] (by decide) (by decide)) := by
  refine ⟨⟨by decide, by decide, by decide, Or.inl (by decide)⟩, ?_⟩
  exact not_ready_of_lost sampleHome _ (by decide) (by decide)

end Scftp.ConfigurationTool

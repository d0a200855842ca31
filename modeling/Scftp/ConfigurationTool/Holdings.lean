import Scftp.ConfigurationTool.Resources
import Scftp.ConfigurationTool.Restarts

set_option autoImplicit false

/- Whole runs of the tool, call by call, from start-up on. -/
namespace Scftp.ConfigurationTool.Calls

open CString FileTree Ledger Machine Program Program.Prog Stdin

section Loop

variable {envs : Nat → Env} {system : System} {locals : Locals} {path : Bytes}
  {before middle after : FileTree}

theorem Rewritten.trans (first : Rewritten path before middle)
    (second : Rewritten path middle after) : Rewritten path before after := by
  rcases second with rfl | ⟨content, written⟩
  · exact first
  · rcases first with rfl | ⟨other, previous⟩
    · exact Or.inr ⟨content, written⟩
    · exact Or.inr ⟨content, (write_write previous content).symm.trans written⟩

theorem Rewritten.plain (rewritten : Rewritten path before after)
    (plain : before.lookup path ≠ some .directory) : after.lookup path ≠ some .directory := by
  rcases rewritten with rfl | ⟨content, written⟩
  · exact plain
  · rw [lookup_write written]
    simp

/-- Writing the file changes no answer. -/
theorem filed_rewritten (rewritten : Rewritten path before after) (env : Env) :
    filed env path after = filed env path before := by
  rcases rewritten with rfl | ⟨content, written⟩
  · rfl
  · have folders : after.opendir = before.opendir :=
      funext fun other => (write_ways written other).2
    rw [filed, filed, folders, write_write written]

/-- What the step at a moment of a run leaves behind in memory. -/
def leaksAt (envs : Nat → Env) (start : Tool) (moment : Nat) : List Kind :=
  match toolRun envs start moment with
  | .next tool => stepLeaks (envs moment) tool
  | _ => []

/-- What the loop of the program is to the run of the tool. -/
structure Ran (envs : Nat → Env) (path : Bytes) (system : System) (locals : Locals) (count : Nat)
    (outcome : Outcome Locals) (after : System) : Prop where
  reached : outcome.map (·.on path after) =
    toolRun (fun moment => filed (envs moment) path system.tree) (locals.on path system) count
  tree : Rewritten path system.tree after.tree
  reads : ∀ going, outcome = Outcome.next going → after.reads = count
  held : ∃ more, after.places = system.places ++ more ∧
    (Ledger.held more).map Resource.kind = (List.range count).flatMap
      (leaksAt (fun moment => filed (envs moment) path system.tree) (locals.on path system))

theorem Ran.stays {count : Nat} {outcome : Outcome Locals} {after : System}
    (ran : Ran envs path system locals count outcome after)
    (ended : ∀ going, outcome ≠ .next going) :
    Ran envs path system locals (count + 1) outcome after := by
  have reached := ran.reached
  obtain ⟨more, grown, kinds⟩ := ran.held
  have later : toolRun (fun moment => filed (envs moment) path system.tree)
        (locals.on path system) (count + 1) =
      toolRun (fun moment => filed (envs moment) path system.tree) (locals.on path system) count ∧
      leaksAt (fun moment => filed (envs moment) path system.tree) (locals.on path system) count =
        [] := by
    cases outcome with
    | next going => exact absurd rfl (ended going)
    | exit left =>
        have left := reached.symm
        exact ⟨(run_succ_of_exit left).trans left.symm, by rw [leaksAt, left]; rfl⟩
    | fault =>
        have broken := reached.symm
        exact ⟨(run_succ_of_fault broken).trans broken.symm, by rw [leaksAt, broken]; rfl⟩
  refine ⟨reached.trans later.1.symm, ran.tree, fun going same => absurd same (ended going), more,
    grown, ?_⟩
  rw [List.range_succ, List.flatMap_append, kinds, List.flatMap_singleton, later.2,
    List.append_nil]

theorem mainLoop_wp (plain : system.tree.lookup path ≠ some .directory) (unread : system.reads = 0)
    (count : Nat) {post : Outcome Locals → System → Prop}
    (goesOn : ∀ outcome after, Ran envs path system locals count outcome after →
      post outcome after) :
    (mainLoop path count locals).wp (answer envs) Allowed post system := by
  induction count generalizing post with
  | zero =>
      apply goesOn
      refine ⟨rfl, Or.inl rfl, fun _ _ => unread, [], (List.append_nil _).symm, rfl⟩
  | succ count ih =>
      rw [mainLoop, wp_bind]
      apply ih
      intro outcome middle ran
      cases outcome with
      | exit left => exact goesOn _ middle (ran.stays nofun)
      | fault => exact goesOn _ middle (ran.stays nofun)
      | next going =>
          apply mainStep_wp (ran.tree.plain plain)
          intro outcome after follows
          have moment := ran.reads going rfl
          have answers : filed (envs middle.reads) path middle.tree =
              filed (envs count) path system.tree := by
            rw [filed_rewritten ran.tree, moment]
          obtain ⟨reached, tree, reads, others, further, same⟩ := follows
          rw [answers] at reached same
          have here : toolRun (fun moment => filed (envs moment) path system.tree)
              (locals.on path system) count = .next (going.on path middle) := ran.reached.symm
          have leaks : leaksAt (fun moment => filed (envs moment) path system.tree)
              (locals.on path system) count =
                stepLeaks (filed (envs count) path system.tree) (going.on path middle) := by
            rw [leaksAt, here]
          obtain ⟨places, grown, kinds⟩ := ran.held
          apply goesOn
          refine ⟨?_, ran.tree.trans tree, fun _ _ => ?_, places ++ others, ?_, ?_⟩
          · rw [reached, toolRun_succ here]
          · rw [reads, moment]
          · rw [further, grown, List.append_assoc]
          · rw [held_append, List.map_append, kinds, same, List.range_succ, List.flatMap_append,
              List.flatMap_singleton, leaks]

end Loop

section StartUp

variable {envs : Nat → Env} {system : System} {locations : Locations} {home : Str}
  {tree : FileTree}

theorem prepareFolder_wp {post : Unit → System → Prop}
    (goesOn : ∀ after text,
      Did system after (ConfigurationTool.prepareFolder locations system.tree) [] text →
      post () after) :
    (prepareFolder locations).wp (answer envs) Allowed post system := by
  rw [prepareFolder, wp_bind]
  apply printf_wp
  intro told first
  rw [wp_bind]
  apply checkFolderExist_wp
  intro checked text second
  have did := first.trans second
  rw [ConfigurationTool.prepareFolder, ← first.tree] at goesOn
  split
  · rename_i missing
    rw [if_pos missing, ← second.tree] at goesOn
    apply createFolder_wp
    intro after text third
    exact goesOn after _ (did.trans third)
  · rename_i there
    rw [if_neg there] at goesOn
    exact goesOn checked _ did

/-- What the file checks leave behind: the stream of `CheckFileEmpty`, and what a
default file that does not open has cost. -/
def fileLeaks (locations : Locations) (tree : FileTree) : List Kind :=
  (if tree.access locations.configFileLocation.bytes then [.stream] else []) ++
    if needsDefaults locations tree then defaultLeaks locations tree else []

theorem prepareFile_wp {post : Unit → System → Prop}
    (goesOn : ∀ after text,
      Did system after (ConfigurationTool.prepareFile locations system.tree)
        (fileLeaks locations system.tree) text →
      post () after) :
    (prepareFile locations).wp (answer envs) Allowed post system := by
  rw [prepareFile, wp_bind]
  apply printf_wp
  intro told first
  rw [wp_bind]
  apply checkFileExist_wp
  intro checked text second
  have did := first.trans second
  have same : checked.tree = system.tree := second.tree.trans first.tree
  rw [first.tree, ConfigurationTool.checkFileExist]
  cases found : system.tree.access locations.configFileLocation.bytes with
  | false =>
      have leaks : fileLeaks locations system.tree = defaultLeaks locations system.tree := by
        simp [fileLeaks, needsDefaults, ConfigurationTool.checkFileExist, found]
      have filled : ConfigurationTool.prepareFile locations system.tree =
          writeDefaultConfigFile locations system.tree := by
        simp [ConfigurationTool.prepareFile, ConfigurationTool.checkFileExist, found]
      rw [leaks, filled, ← same] at goesOn
      simp only [Bool.false_eq_true, ↓reduceIte]
      rw [wp_bind]
      apply printf_wp
      intro named third
      apply createDefaultConfigFile_wp
      intro after text fourth
      rw [third.tree] at fourth
      exact goesOn after _ (did.trans (third.trans fourth))
  | true =>
      have there : exist ≠ notExist := by decide
      simp only [there, ↓reduceIte]
      rw [wp_bind]
      apply printf_wp
      intro asked third
      rw [wp_bind]
      apply checkFileEmpty_wp
      intro opened text fourth
      have now : asked.tree = system.tree := third.tree.trans same
      have left := (did.trans third).trans fourth
      simp only [now, found, ↓reduceIte, List.nil_append] at left
      rw [now]
      simp only [ConfigurationTool.prepareFile, fileLeaks, needsDefaults,
        ConfigurationTool.checkFileExist, found, there, ↓reduceIte, decide_false,
        Bool.false_or, decide_eq_true_eq] at goesOn
      split
      · rename_i hollow
        simp only [hollow, ↓reduceIte] at goesOn
        rw [wp_bind]
        apply printf_wp
        intro named fifth
        apply createDefaultConfigFile_wp
        intro after text sixth
        rw [fifth.tree, left.tree] at sixth
        exact goesOn after _ (left.trans (fifth.trans sixth))
      · rename_i filled
        simp only [filled, ↓reduceIte, List.append_nil] at goesOn
        exact goesOn opened _ left

theorem rewritten_prepareFile (locations : Locations) (tree : FileTree) :
    Rewritten locations.configFileLocation.bytes tree
      (ConfigurationTool.prepareFile locations tree) := by
  rw [prepareFile_eq]
  split
  · rw [leave]
    cases written : tree.write locations.configFileLocation.bytes
        (ConfigurationTool.createDefaultConfigFile locations.rootDirectory) with
    | none => exact Or.inl rfl
    | some after => exact Or.inr ⟨_, written⟩
  · exact Or.inl rfl

/-- No folder is made where the configuration file stands. -/
theorem plain_prepareFolder (found : setLocationDefaults home.bytes = some locations)
    (plain : tree.lookup (configPath home) ≠ some .directory) :
    (ConfigurationTool.prepareFolder locations tree).lookup (configPath home) ≠
      some .directory := by
  obtain ⟨_, _, foldered⟩ := setLocationDefaults_bytes home locations found
  unfold ConfigurationTool.prepareFolder
  dsimp only
  split
  · rw [ConfigurationTool.createFolder, foldered]
    cases made : tree.mkdir (home.bytes ++ ascii "/.config/SCFTP/") with
    | none => exact plain
    | some after =>
        have folder : home.bytes ++ ascii "/.config/SCFTP/" =
            (home.bytes ++ ascii "/.config/SCFTP") ++ [slash] :=
          (List.append_assoc home.bytes (ascii "/.config/SCFTP") [slash]).symm
        rw [folder] at made
        have named : home.bytes ++ ascii "/.config/SCFTP" ≠ [] := by
          intro empty
          exact absurd (List.append_eq_nil_iff.mp empty).2 (by decide)
        have single : components (ascii "scftp_config.json") = [ascii "scftp_config.json"] := by
          decide
        have absent := lookup_mkdir made named single fun location => rfl
        rw [Option.getD_some, file_path, absent]
        simp
  · exact plain

/-- The system before the tool starts. -/
def System.start (tree : FileTree) (stdin : Bytes) : System := ⟨tree, stdin, 0, [], []⟩

/-- The whole program is start-up and then the loop. -/
theorem main_wp {stdin arrCCommand : Bytes} {steps : Nat} {post : Outcome Locals → System → Prop}
    (plain : tree.lookup (configPath home) ≠ some .directory)
    (overflows : setLocationDefaults home.bytes = none →
      post .fault (System.start tree stdin))
    (goesOn : ∀ locations started text outcome after,
      setLocationDefaults home.bytes = some locations →
      Did (System.start tree stdin) started
        (ConfigurationTool.prepareFile locations (ConfigurationTool.prepareFolder locations tree))
        (fileLeaks locations (ConfigurationTool.prepareFolder locations tree)) text →
      Ran envs (configPath home) started ⟨arrCCommand, none⟩ steps outcome after →
      post outcome after) :
    (main home.bytes arrCCommand steps).wp (answer envs) Allowed post
      (System.start tree stdin) := by
  unfold main
  cases found : setLocationDefaults home.bytes with
  | none => exact overflows found
  | some locations =>
      obtain ⟨_, filed, _⟩ := setLocationDefaults_bytes home locations found
      have clear := plain_prepareFolder found plain
      dsimp only
      rw [wp_bind]
      apply prepareFolder_wp
      intro foldered text first
      rw [wp_bind]
      apply prepareFile_wp
      intro started more second
      rw [first.tree] at second
      have did := first.trans second
      have still : started.tree.lookup (configPath home) ≠ some .directory := by
        have rewritten := rewritten_prepareFile locations
          (ConfigurationTool.prepareFolder locations tree)
        rw [filed] at rewritten
        rw [second.tree]
        exact rewritten.plain clear
      rw [filed]
      apply mainLoop_wp still did.reads
      intro outcome after ran
      exact goesOn locations started _ outcome after found did ran

end StartUp

theorem descriptors_fileLeaks (locations : Locations) (tree : FileTree) :
    (fileLeaks locations tree).countP Kind.descriptor =
      if tree.access locations.configFileLocation.bytes then 1 else 0 := by
  rw [fileLeaks, List.countP_append]
  have memory : (if needsDefaults locations tree then defaultLeaks locations tree
      else []).countP Kind.descriptor = 0 := by
    unfold defaultLeaks
    split
    · split <;> rfl
    · rfl
  rw [memory]
  split <;> rfl

theorem descriptors_stepLeaks (env : Env) (tool : Tool) :
    (stepLeaks env tool).countP Kind.descriptor = 0 := by
  unfold stepLeaks
  split
  · split
    · unfold loadLeaks
      split <;> rfl
    · rfl
  · split
    · split
      · rfl
      · unfold writeLeaks
        split <;> rfl
    · rfl

/-- The loop keeps no descriptor. -/
theorem descriptors_leaks (envs : Nat → Env) (start : Tool) (steps : Nat) :
    ((List.range steps).flatMap (leaksAt envs start)).countP Kind.descriptor = 0 := by
  rw [List.countP_eq_zero]
  intro kind member
  obtain ⟨moment, _, left⟩ := List.mem_flatMap.mp member
  unfold leaksAt at left
  split at left
  · rename_i tool reached
    exact List.countP_eq_zero.mp (descriptors_stepLeaks (envs moment) tool) kind left
  · cases left

/-- A process of the tool: its home directory, the files it finds, its input, the
bytes its command buffer happens to hold, and what the system answers. -/
structure Process where
  envs : Nat → Env
  home : Str
  tree : FileTree
  stdin : Bytes
  arrCCommand : Bytes

namespace Process

variable (process : Process)

def path : Bytes := configPath process.home

/-- How far it comes in a number of steps of its loop. -/
def run (steps : Nat) : Outcome Locals × System :=
  (main process.home.bytes process.arrCCommand steps).run (answer process.envs)
    (System.start process.tree process.stdin)

def records (steps : Nat) : List (Record Api Returned System) :=
  (main process.home.bytes process.arrCCommand steps).records (answer process.envs)
    (System.start process.tree process.stdin)

def tool (started : FileTree) : Tool :=
  ⟨process.stdin, process.arrCCommand, started.read process.path, none⟩

/-- What the system answers in a step, the files as start-up leaves them. -/
def answers (started : FileTree) (moment : Nat) : Env :=
  filed (process.envs moment) process.path started

end Process

/-- A home with the folder `.config`, where all prompts are answered once. -/
def updating : Process where
  envs _ := willing
  home := sampleHome
  tree := directories [[], [ascii "h"], [ascii ".config", ascii "h"]] (by decide) (by decide)
  stdin := ascii "update\nalice\n/h//\n8080\n0\n2\n600\nprint\n"
  arrCCommand := []

theorem plain_updating : updating.tree.lookup updating.path ≠ some .directory := by decide

section Whole

variable (process : Process)

/-- Start-up and the loop of a process, one after the other. -/
def Process.Went (steps : Nat) (outcome : Outcome Locals) (after : System) : Prop :=
  match setLocationDefaults process.home.bytes with
  | none => outcome = .fault ∧ after = System.start process.tree process.stdin
  | some locations => ∃ started text,
      Did (System.start process.tree process.stdin) started
          (ConfigurationTool.prepareFile locations
            (ConfigurationTool.prepareFolder locations process.tree))
          (fileLeaks locations (ConfigurationTool.prepareFolder locations process.tree)) text ∧
        Ran process.envs process.path started ⟨process.arrCCommand, none⟩ steps outcome after

theorem process_spec (plain : process.tree.lookup process.path ≠ some .directory)
    (steps : Nat) :
    (∀ record ∈ process.records steps, Allowed record.op record.before) ∧
      process.Went steps (process.run steps).1 (process.run steps).2 := by
  apply (wp_iff _ _).mp
  apply main_wp plain
  · intro overflows
    simp only [Process.Went, overflows]
    exact ⟨trivial, trivial⟩
  · intro locations started text outcome after found did ran
    simp only [Process.Went, found]
    exact ⟨started, text, did, ran⟩

/-- Every call of every run is one that is allowed: nothing is used or given back
that is not in hand. -/
theorem tool_conforms (plain : process.tree.lookup process.path ≠ some .directory)
    (steps : Nat) :
    ∀ record ∈ process.records steps, Allowed record.op record.before :=
  (process_spec process plain steps).1

theorem updating_conforms :
    (updating.records 8).Forall (fun record => Allowed record.op record.before) :=
  List.forall_iff_forall_mem.mpr (tool_conforms updating plain_updating 8)

theorem process_reached (plain : process.tree.lookup process.path ≠ some .directory) (steps : Nat)
    {locations : Locations} {started : FileTree}
    (begun : startUp process.home.bytes process.tree = some (locations, started)) :
    (process.run steps).1.map (·.on process.path (process.run steps).2) =
        toolRun (process.answers started) (process.tool started) steps ∧
      Rewritten process.path started (process.run steps).2.tree := by
  have went := (process_spec process plain steps).2
  obtain ⟨_, found, same⟩ := Option.bind_eq_some_iff.mp begun
  cases same
  unfold Process.Went at went
  rw [found] at went
  obtain ⟨before, text, did, ran⟩ := went
  have reached := ran.reached
  have tree := ran.tree
  have start : (Locals.mk process.arrCCommand none).on process.path before =
      process.tool before.tree := by
    rw [Locals.on, did.stdin]
    rfl
  rw [start] at reached
  rw [did.tree] at reached tree
  exact ⟨reached, tree⟩

/-- The run of the program is start-up and the run of the tool on what it leaves. Of
all files only the configuration is written in the loop. -/
theorem tool_refines (plain : process.tree.lookup process.path ≠ some .directory)
    (steps : Nat) :
    match startUp process.home.bytes process.tree with
    | none => process.run steps = (.fault, System.start process.tree process.stdin)
    | some (_, started) =>
        (process.run steps).1.map (·.on process.path (process.run steps).2) =
            toolRun (process.answers started) (process.tool started) steps ∧
          Rewritten process.path started (process.run steps).2.tree := by
  cases begun : startUp process.home.bytes process.tree with
  | some both => exact process_reached process plain steps begun
  | none =>
      have went := (process_spec process plain steps).2
      unfold Process.Went at went
      unfold startUp at begun
      cases found : setLocationDefaults process.home.bytes with
      | some locations =>
          rw [found] at begun
          cases begun
      | none =>
          rw [found] at went
          exact Prod.ext went.1 went.2

theorem updating_refines :
    match startUp updating.home.bytes updating.tree with
    | none => updating.run 8 = (.fault, System.start updating.tree updating.stdin)
    | some (_, started) =>
        (updating.run 8).1.map (·.on updating.path (updating.run 8).2) =
            toolRun (updating.answers started) (updating.tool started) 8 ∧
          Rewritten updating.path started (updating.run 8).2.tree :=
  tool_refines updating plain_updating 8

theorem process_held (plain : process.tree.lookup process.path ≠ some .directory)
    (steps : Nat) :
    (process.run steps).2.held.map Resource.kind =
      match startUp process.home.bytes process.tree with
      | none => []
      | some (locations, started) =>
          fileLeaks locations (ConfigurationTool.prepareFolder locations process.tree) ++
            (List.range steps).flatMap
              (leaksAt (process.answers started) (process.tool started)) := by
  have went := (process_spec process plain steps).2
  unfold Process.Went at went
  unfold startUp
  cases found : setLocationDefaults process.home.bytes with
  | none =>
      rw [found] at went
      rw [went.2]
      rfl
  | some locations =>
      rw [found] at went
      obtain ⟨started, text, did, ran⟩ := went
      obtain ⟨more, grown, kinds⟩ := ran.held
      obtain ⟨first, begun, same⟩ := did.held
      have start : (Locals.mk process.arrCCommand none).on process.path started =
          process.tool started.tree := by
        rw [Locals.on, did.stdin]
        rfl
      rw [start, did.tree] at kinds
      have places : (process.run steps).2.places = first ++ more := grown.trans (begun ▸ rfl)
      rw [System.held, places, held_append, List.map_append, same, kinds]
      rfl

/-- What the program holds, of all it was handed, is exactly what start-up and each
step leave behind. Its one descriptor is the stream of `CheckFileEmpty`. -/
theorem tool_holds (plain : process.tree.lookup process.path ≠ some .directory)
    (steps : Nat) :
    match startUp process.home.bytes process.tree with
    | none => (process.run steps).2.held = []
    | some (locations, started) =>
        (process.run steps).2.held.map Resource.kind =
            fileLeaks locations (ConfigurationTool.prepareFolder locations process.tree) ++
              (List.range steps).flatMap
                (leaksAt (process.answers started) (process.tool started)) ∧
          (process.run steps).2.held.countP (·.kind.descriptor) =
            if (ConfigurationTool.prepareFolder locations process.tree).access process.path then 1
            else 0 := by
  have held := process_held process plain steps
  cases begun : startUp process.home.bytes process.tree with
  | none =>
      rw [begun] at held
      exact List.map_eq_nil_iff.mp held
  | some both =>
      obtain ⟨locations, started⟩ := both
      rw [begun] at held
      refine ⟨held, ?_⟩
      have counted : (process.run steps).2.held.countP (·.kind.descriptor) =
          ((process.run steps).2.held.map Resource.kind).countP Kind.descriptor := by
        rw [List.countP_map]
        rfl
      have filed : locations.configFileLocation.bytes = process.path := by
        obtain ⟨_, found, same⟩ := Option.bind_eq_some_iff.mp begun
        cases same
        exact (setLocationDefaults_bytes process.home locations found).2.1
      have loop := descriptors_leaks (process.answers started) (process.tool started) steps
      rw [counted, held, List.countP_append, descriptors_fileLeaks, filed, loop, Nat.add_zero]

theorem updating_holds :
    match startUp updating.home.bytes updating.tree with
    | none => (updating.run 8).2.held = []
    | some (locations, started) =>
        (updating.run 8).2.held.map Resource.kind =
            fileLeaks locations (ConfigurationTool.prepareFolder locations updating.tree) ++
              (List.range 8).flatMap
                (leaksAt (updating.answers started) (updating.tool started)) ∧
          (updating.run 8).2.held.countP (·.kind.descriptor) =
            if (ConfigurationTool.prepareFolder locations updating.tree).access updating.path then 1
            else 0 :=
  tool_holds updating plain_updating 8

end Whole

end Scftp.ConfigurationTool.Calls

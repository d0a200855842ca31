import Scftp.ConfigurationTool.Main

set_option autoImplicit false

/- The configuration file over whole runs of the tool. -/
namespace Scftp.ConfigurationTool

open CString Machine Stdin

/-- A call of `update` stands at a prompt. -/
def Tool.At (tool : Tool) (prompt : Prompt) : Prop :=
  ∃ update, tool.update = some update ∧ update.prompt = prompt

/-- At a moment of a run, a call of `update` has come to a prompt through all the
prompts before it, one after the other, without leaving. -/
inductive Entered (run : Nat → Outcome Tool) : Prompt → Nat → Prop where
  | called {count : Nat} {before after : Tool} (reached : run count = .next before)
      (idle : before.update = none) (stepped : run (count + 1) = .next after)
      (stands : after.At .name) : Entered run .name (count + 1)
  | again {prompt : Prompt} {count : Nat} {after : Tool} (entered : Entered run prompt count)
      (stepped : run (count + 1) = .next after) (stands : after.At prompt) :
      Entered run prompt (count + 1)
  | passed {prompt next : Prompt} {count : Nat} {after : Tool} (entered : Entered run prompt count)
      (follows : prompt.next = some next) (stepped : run (count + 1) = .next after)
      (stands : after.At next) : Entered run next (count + 1)

/-- The file loads to a configuration in range, with the number of connections it
had; so does what a call of `update` has in hand. -/
structure Safe (maxConnections : Int32) (tool : Tool) : Prop where
  file : ∃ pData, Loads tool.file pData ∧ InRange pData ∧ pData.maxConnections = maxConnections
  update : ∀ update, tool.update = some update →
    InRange update.pData ∧ update.pData.maxConnections = maxConnections

theorem safe_leaves {env : Env} {tool after : Tool} {update : Update} {maxConnections : Int32}
    (safe : Safe maxConnections tool) (running : tool.update = some update)
    (leaves : Leaves env tool update after) : Safe maxConnections after := by
  obtain ⟨inRange, kept⟩ := safe.update update running
  cases leaves with
  | again iBuffer =>
      refine ⟨safe.file, ?_⟩
      rintro _ ⟨rfl⟩
      exact ⟨inRange, kept⟩
  | passed iBuffer prompt pData next revises =>
      refine ⟨safe.file, ?_⟩
      rintro _ ⟨rfl⟩
      exact ⟨revises.inRange inRange, by rw [revises.maxConnections, kept]⟩
  | saved pData last revises =>
      refine ⟨?_, by rintro _ ⟨⟩⟩
      dsimp only
      split
      · have same : pData.maxConnections = maxConnections := by rw [revises.maxConnections, kept]
        exact ⟨pData, loads_saved pData, revises.inRange inRange, same⟩
      · exact safe.file

theorem safe_step (env : Env) {tool : Tool} {maxConnections : Int32}
    (safe : Safe maxConnections tool) :
    (∃ after, toolStep env tool = .next after ∧ Safe maxConnections after) ∨
      ∃ left, toolStep env tool = .exit left ∧ left.file = tool.file := by
  cases running : tool.update with
  | none =>
      obtain ⟨pData, loads, inRange, kept⟩ := safe.file
      have commands := toolStep_commands env running
      generalize toolStep env tool = outcome at commands ⊢
      cases commands with
      | fault fault _ failed =>
          rw [loads env.residue] at failed
          cases failed
      | exits _ _ _ => exact Or.inr ⟨_, rfl, rfl⟩
      | updates read _ loaded =>
          rw [loads env.residue] at loaded
          cases loaded
          refine Or.inl ⟨_, rfl, safe.file, ?_⟩
          intro update called
          cases called
          exact ⟨inRange, kept⟩
      | stays _ _ _ =>
          refine Or.inl ⟨_, rfl, safe.file, ?_⟩
          intro update impossible
          rw [Tool.commanded, running] at impossible
          cases impossible
  | some update =>
      rw [toolStep_running env tool update running]
      rcases updateStep_leaves env tool update with ⟨after, stepped, leaves⟩ | ⟨rest, exits⟩
      · exact Or.inl ⟨after, stepped, safe_leaves safe running leaves⟩
      · exact Or.inr ⟨_, exits, rfl⟩

section Run

variable {envs : Nat → Env} {start : Tool}

theorem toolRun_succ {count : Nat} {tool : Tool} (reached : toolRun envs start count = .next tool) :
    toolRun envs start (count + 1) = toolStep (envs count) tool :=
  run_succ_of_next reached

/-- Where a call of `update` stands, it came through the prompts before. -/
theorem entered_of_running (idle : start.update = none) :
    ∀ count tool, toolRun envs start count = .next tool →
      ∀ update, tool.update = some update → Entered (toolRun envs start) update.prompt count := by
  refine Machine.run_invariant (fun count (tool : Tool) => ∀ update : Update,
    tool.update = some update → Entered (toolRun envs start) update.prompt count) ?_ ?_
  · intro update impossible
    rw [idle] at impossible
    cases impossible
  · intro count before after reached entered stepped update running
    have next : toolRun envs start (count + 1) = .next after := by
      rw [toolRun_succ reached]
      exact stepped
    cases outer : before.update with
    | none =>
        have named := called_name outer stepped running
        rw [named]
        exact Entered.called reached outer next ⟨update, running, named⟩
    | some inner =>
        have stands := entered inner outer
        cases leaves_of_next (envs count) before inner outer stepped with
        | again iBuffer =>
            cases running
            exact Entered.again stands next ⟨_, rfl, rfl⟩
        | passed iBuffer prompt pData follows revises =>
            cases running
            exact Entered.passed stands follows next ⟨_, rfl, rfl⟩
        | saved pData last revises => cases running

/-- A step changes the file only when it ends a call of `update` that has come
through all its prompts, and then to what that call has in hand. -/
theorem file_changes (idle : start.update = none) {count : Nat} {before after : Tool}
    (reached : toolRun envs start count = .next before)
    (stepped : toolRun envs start (count + 1) = .next after) (changed : after.file ≠ before.file) :
    Entered (toolRun envs start) .bufferSize count ∧ after.update = none ∧
      ∃ update pData, before.update = some update ∧ Revises update.pData pData ∧
        after.file = some pData.saved := by
  rw [toolRun_succ reached] at stepped
  cases running : before.update with
  | none =>
      have commands := toolStep_commands (envs count) running
      rw [stepped] at commands
      cases commands with
      | updates _ _ _ => exact absurd rfl changed
      | stays _ _ _ => exact absurd rfl changed
  | some update =>
      have entered := entered_of_running idle count before reached update running
      cases leaves_of_next (envs count) before update running stepped with
      | again iBuffer => exact absurd rfl changed
      | passed iBuffer prompt pData follows revises => exact absurd rfl changed
      | saved pData last revises =>
          rw [last] at entered
          refine ⟨entered, rfl, update, pData, rfl, revises, ?_⟩
          dsimp only at changed ⊢
          split at changed
          · rename_i opened
            rw [if_pos opened]
          · exact absurd rfl changed

end Run

/-- Whatever is typed and whatever the system answers, the file always loads, in
range and with the number of connections it had, and changes only at the end of a
call of `update` that has come through its six prompts. A save is one moment here;
what the file is inside `JsonToFile` is told for other tools by `Tools.Kept` and for a
save that stops by `saveStopped`. -/
theorem config_kept (envs : Nat → Env) (start : Tool) (idle : start.update = none)
    (pData : ScftpData) (loads : Loads start.file pData) (inRange : InRange pData) (count : Nat) :
    (∃ tool, (toolRun envs start count = .next tool ∨ toolRun envs start count = .exit tool) ∧
        ∃ now, Loads tool.file now ∧ InRange now ∧ now.maxConnections = pData.maxConnections) ∧
      ∀ before, toolRun envs start count = .next before →
        ∀ after, toolRun envs start (count + 1) = .next after ∨
            toolRun envs start (count + 1) = .exit after →
          after.file = before.file ∨
            Entered (toolRun envs start) .bufferSize count ∧ after.update = none ∧
              ∃ update revised, before.update = some update ∧ Revises update.pData revised ∧
                after.file = some revised.saved := by
  have safe : ∀ count, (∃ tool, toolRun envs start count = .next tool ∧
      Safe pData.maxConnections tool) ∨
      ∃ tool, toolRun envs start count = .exit tool ∧
        ∃ now, Loads tool.file now ∧ InRange now ∧ now.maxConnections = pData.maxConnections := by
    intro count
    induction count with
    | zero =>
        refine Or.inl ⟨start, rfl, ⟨pData, loads, inRange, rfl⟩, ?_⟩
        intro update impossible
        rw [idle] at impossible
        cases impossible
    | succ count ih =>
        rcases ih with ⟨tool, reached, safe⟩ | ⟨tool, ended, held⟩
        · rcases safe_step (envs count) safe with ⟨after, stepped, still⟩ | ⟨left, exits, same⟩
          · exact Or.inl ⟨after, by rw [toolRun_succ reached, stepped], still⟩
          · exact Or.inr ⟨left, by rw [toolRun_succ reached, exits], by rw [same]; exact safe.file⟩
        · exact Or.inr ⟨tool, run_succ_of_exit ended, held⟩
  refine ⟨?_, ?_⟩
  · rcases safe count with ⟨tool, reached, held⟩ | ⟨tool, ended, held⟩
    · exact ⟨tool, Or.inl reached, held.file⟩
    · exact ⟨tool, Or.inr ended, held⟩
  · intro before reached after stepped
    rcases stepped with stepped | exited
    · by_cases changed : after.file = before.file
      · exact Or.inl changed
      · exact Or.inr (file_changes idle reached stepped changed)
    · rcases safe count with ⟨tool, again, held⟩ | ⟨tool, ended, _⟩
      · rw [reached] at again
        cases again
        rcases safe_step (envs count) held with ⟨next, stepped, _⟩ | ⟨left, exits, same⟩
        · rw [toolRun_succ reached, stepped] at exited
          cases exited
        · rw [toolRun_succ reached, exits] at exited
          cases exited
          exact Or.inl same
      · rw [reached] at ended
        cases ended

theorem inRange_default (root : CharArray 128) : InRange (ScftpData.default root) :=
  ⟨Or.inr rfl, Or.inl rfl, show 1 ≤ defaultBufferSize ∧ defaultBufferSize ≤ 512 by decide⟩

/-- A system that has every folder and every port. -/
def willing : Env where
  residue := []
  opendir _ := true
  socket := true
  bind _ := true
  scanf := scanfInt Int32.ofInt
  fopen := true

def sampleRoot : CharArray 128 := ⟨⟨ascii "/h/SCFTP/", by decide⟩, by decide⟩

/-- The default file and a session that answers every prompt. -/
def answering : Tool where
  stdin := ascii "update\nalice\n/srv//\n8080\n0\n2\n600\n"
  arrCCommand := []
  file := some (ScftpData.default sampleRoot).saved
  update := none

theorem answering_kept :
    ∃ tool, (toolRun (fun _ => willing) answering 7 = .next tool ∨
        toolRun (fun _ => willing) answering 7 = .exit tool) ∧
      ∃ now, Loads tool.file now ∧ InRange now ∧
        now.maxConnections = (ScftpData.default sampleRoot).maxConnections :=
  (config_kept (fun _ => willing) answering rfl (ScftpData.default sampleRoot)
    (loads_saved (ScftpData.default sampleRoot)) (inRange_default sampleRoot) 7).1

end Scftp.ConfigurationTool

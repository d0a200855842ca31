import Scftp.ConfigurationTool.Sessions

set_option autoImplicit false

/- Whether the tool ends. Its loops look at what was read, not at whether anything
was, so a loop with nothing to read goes round for ever. -/
namespace Scftp.ConfigurationTool

open CString Machine Stdin

/-- The answers of a system whose `scanf` is the C library's. -/
def Env.standard (store : Int → Int32) (env : Env) : Env := { env with scanf := scanfInt store }

@[simp] theorem standard_scanf (store : Int → Int32) (env : Env) :
    (env.standard store).scanf = scanfInt store := rfl

/-- A step exits, reads a byte or leaves the loop it is in. -/
def Advances (env : Env) (tool : Tool) : Prop :=
  (∃ left, toolStep env tool = .exit left) ∨
    ∃ after, toolStep env tool = .next after ∧
      (after.stdin.length < tool.stdin.length ∨
        after.update.map Update.prompt ≠ tool.update.map Update.prompt)

theorem not_advances {env : Env} {tool after : Tool} (stepped : toolStep env tool = .next after)
    (unread : ¬ after.stdin.length < tool.stdin.length)
    (same : after.update.map Update.prompt = tool.update.map Update.prompt) :
      ¬ Advances env tool := by
  intro advances
  rcases advances with ⟨left, exits⟩ | ⟨other, again, goes⟩
  · rw [stepped] at exits
    cases exits
  · rw [stepped] at again
    cases again
    exact goes.elim unread fun moved => moved same

/-- There is a byte at the front of the input that `scanf("%d")` takes. -/
def Taken (stdin : Bytes) : Prop := ∃ byte rest, stdin = byte :: rest ∧ scanfTakes byte = true

/-- A step has something to work on. A command is unread, or an exit left in the
buffer, and the file loads for a command that needs it. A line is unread for the
name and the root, and a byte for the buffer size; for the port either a byte or
a number from an earlier round whose port is free. -/
def Fed (env : Env) (tool : Tool) : Prop :=
  match tool.update with
  | none =>
      (tool.stdin ≠ [] ∨ strcmp tool.arrCCommand (ascii "exit\n") = true) ∧
        (strcmp (fgets tool.arrCCommand 64 tool.stdin).1 (ascii "print\n") = true ∨
            strcmp (fgets tool.arrCCommand 64 tool.stdin).1 (ascii "update\n") = true →
          ∃ pData, load tool.file env.residue = .ok pData)
  | some update =>
      match update.prompt with
      | .name => tool.stdin ≠ []
      | .root => tool.stdin ≠ []
      | .port => Taken tool.stdin ∨
          update.iBuffer ≠ 0 ∧ env.isPortAvailable update.iBuffer ≠ some false
      | .authentication => True
      | .encryption => True
      | .bufferSize => Taken tool.stdin

/-- The prompts still to pass. -/
def Prompt.rank : Prompt → Nat
  | .name => 6
  | .root => 5
  | .port => 4
  | .authentication => 3
  | .encryption => 2
  | .bufferSize => 1

def Tool.rank (tool : Tool) : Nat :=
  match tool.update with
  | none => 0
  | some update => update.prompt.rank

/-- What a step that goes on lowers. A byte read outweighs all prompts. -/
def Tool.measure (tool : Tool) : Nat := 8 * tool.stdin.length + tool.rank

theorem Prompt.rank_next {prompt next : Prompt} (follows : prompt.next = some next) :
    next.rank < prompt.rank := by
  cases prompt <;> cases follows <;> decide

theorem Prompt.rank_pos (prompt : Prompt) : 0 < prompt.rank := by
  cases prompt <;> decide

theorem Prompt.rank_le (prompt : Prompt) : prompt.rank ≤ 6 := by
  cases prompt <;> decide

theorem Tool.rank_le (tool : Tool) : tool.rank ≤ 6 := by
  unfold Tool.rank
  split
  · exact Nat.zero_le _
  · exact Prompt.rank_le _

section Fed

variable (store : Int → Int32) (env : Env)

theorem rest_le (stdin : Bytes) (prompt : Prompt) :
    (prompt.rest (env.standard store) stdin).length ≤ stdin.length := by
  cases prompt with
  | name => exact fgets_rest_le [] 64 stdin
  | root => exact fgets_rest_le [] 128 stdin
  | _ => exact scanfInt_rest_le store stdin

def GoesOn (tool after : Tool) : Prop :=
  after.stdin.length ≤ tool.stdin.length ∧
    (after.stdin.length < tool.stdin.length ∨ after.rank < tool.rank)

theorem GoesOn.measure_lt {tool after : Tool} (goes : GoesOn tool after) :
    after.measure < tool.measure := by
  obtain ⟨shorter, further⟩ := goes
  have low := after.rank_le
  unfold Tool.measure
  omega

theorem GoesOn.advances {tool after : Tool} (stepped : toolStep env tool = .next after)
    (goes : GoesOn tool after) : Advances env tool := by
  refine Or.inr ⟨after, stepped, goes.2.imp_right fun lower same => ?_⟩
  have equal : after.rank = tool.rank := by
    unfold Tool.rank
    cases left : after.update <;> cases right : tool.update <;> simp_all
  omega

theorem leaves_goesOn {tool after : Tool} {update : Update} (running : tool.update = some update)
    (leaves : Leaves (env.standard store) tool update after)
    (fed : ∀ iBuffer, updateStep (env.standard store) tool update = .next { tool with
        stdin := update.prompt.rest (env.standard store) tool.stdin
        update := some { update with iBuffer } } →
      (update.prompt.rest (env.standard store) tool.stdin).length < tool.stdin.length)
    (stepped : updateStep (env.standard store) tool update = .next after) : GoesOn tool after := by
  have shorter := rest_le store env tool.stdin update.prompt
  have rank : tool.rank = update.prompt.rank := by rw [Tool.rank, running]
  cases leaves with
  | again iBuffer => exact ⟨shorter, Or.inl (fed iBuffer stepped)⟩
  | passed iBuffer prompt pData next revises =>
      refine ⟨shorter, Or.inr ?_⟩
      rw [rank]
      exact Prompt.rank_next next
  | saved pData last revises =>
      refine ⟨shorter, Or.inr ?_⟩
      rw [rank]
      exact Prompt.rank_pos _

/-- Where `scanf` can take nothing, it stores nothing. -/
theorem scanf_idle {stdin : Bytes} (untaken : ¬ Taken stdin) :
    ((env.standard store).scanf stdin).1 = none ∧
      ¬ ((env.standard store).scanf stdin).2.length < stdin.length := by
  have unread := mt (scanfInt_rest_lt_iff store stdin).mp untaken
  refine ⟨?_, unread⟩
  cases stored : ((env.standard store).scanf stdin).1 with
  | none => rfl
  | some value => exact absurd (scanfInt_stores store stdin value stored) unread

/-- A loop that goes round with something to work on has read a byte. -/
theorem again_shorter {tool : Tool} {update : Update} (running : tool.update = some update)
    (fed : Fed (env.standard store) tool) (iBuffer : Int32)
    (again : updateStep (env.standard store) tool update = .next { tool with
        stdin := update.prompt.rest (env.standard store) tool.stdin
        update := some { update with iBuffer } }) :
    (update.prompt.rest (env.standard store) tool.stdin).length < tool.stdin.length := by
  simp only [Fed, running] at fed
  cases prompt : update.prompt with
  | name =>
      rw [prompt] at fed
      exact fgets_rest_lt [] 64 tool.stdin (by decide) fed
  | root =>
      rw [prompt] at fed
      exact fgets_rest_lt [] 128 tool.stdin (by decide) fed
  | port =>
      rw [prompt] at fed
      by_contra unread
      have untaken : ¬ Taken tool.stdin := mt (scanfInt_rest_lt_iff store tool.stdin).mpr unread
      obtain ⟨nonzero, free⟩ := fed.resolve_left untaken
      simp only [updateStep, prompt, portStep, (scanf_idle store env untaken).1, Option.getD_none,
        nonzero, ↓reduceIte] at again
      split at again
      · cases again
      · contradiction
      · simp only [Outcome.next.injEq, Tool.mk.injEq, Option.some.injEq, Update.mk.injEq] at again
        exact absurd again.2.2.2.1 (by decide)
  | authentication =>
      simp only [updateStep, prompt, authenticationStep, Outcome.next.injEq, Tool.mk.injEq,
        Option.some.injEq, Update.mk.injEq] at again
      exact absurd again.2.2.2.1 (by decide)
  | encryption =>
      by_contra unread
      have untaken : ¬ Taken tool.stdin := mt (scanfInt_rest_lt_iff store tool.stdin).mpr unread
      simp only [updateStep, prompt, encryptionStep, (scanf_idle store env untaken).1,
        Option.getD_none, true_or, ↓reduceIte, Outcome.next.injEq, Tool.mk.injEq,
        Option.some.injEq, Update.mk.injEq] at again
      exact absurd again.2.2.2.1 (by decide)
  | bufferSize =>
      rw [prompt] at fed
      exact (scanfInt_rest_lt_iff store tool.stdin).mpr fed

/-- A prompt with nothing to work on goes round without reading a byte. -/
theorem unfed_again {tool : Tool} {update : Update} (running : tool.update = some update)
    (unfed : ¬ Fed (env.standard store) tool) :
    ∃ after, toolStep (env.standard store) tool = .next after ∧
      ¬ after.stdin.length < tool.stdin.length ∧
      after.update.map Update.prompt = tool.update.map Update.prompt := by
  simp only [Fed, running] at unfed
  rw [toolStep_running _ tool update running, running]
  cases prompt : update.prompt with
  | name =>
      simp only [prompt, ne_eq, not_not] at unfed
      refine ⟨{ tool with stdin := [], update := some update }, ?_, by simp [unfed], rfl⟩
      simp only [updateStep, prompt, nameStep, unfed, fgets_eof]
      rfl
  | root =>
      simp only [prompt, ne_eq, not_not] at unfed
      refine ⟨{ tool with stdin := [], update := some update }, ?_, by simp [unfed], rfl⟩
      simp only [updateStep, prompt, rootStep, unfed, fgets_eof]
      rfl
  | port =>
      simp only [prompt, ne_eq, not_or, not_and, not_not] at unfed
      obtain ⟨untaken, busy⟩ := unfed
      obtain ⟨idle, unread⟩ := scanf_idle store env untaken
      refine ⟨{ tool with
        stdin := ((env.standard store).scanf tool.stdin).2
        update := some update }, ?_, unread, rfl⟩
      have same : (⟨.port, update.iBuffer, update.pData⟩ : Update) = update := by rw [← prompt]
      simp only [updateStep, prompt, portStep, idle, Option.getD_none, same]
      by_cases zero : update.iBuffer = 0
      · rw [if_pos zero]
        rfl
      · rw [if_neg zero, busy zero]
        rfl
  | authentication => exact absurd trivial (by simpa only [prompt] using unfed)
  | encryption => exact absurd trivial (by simpa only [prompt] using unfed)
  | bufferSize =>
      simp only [prompt] at unfed
      obtain ⟨idle, unread⟩ := scanf_idle store env unfed
      refine ⟨{ tool with
        stdin := ((env.standard store).scanf tool.stdin).2
        update := some { update with iBuffer := 0 } },
        ?_, unread, rfl⟩
      simp only [updateStep, prompt, bufferSizeStep, idle, Option.getD_none]
      rfl

theorem unfed_not_advances {tool : Tool} {update : Update} (running : tool.update = some update)
    (unfed : ¬ Fed (env.standard store) tool) : ¬ Advances (env.standard store) tool := by
  obtain ⟨after, stepped, unread, same⟩ := unfed_again store env running unfed
  exact not_advances stepped unread same

theorem fed_command {tool : Tool} (idle : tool.update = none) (fed : Fed env tool) :
    (∃ left, toolStep env tool = .exit left) ∨
      ∃ after, toolStep env tool = .next after ∧ GoesOn tool after := by
  simp only [Fed, idle] at fed
  obtain ⟨unread, loads⟩ := fed
  have shorter (noExit : strcmp tool.command (ascii "exit\n") = false) :
      tool.commanded.stdin.length < tool.stdin.length := by
    apply fgets_rest_lt tool.arrCCommand 64 tool.stdin (by decide)
    intro ended
    rw [Tool.command, ended, fgets_eof] at noExit
    rcases unread with some | exits
    · exact some ended
    · rw [noExit] at exits
      cases exits
  have commands := toolStep_commands env idle
  generalize toolStep env tool = outcome at commands ⊢
  cases commands with
  | fault fault named failed =>
      obtain ⟨pData, loaded⟩ := loads named
      rw [loaded] at failed
      cases failed
  | exits _ _ _ => exact Or.inl ⟨_, rfl⟩
  | updates _ noExit _ =>
      have less := shorter noExit
      exact Or.inr ⟨_, rfl, Nat.le_of_lt less, Or.inl less⟩
  | stays noExit _ _ =>
      have less := shorter noExit
      exact Or.inr ⟨_, rfl, Nat.le_of_lt less, Or.inl less⟩

theorem fed_step {tool : Tool} (fed : Fed (env.standard store) tool) :
    (∃ left, toolStep (env.standard store) tool = .exit left) ∨
      ∃ after, toolStep (env.standard store) tool = .next after ∧ GoesOn tool after := by
  cases running : tool.update with
  | none => exact fed_command (env.standard store) running fed
  | some update =>
      rw [toolStep_running _ tool update running]
      rcases updateStep_leaves (env.standard store) tool update with
        ⟨after, stepped, leaves⟩ | ⟨rest, exits⟩
      · have goes := leaves_goesOn store env running leaves
          (again_shorter store env running fed) stepped
        exact Or.inr ⟨after, stepped, goes⟩
      · exact Or.inl ⟨_, exits⟩

/-- At the end of the input, a command that is no exit stays where it is or calls
`update`, if it does not fault. -/
theorem unfed_command {tool : Tool} (idle : tool.update = none) (ended : tool.stdin = [])
    (stays : ¬ strcmp tool.arrCCommand (ascii "exit\n") = true) :
    toolStep env tool = .fault ∨ toolStep env tool = .next tool ∨
      ∃ after update, toolStep env tool = .next after ∧ after.update = some update ∧
        update.prompt = .name ∧ after.stdin = [] := by
  have commands := toolStep_commands env idle
  generalize toolStep env tool = outcome at commands ⊢
  cases commands with
  | fault _ _ _ => exact Or.inl rfl
  | exits _ _ exits =>
      rw [Tool.command, ended, fgets_eof] at exits
      exact absurd exits stays
  | updates _ _ _ =>
      rw [commanded_eof tool ended]
      exact Or.inr (Or.inr ⟨_, _, rfl, rfl, rfl, ended⟩)
  | stays _ _ _ =>
      rw [commanded_eof tool ended]
      exact Or.inr (Or.inl rfl)

end Fed

/-- Every step exits, reads a byte or leaves its loop, and the tool ends, exactly
when every step it takes has something to work on. -/
theorem ends_iff (store : Int → Int32) (envs : Nat → Env) (tool : Tool) :
    let step := fun moment => toolStep ((envs moment).standard store)
    AllSteps step tool (fun moment => Advances ((envs moment).standard store)) ∧ Exits step tool ↔
      AllSteps step tool fun moment => Fed ((envs moment).standard store) := by
  intro step
  constructor
  · rintro ⟨advances, exits⟩ count state reached
    have goes := advances count state reached
    have next : run step tool (count + 1) = step count state := run_succ_of_next reached
    cases running : state.update with
    | some update =>
        by_contra unfed
        exact unfed_not_advances store (envs count) running unfed goes
    | none =>
        have sound : step count state ≠ .fault := by
          intro broken
          exact not_exits_of_fault (next.trans broken) exits
        simp only [Fed, running]
        refine ⟨?_, ?_⟩
        · by_contra starved
          simp only [ne_eq, not_or, not_not] at starved
          obtain ⟨ended, stays⟩ := starved
          rcases unfed_command ((envs count).standard store) running ended stays with
            broken | stuck | ⟨after, update, called, inside, prompt, unread⟩
          · exact sound broken
          · exact not_advances stuck (Nat.lt_irrefl _) rfl goes
          · refine unfed_not_advances store (envs (count + 1)) inside ?_
              (advances (count + 1) after (next.trans called))
            simp only [Fed, inside, prompt, unread, ne_eq, not_true_eq_false, not_false_eq_true]
        · exact fun named => (toolStep_fault_iff running named).mp sound
  · intro fed
    refine ⟨?_, ?_⟩
    · intro count state reached
      rcases fed_step store (envs count) (fed count state reached) with
        exits | ⟨after, stepped, goes⟩
      · exact Or.inl exits
      · exact GoesOn.advances _ stepped goes
    · apply exits_of_measure Tool.measure
      intro count before reached
      rcases fed_step store (envs count) (fed count before reached) with
        exits | ⟨after, stepped, goes⟩
      · exact Or.inl exits
      · exact Or.inr ⟨after, stepped, goes.measure_lt⟩

def oneCommand : Tool where
  stdin := ascii "help\n"
  arrCCommand := []
  file := some (ScftpData.default sampleRoot).saved
  update := none

/-- After its input the tool repeats its last command for ever, and reads nothing. -/
theorem oneCommand_repeats :
    toolRun (fun _ => willing) oneCommand 1 = .next { oneCommand with
        stdin := [], arrCCommand := ascii "help\n" } ∧
      ¬ Advances willing { oneCommand with stdin := [], arrCCommand := ascii "help\n" } ∧
      ¬ Exits (fun _ => toolStep willing) oneCommand := by
  have stuck : toolStep willing { oneCommand with stdin := [], arrCCommand := ascii "help\n" } =
      .next { oneCommand with stdin := [], arrCCommand := ascii "help\n" } := rfl
  have reached : Machine.run (fun _ => toolStep willing) oneCommand 1 = .next { oneCommand with
      stdin := [], arrCCommand := ascii "help\n" } := rfl
  refine ⟨reached, not_advances stuck (Nat.lt_irrefl _) rfl, ?_⟩
  apply not_exits_of_doomed (fun tool => tool = { oneCommand with
    stdin := [], arrCCommand := ascii "help\n" }) _ reached rfl
  intro _ before same
  rw [same]
  exact Or.inr ⟨_, stuck, rfl⟩

end Scftp.ConfigurationTool

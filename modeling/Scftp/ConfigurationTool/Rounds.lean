import Scftp.ConfigurationTool.Progress

set_option autoImplicit false

/- Calls of `update` that run to their end. What is written was decided, field by
field, in the last round of each prompt. -/
namespace Scftp.ConfigurationTool

open CString Machine Stdin

/-- At a moment of a run a call of `update` stands at a prompt with its variables. -/
structure Stands (run : Nat → Outcome Tool) (prompt : Prompt) (moment : Nat) (tool : Tool)
    (update : Update) : Prop where
  reached : run moment = .next tool
  running : tool.update = some update
  prompt : update.prompt = prompt

/-- The input a step of a run finds unread. -/
def unread (run : Nat → Outcome Tool) (moment : Nat) : Bytes :=
  match run moment with
  | .next tool => tool.stdin
  | _ => []

/-- The configuration file before a step of a run. -/
def fileAt (run : Nat → Outcome Tool) (moment : Nat) : Option Bytes :=
  match run moment with
  | .next tool => tool.file
  | _ => none

/-- A call of `update` from its first prompt to its end, with the moment of each
prompt's last round. Behind one prompt's last round stand the rounds of the next. -/
structure Completed (run : Nat → Outcome Tool) (last : Prompt → Nat) : Prop where
  name : ∃ tool update, Stands run .name (last .name) tool update
  stays : ∀ prompt next, prompt.next = some next → last prompt < last next ∧
    ∀ moment, last prompt < moment → moment ≤ last next →
      ∃ tool update, Stands run next moment tool update
  ended : ∃ tool, run (last .bufferSize + 1) = .next tool ∧ tool.update = none

/-- A call of `update` that runs to its end and can open the file for writing. -/
structure Written (envs : Nat → Env) (start : Tool) (last : Prompt → Nat) : Prop where
  completed : Completed (toolRun envs start) last
  opened : (envs (last .bufferSize)).fopen = true

theorem unread_of_reached {run : Nat → Outcome Tool} {moment : Nat} {tool : Tool}
    (reached : run moment = .next tool) : unread run moment = tool.stdin := by
  rw [unread, reached]

theorem fileAt_of_reached {run : Nat → Outcome Tool} {moment : Nat} {tool : Tool}
    (reached : run moment = .next tool) : fileAt run moment = tool.file := by
  rw [fileAt, reached]

theorem Stands.unread_eq {run : Nat → Outcome Tool} {prompt : Prompt} {moment : Nat} {tool : Tool}
    {update : Update} (stands : Stands run prompt moment tool update) :
    unread run moment = tool.stdin :=
  unread_of_reached stands.reached

/- Every call of `update` that ends has such last rounds. -/
section Ended

variable {run : Nat → Outcome Tool}

/-- A call on its way, with the last rounds of the prompts it has passed; the
prompt it stands at had its latest round just now. -/
structure Through (run : Nat → Outcome Tool) (last : Prompt → Nat) (current : Prompt) : Prop where
  name : ∃ tool update, Stands run .name (last .name) tool update
  stays : ∀ prompt next, prompt.next = some next → current.rank ≤ next.rank →
    last prompt < last next ∧ ∀ moment, last prompt < moment → moment ≤ last next →
      ∃ tool update, Stands run next moment tool update

theorem Prompt.rank_inj {left right : Prompt} (same : left.rank = right.rank) : left = right := by
  cases left <;> cases right <;> first | rfl | cases same

theorem Prompt.next_inj {left right next : Prompt} (first : left.next = some next)
    (second : right.next = some next) : left = right := by
  cases left <;> cases first <;> cases right <;> first | rfl | cases second

theorem entered_through {prompt : Prompt} {count : Nat} (entered : Entered run prompt count) :
    ∃ last : Prompt → Nat, last prompt = count ∧ Through run last prompt := by
  induction entered with
  | @called count before after reached idle stepped stands =>
      obtain ⟨update, running, named⟩ := stands
      refine ⟨fun _ => count + 1, rfl, ⟨after, update, stepped, running, named⟩, ?_⟩
      intro prompt next follows first
      have lower := Prompt.rank_next follows
      have top := prompt.rank_le
      have most : Prompt.rank .name = 6 := rfl
      omega
  | @again prompt count after entered stepped stands ih =>
      obtain ⟨last, now, through⟩ := ih
      obtain ⟨update, running, named⟩ := stands
      refine ⟨Function.update last prompt (count + 1), Function.update_self .., ?_, ?_⟩
      · by_cases first : prompt = .name
        · subst first
          rw [Function.update_self]
          exact ⟨after, update, stepped, running, named⟩
        · rw [Function.update_of_ne (Ne.symm first)]
          exact through.name
      · intro earlier next follows high
        obtain ⟨before, during⟩ := through.stays earlier next follows high
        have lower := Prompt.rank_next follows
        have other : earlier ≠ prompt := by
          rintro rfl
          omega
        rw [Function.update_of_ne other]
        by_cases current : next = prompt
        · subst current
          rw [Function.update_self]
          refine ⟨by omega, ?_⟩
          intro moment late early
          by_cases final : moment = count + 1
          · rw [final]
            exact ⟨after, update, stepped, running, named⟩
          · exact during moment late (by omega)
        · rw [Function.update_of_ne current]
          exact ⟨before, during⟩
  | @passed prompt next count after entered follows stepped stands ih =>
      obtain ⟨last, now, through⟩ := ih
      obtain ⟨update, running, named⟩ := stands
      have below := Prompt.rank_next follows
      refine ⟨Function.update last next (count + 1), Function.update_self .., ?_, ?_⟩
      · have later : Prompt.name ≠ next := by
          rintro rfl
          cases prompt <;> cases follows
        rw [Function.update_of_ne later]
        exact through.name
      · intro earlier target leads high
        have lower := Prompt.rank_next leads
        have other : earlier ≠ next := by
          rintro rfl
          omega
        rw [Function.update_of_ne other]
        by_cases current : target = next
        · subst current
          obtain rfl := Prompt.next_inj leads follows
          rw [Function.update_self]
          refine ⟨by omega, ?_⟩
          intro moment late early
          obtain rfl : moment = count + 1 := by omega
          exact ⟨after, update, stepped, running, named⟩
        · rw [Function.update_of_ne current]
          apply through.stays earlier target leads
          have apart : target.rank ≠ next.rank := fun same => current (Prompt.rank_inj same)
          have adjacent : prompt.rank = next.rank + 1 := by
            cases prompt <;> cases follows <;> rfl
          omega

end Ended

/-- Every call of `update` that ends has gone through its prompts, each with a
last round. -/
theorem completed_of_ended {envs : Nat → Env} {start before after : Tool}
    (idle : start.update = none) {count : Nat} {update : Update}
    (reached : toolRun envs start count = .next before) (running : before.update = some update)
    (stepped : toolRun envs start (count + 1) = .next after) (ended : after.update = none) :
    ∃ last, last .bufferSize = count ∧ Completed (toolRun envs start) last := by
  have entered := entered_of_running idle count before reached update running
  have final : update.prompt = .bufferSize := by
    rw [toolRun_succ reached] at stepped
    cases leaves_of_next (envs count) before update running stepped with
    | again iBuffer => cases ended
    | passed iBuffer prompt pData follows revises => cases ended
    | saved pData last revises => exact last
  rw [final] at entered
  obtain ⟨last, now, through⟩ := entered_through entered
  refine ⟨last, now, through.name, ?_, ?_⟩
  · intro prompt next follows
    exact through.stays prompt next follows next.rank_pos
  · rw [now]
    exact ⟨after, stepped, ended⟩

/- What a prompt's last round does: it takes an answer and goes on to the next. -/
section Passing

variable {env : Env} {tool after : Tool} {update : Update}

theorem name_passes (prompt : update.prompt = .name)
    (stepped : updateStep env tool update = .next after) (moved : after.At .root) :
    ∃ name, 1 < strlen (fgets [] 64 tool.stdin).1 ∧
      strcpy (fgets [] 64 tool.stdin).1 = some name ∧
      after.update = some ⟨.root, update.iBuffer, { update.pData with name }⟩ := by
  obtain ⟨next, running, stands⟩ := moved
  simp only [updateStep, prompt, nameStep] at stepped
  split at stepped
  · cases stepped
    cases running
    rw [prompt] at stands
    cases stands
  · rename_i long
    split at stepped
    · cases stepped
    · rename_i name copied
      cases stepped
      exact ⟨name, by omega, copied, rfl⟩

/-- The root is what was looked up, cut once more. -/
theorem root_passes (prompt : update.prompt = .root)
    (stepped : updateStep env tool update = .next after) (moved : after.At .port) :
    ∃ (path : Bytes) (root : CharArray 128), cutLast (fgets [] 128 tool.stdin).1 = some path ∧
      path ≠ [] ∧ env.opendir path = true ∧ root.bytes = path.dropLast ∧
      after.update = some ⟨.port, update.iBuffer, { update.pData with root }⟩ := by
  obtain ⟨next, running, stands⟩ := moved
  have stuck (rest : Bytes) (again : tool.again update rest = .next after) : False := by
    cases again
    cases running
    rw [prompt] at stands
    cases stands
  simp only [updateStep, prompt, rootStep] at stepped
  split at stepped
  · exact absurd stepped (stuck _)
  · rename_i long
    split at stepped
    · cases stepped
    · rename_i path cut
      split at stepped
      · rename_i opens
        split at stepped
        · cases stepped
        · rename_i shorter again
          split at stepped
          · cases stepped
          · rename_i root copied
            cases stepped
            obtain ⟨_, whole, fewer⟩ := cutLast_eq_some cut
            obtain ⟨_, left, _⟩ := cutLast_eq_some again
            have clean : (0 : UInt8) ∉ path := by
              rw [whole]
              exact fun member => cstr_noNul _ (List.dropLast_subset _ member)
            have cleaner : (0 : UInt8) ∉ path.dropLast :=
              fun member => clean (List.dropLast_subset _ member)
            refine ⟨path, root, cut, ?_, opens, ?_, rfl⟩
            · intro empty
              rw [empty] at fewer
              simp only [strlen, cstr, List.takeWhile_nil, List.length_nil] at fewer long
              omega
            · rw [strcpy_bytes copied, left, cstr_of_noNul path clean, cstr_of_noNul _ cleaner]
      · exact absurd stepped (stuck _)

theorem port_passes (prompt : update.prompt = .port)
    (stepped : updateStep env tool update = .next after) (moved : after.At .authentication) :
    ∃ port, (env.scanf tool.stdin).1.getD update.iBuffer = port ∧ port ≠ 0 ∧
      env.isPortAvailable port = some true ∧
      after.update = some ⟨.authentication, port, { update.pData with port }⟩ := by
  obtain ⟨next, running, stands⟩ := moved
  have stuck (iBuffer : Int32) (rest : Bytes)
      (again : tool.again ⟨.port, iBuffer, update.pData⟩ rest = .next after) : False := by
    cases again
    cases running
    cases stands
  simp only [updateStep, prompt, portStep] at stepped
  split at stepped
  · exact absurd stepped (stuck _ _)
  · rename_i nonzero
    split at stepped
    · cases stepped
    · exact absurd stepped (stuck _ _)
    · rename_i available
      cases stepped
      exact ⟨_, rfl, nonzero, available, rfl⟩

theorem authentication_passes (prompt : update.prompt = .authentication)
    (stepped : updateStep env tool update = .next after) :
    ∃ iBuffer, (env.scanf tool.stdin).1.getD 0 = iBuffer ∧
      after.update = some ⟨.encryption, iBuffer,
        { update.pData with authentication := if 1 ≤ iBuffer then 1 else 0 }⟩ := by
  simp only [updateStep, prompt, authenticationStep] at stepped
  cases stepped
  exact ⟨_, rfl, rfl⟩

theorem encryption_passes (prompt : update.prompt = .encryption)
    (stepped : updateStep env tool update = .next after) (moved : after.At .bufferSize) :
    ∃ level, (env.scanf tool.stdin).1.getD 0 = level ∧
      after.update = some ⟨.bufferSize, level,
        { update.pData with encryptionLevel := level }⟩ := by
  obtain ⟨next, running, stands⟩ := moved
  simp only [updateStep, prompt, encryptionStep] at stepped
  split at stepped
  · cases stepped
    exact ⟨_, rfl, rfl⟩
  · cases stepped
    cases running
    cases stands

theorem bufferSize_passes (prompt : update.prompt = .bufferSize)
    (stepped : updateStep env tool update = .next after) (ended : after.update = none) :
    ∃ size, (env.scanf tool.stdin).1.getD 0 = size ∧ ¬ size < 1 ∧
      after.file = if env.fopen then
        some { update.pData with bufferSize := if 512 < size then 512 else size }.saved
      else tool.file := by
  simp only [updateStep, prompt, bufferSizeStep] at stepped
  split at stepped
  · cases stepped
    cases ended
  · rename_i positive
    cases stepped
    exact ⟨_, rfl, positive, rfl⟩

end Passing

section Session

variable {envs : Nat → Env} {start : Tool} {last : Prompt → Nat}

/-- A prompt that goes round again keeps what the call has in hand. -/
theorem stands_again {prompt : Prompt} {moment : Nat} {tool later : Tool}
    {update again : Update} (stands : Stands (toolRun envs start) prompt moment tool update)
    (still : Stands (toolRun envs start) prompt (moment + 1) later again) :
    again.pData = update.pData ∧ later.stdin = prompt.rest (envs moment) tool.stdin := by
  have stepped := toolRun_succ stands.reached
  rw [still.reached] at stepped
  have leaves := leaves_of_next (envs moment) tool update stands.running stepped.symm
  have unread := leaves.stdin_eq
  rw [stands.prompt] at unread
  refine ⟨?_, unread⟩
  have running := still.running
  cases leaves with
  | again iBuffer =>
      cases running
      rfl
  | passed iBuffer prompt pData follows revises =>
      cases running
      have lower := Prompt.rank_next follows
      have first := congrArg Prompt.rank stands.prompt
      have second := congrArg Prompt.rank still.prompt
      dsimp only at second
      omega
  | saved pData last revises => cases running

/-- The rounds of a prompt before its last keep what the call has in hand. -/
theorem stands_kept {prompt : Prompt} {first : Nat} {pData : ScftpData} (count : Nat)
    (during : ∀ moment, first ≤ moment → moment ≤ first + count →
      ∃ tool update, Stands (toolRun envs start) prompt moment tool update)
    (entry : ∀ tool update, Stands (toolRun envs start) prompt first tool update →
      update.pData = pData) :
    ∃ tool update, Stands (toolRun envs start) prompt (first + count) tool update ∧
      update.pData = pData := by
  induction count with
  | zero =>
      obtain ⟨tool, update, stands⟩ := during first (Nat.le_refl _) (by omega)
      exact ⟨tool, update, stands, entry tool update stands⟩
  | succ count ih =>
      obtain ⟨tool, update, stands, same⟩ := ih fun moment late early =>
        during moment late (by omega)
      obtain ⟨later, again, still⟩ := during (first + (count + 1)) (by omega) (by omega)
      have kept := (stands_again stands still).1
      exact ⟨later, again, still, by rw [kept, same]⟩

/-- From the last round of one prompt to the last round of the next. -/
theorem Completed.pass (completed : Completed (toolRun envs start) last) {prompt next : Prompt}
    (follows : prompt.next = some next) {tool : Tool} {update : Update}
    (stands : Stands (toolRun envs start) prompt (last prompt) tool update) :
    ∃ after entered, updateStep (envs (last prompt)) tool update = .next after ∧
      after.At next ∧ after.update = some entered ∧
      ∃ later again, Stands (toolRun envs start) next (last next) later again ∧
        again.pData = entered.pData := by
  obtain ⟨before, during⟩ := completed.stays prompt next follows
  obtain ⟨after, entered, moved⟩ := during (last prompt + 1) (by omega) (by omega)
  have stepped := toolRun_succ stands.reached
  rw [toolStep_running _ tool update stands.running, moved.reached] at stepped
  refine ⟨after, entered, stepped.symm, ⟨entered, moved.running, moved.prompt⟩, moved.running, ?_⟩
  have entry (tool : Tool) (update : Update)
      (same : Stands (toolRun envs start) next (last prompt + 1) tool update) :
      update.pData = entered.pData := by
    have whole := same.reached
    rw [moved.reached] at whole
    cases whole
    have running := same.running
    rw [moved.running] at running
    cases running
    rfl
  obtain ⟨count, final⟩ := Nat.exists_eq_add_of_le (show last prompt + 1 ≤ last next by omega)
  rw [final] at during ⊢
  apply stands_kept count _ entry
  intro moment late early
  exact during moment (by omega) early

/-- Each field of a configuration as the last round of its prompt decided it. -/
structure Decided (envs : Nat → Env) (run : Nat → Outcome Tool) (last : Prompt → Nat)
    (pData : ScftpData) : Prop where
  name : strcpy (fgets [] 64 (unread run (last .name))).1 = some pData.name
  root : ∃ path, cutLast (fgets [] 128 (unread run (last .root))).1 = some path ∧ path ≠ [] ∧
    (envs (last .root)).opendir path = true ∧ pData.root.bytes = path.dropLast
  port : ∃ tool update, Stands run .port (last .port) tool update ∧
    ((envs (last .port)).scanf tool.stdin).1.getD update.iBuffer = pData.port
  portAvailable : pData.port ≠ 0 ∧ (envs (last .port)).isPortAvailable pData.port = some true
  authentication : pData.authentication =
    if 1 ≤ ((envs (last .authentication)).scanf (unread run (last .authentication))).1.getD 0
    then 1 else 0
  encryptionLevel : pData.encryptionLevel =
    ((envs (last .encryption)).scanf (unread run (last .encryption))).1.getD 0
  bufferSize : ∃ size,
    ((envs (last .bufferSize)).scanf (unread run (last .bufferSize))).1 = some size ∧ 1 ≤ size ∧
      pData.bufferSize = if 512 < size then 512 else size

/-- What a call writes was decided in the last rounds of its prompts. -/
theorem Written.decided (written : Written envs start last) :
    ∃ pData, fileAt (toolRun envs start) (last .bufferSize + 1) = some pData.saved ∧
      Decided envs (toolRun envs start) last pData := by
  have completed := written.completed
  obtain ⟨tool, update, stands⟩ := completed.name
  obtain ⟨after, _, stepped, moved, running, tool₁, update₁, stands₁, same₁⟩ :=
    completed.pass (show Prompt.name.next = some .root from rfl) stands
  obtain ⟨name, _, copied, handed⟩ := name_passes stands.prompt stepped moved
  obtain rfl := Option.some.inj (running.symm.trans handed)
  obtain ⟨after, _, stepped, moved, running, tool₂, update₂, stands₂, same₂⟩ :=
    completed.pass (show Prompt.root.next = some .port from rfl) stands₁
  obtain ⟨path, root, cut, nonempty, opens, shorter, handed⟩ :=
    root_passes stands₁.prompt stepped moved
  obtain rfl := Option.some.inj (running.symm.trans handed)
  obtain ⟨after, _, stepped, moved, running, tool₃, update₃, stands₃, same₃⟩ :=
    completed.pass (show Prompt.port.next = some .authentication from rfl) stands₂
  obtain ⟨port, read, nonzero, available, handed⟩ := port_passes stands₂.prompt stepped moved
  obtain rfl := Option.some.inj (running.symm.trans handed)
  obtain ⟨after, _, stepped, moved, running, tool₄, update₄, stands₄, same₄⟩ :=
    completed.pass (show Prompt.authentication.next = some .encryption from rfl) stands₃
  obtain ⟨switch, switched, handed⟩ := authentication_passes stands₃.prompt stepped
  obtain rfl := Option.some.inj (running.symm.trans handed)
  obtain ⟨after, _, stepped, moved, running, tool₅, update₅, stands₅, same₅⟩ :=
    completed.pass (show Prompt.encryption.next = some .bufferSize from rfl) stands₄
  obtain ⟨level, levelled, handed⟩ := encryption_passes stands₄.prompt stepped moved
  obtain rfl := Option.some.inj (running.symm.trans handed)
  obtain ⟨after, reached, ended⟩ := completed.ended
  have stepped := toolRun_succ stands₅.reached
  rw [toolStep_running _ tool₅ update₅ stands₅.running, reached] at stepped
  obtain ⟨size, sized, positive, filed⟩ := bufferSize_passes stands₅.prompt stepped.symm ended
  rw [written.opened] at filed
  refine ⟨{ update₅.pData with bufferSize := if 512 < size then 512 else size }, ?_, ?_⟩
  · rw [fileAt_of_reached reached]
    exact filed
  · have whole : update₅.pData = { update.pData with
        name, root, port
        authentication := if 1 ≤ switch then 1 else 0
        encryptionLevel := level } := by
      rw [same₅, same₄, same₃, same₂, same₁]
    rw [whole]
    refine ⟨?_, ⟨path, ?_, nonempty, opens, shorter⟩, ⟨tool₂, update₂, stands₂, read⟩,
      ⟨nonzero, available⟩, ?_, ?_, ⟨size, ?_, Int32.not_lt.mp positive, rfl⟩⟩
    · rw [stands.unread_eq]
      exact copied
    · rw [stands₁.unread_eq]
      exact cut
    · rw [stands₃.unread_eq, switched]
    · rw [stands₄.unread_eq, levelled]
    · rw [stands₅.unread_eq]
      cases taken : ((envs (last .bufferSize)).scanf tool₅.stdin).1 with
      | none =>
          rw [taken, Option.getD_none] at sized
          rw [← sized] at positive
          exact absurd (by decide) positive
      | some value =>
          rw [taken, Option.getD_some] at sized
          rw [sized]

end Session

theorem loads_unique {file : Option Bytes} {pData other : ScftpData} (loads : Loads file pData)
    (again : Loads file other) : pData = other := by
  have same := loads []
  rw [again []] at same
  exact (Except.ok.inj same).symm

/-- The last rounds of a session that gives every prompt one answer. -/
def firstRounds : Prompt → Nat
  | .name => 1
  | .root => 2
  | .port => 3
  | .authentication => 4
  | .encryption => 5
  | .bufferSize => 6

/-- Six steps, each past a prompt, make a call of `update` that is written. -/
theorem written_of_steps {env : Env} {start : Tool} (tools : Nat → Tool) (opened : env.fopen = true)
    (first : tools 0 = start)
    (steps : ∀ count < 7, toolStep env (tools count) = .next (tools (count + 1)))
    (standing : ∀ prompt, (tools (firstRounds prompt)).At prompt)
    (ended : (tools 7).update = none) :
    (∀ count ≤ 7, toolRun (fun _ => env) start count = .next (tools count)) ∧
      Written (fun _ => env) start firstRounds := by
  have reached : ∀ count ≤ 7, toolRun (fun _ => env) start count = .next (tools count) :=
    run_of_steps first steps
  have stands (prompt : Prompt) :
      ∃ tool update, Stands (toolRun (fun _ => env) start) prompt (firstRounds prompt) tool
        update := by
    obtain ⟨update, running, named⟩ := standing prompt
    refine ⟨tools (firstRounds prompt), update, reached _ ?_, running, named⟩
    cases prompt <;> decide
  refine ⟨reached, ⟨stands .name, ?_, ⟨tools 7, reached 7 (by decide), ended⟩⟩, opened⟩
  intro prompt next follows
  have adjacent : firstRounds next = firstRounds prompt + 1 := by
    cases prompt <;> cases follows <;> rfl
  refine ⟨by omega, ?_⟩
  intro moment late early
  obtain rfl : moment = firstRounds next := by omega
  exact stands next

/- Two sessions: one whose answers are all in order, and one without care, that
gives a root without a slash behind it, a port of more than 16 bits and a sign
without a number. -/
section Sample

/-- A system on which the folder `/srv` is found, with slashes behind it too, and
the port 8080 is free. -/
structure Accepts (env : Env) : Prop where
  opens : env.opendir (ascii "/srv") = true
  opensSlashed : env.opendir (ascii "/srv//") = true
  socket : env.socket = true
  bind : env.bind 8080 = true
  scanf : env.scanf = scanfInt Int32.ofInt
  fopen : env.fopen = true

def alice : CharArray 64 := ⟨⟨ascii "alice\n", by decide⟩, by decide⟩

/-- The default configuration after the first of the prompts. -/
def named : ScftpData := { ScftpData.default sampleRoot with name := alice }

def sampleTool (stdin : String) (update : Option Update) (pData : ScftpData) : Tool :=
  ⟨ascii stdin, ascii "update\n", some pData.saved, update⟩

def rooted : ScftpData := { named with root := ⟨⟨ascii "/srv/", by decide⟩, by decide⟩ }

/-- The states of `answering`. -/
def answeringTools : Nat → Tool
  | 0 => answering
  | 1 => sampleTool "alice\n/srv//\n8080\n0\n2\n600\n"
      (some ⟨.name, 0, .default sampleRoot⟩) (.default sampleRoot)
  | 2 => sampleTool "/srv//\n8080\n0\n2\n600\n" (some ⟨.root, 0, named⟩) (.default sampleRoot)
  | 3 => sampleTool "8080\n0\n2\n600\n" (some ⟨.port, 0, rooted⟩) (.default sampleRoot)
  | 4 => sampleTool "\n0\n2\n600\n"
      (some ⟨.authentication, 8080, { rooted with port := 8080 }⟩) (.default sampleRoot)
  | 5 => sampleTool "\n2\n600\n"
      (some ⟨.encryption, 0, { rooted with port := 8080, authentication := 0 }⟩)
      (.default sampleRoot)
  | 6 => sampleTool "\n600\n"
      (some ⟨.bufferSize, 2,
        { rooted with port := 8080, authentication := 0, encryptionLevel := 2 }⟩)
      (.default sampleRoot)
  | _ => sampleTool "\n" none
      { rooted with port := 8080, authentication := 0, encryptionLevel := 2, bufferSize := 512 }

def careless : Tool where
  stdin := ascii "update\nalice\n/srv\n73616\n-\n2\n600\n"
  arrCCommand := []
  file := some (ScftpData.default sampleRoot).saved
  update := none

def misrooted : ScftpData := { named with root := ⟨⟨ascii "/sr", by decide⟩, by decide⟩ }

/-- The states of `careless`. -/
def carelessTools : Nat → Tool
  | 0 => careless
  | 1 => sampleTool "alice\n/srv\n73616\n-\n2\n600\n"
      (some ⟨.name, 0, .default sampleRoot⟩) (.default sampleRoot)
  | 2 => sampleTool "/srv\n73616\n-\n2\n600\n" (some ⟨.root, 0, named⟩) (.default sampleRoot)
  | 3 => sampleTool "73616\n-\n2\n600\n" (some ⟨.port, 0, misrooted⟩) (.default sampleRoot)
  | 4 => sampleTool "\n-\n2\n600\n"
      (some ⟨.authentication, 73616, { misrooted with port := 73616 }⟩) (.default sampleRoot)
  | 5 => sampleTool "\n2\n600\n"
      (some ⟨.encryption, 0, { misrooted with port := 73616, authentication := 0 }⟩)
      (.default sampleRoot)
  | 6 => sampleTool "\n600\n"
      (some ⟨.bufferSize, 2,
        { misrooted with port := 73616, authentication := 0, encryptionLevel := 2 }⟩)
      (.default sampleRoot)
  | _ => sampleTool "\n" none
      { misrooted with port := 73616, authentication := 0, encryptionLevel := 2, bufferSize := 512 }

theorem update_called (env : Env) {tool : Tool} {pData : ScftpData} {rest : Bytes}
    (idle : tool.update = none) (file : tool.file = some pData.saved)
    (command : fgets tool.arrCCommand 64 tool.stdin = (ascii "update\n", rest)) :
    toolStep env tool = .next ⟨rest, ascii "update\n", some pData.saved,
      some ⟨.name, 0, pData⟩⟩ := by
  have noPrint : strcmp (ascii "update\n") (ascii "print\n") = false := by decide
  have updates : strcmp (ascii "update\n") (ascii "update\n") = true := by decide
  have loads := loads_saved pData env.residue
  simp only [toolStep_idle env tool idle, commandStep, command, noPrint, updates, file, loads,
    Bool.false_eq_true, ↓reduceIte]

variable {env : Env} (accepts : Accepts env)

include accepts

theorem port_accepted (tool : Tool) (update : Update) (port : Int32) (rest : Bytes)
    (running : tool.update = some update) (prompt : update.prompt = .port)
    (read : scanfInt Int32.ofInt tool.stdin = (some port, rest)) (nonzero : port ≠ 0)
    (low : port.toInt16.toUInt16 = 8080) :
    toolStep env tool = .next { tool with
      stdin := rest
      update := some ⟨.authentication, port, { update.pData with port := port }⟩ } := by
  simp only [toolStep_running env tool update running, updateStep, prompt, portStep, accepts.scanf,
    read, Option.getD_some, nonzero, ↓reduceIte, Env.isPortAvailable, accepts.socket, low,
    accepts.bind]

theorem answering_written :
    (∀ count ≤ 7, toolRun (fun _ => env) answering count = .next (answeringTools count)) ∧
      Written (fun _ => env) answering firstRounds := by
  apply written_of_steps answeringTools accepts.fopen rfl
  · intro count within
    match count with
    | 0 => exact update_called env rfl rfl (by decide)
    | 1 => rfl
    | 2 =>
        change (if env.opendir (ascii "/srv//") = true then _ else _) = _
        rw [if_pos accepts.opensSlashed]
        rfl
    | 3 => exact port_accepted accepts (answeringTools 3) ⟨.port, 0, rooted⟩ 8080
            (ascii "\n0\n2\n600\n") rfl rfl (by decide) (by decide) (by decide)
    | 4 =>
        simp only [answeringTools, sampleTool, toolStep, updateStep, authenticationStep,
          accepts.scanf]
        rfl
    | 5 =>
        simp only [answeringTools, sampleTool, toolStep, updateStep, encryptionStep,
          accepts.scanf]
        rfl
    | 6 =>
        simp only [answeringTools, sampleTool, toolStep, updateStep, bufferSizeStep,
          accepts.scanf, accepts.fopen]
        rfl
  · intro prompt
    cases prompt <;> exact ⟨_, rfl, rfl⟩
  · rfl

theorem careless_written :
    (∀ count ≤ 7, toolRun (fun _ => env) careless count = .next (carelessTools count)) ∧
      Written (fun _ => env) careless firstRounds := by
  apply written_of_steps carelessTools accepts.fopen rfl
  · intro count within
    match count with
    | 0 => exact update_called env rfl rfl (by decide)
    | 1 => rfl
    | 2 =>
        change (if env.opendir (ascii "/srv") = true then _ else _) = _
        rw [if_pos accepts.opens]
        rfl
    | 3 => exact port_accepted accepts (carelessTools 3) ⟨.port, 0, misrooted⟩ 73616
            (ascii "\n-\n2\n600\n") rfl rfl (by decide) (by decide) (by decide)
    | 4 =>
        simp only [carelessTools, sampleTool, toolStep, updateStep, authenticationStep,
          accepts.scanf]
        rfl
    | 5 =>
        simp only [carelessTools, sampleTool, toolStep, updateStep, encryptionStep,
          accepts.scanf]
        rfl
    | 6 =>
        simp only [carelessTools, sampleTool, toolStep, updateStep, bufferSizeStep,
          accepts.scanf, accepts.fopen]
        rfl
  · intro prompt
    cases prompt <;> exact ⟨_, rfl, rfl⟩
  · rfl

end Sample

end Scftp.ConfigurationTool

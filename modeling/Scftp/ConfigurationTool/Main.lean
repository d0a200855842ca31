import Scftp.ConfigurationTool.Common
import Scftp.Lib.Machine
import Scftp.Lib.Stdin

set_option autoImplicit false

/- main.c: the command loop and `update`. A step runs from one `fgets` or `scanf`
call to the next. -/
namespace Scftp.ConfigurationTool

open CString Machine Stdin

/-- The prompt loops of `update`, in their order. -/
inductive Prompt where
  | name
  | root
  | port
  | authentication
  | encryption
  | bufferSize
deriving DecidableEq

/-- The loop behind a prompt's; none behind the last. -/
def Prompt.next : Prompt → Option Prompt
  | .name => some .root
  | .root => some .port
  | .port => some .authentication
  | .authentication => some .encryption
  | .encryption => some .bufferSize
  | .bufferSize => none

/-- A call of `update`: the loop it is in and its variables. `c_buffer` is emptied
before every read and not kept. -/
structure Update where
  prompt : Prompt
  iBuffer : Int32
  pData : ScftpData
deriving DecidableEq

/-- The unread input, the command buffer, the configuration file and the call of
`update` that is running, if one is. -/
structure Tool where
  stdin : Bytes
  arrCCommand : Bytes
  file : Option Bytes
  update : Option Update
deriving DecidableEq

/-- What the system answers in one step: what the heap holds behind the file's
content, which folders open, whether a socket is made and which ports can be
bound, what `scanf` stores and leaves unread, and whether the file can be opened
for writing. -/
structure Env where
  residue : Bytes
  opendir : Bytes → Bool
  socket : Bool
  bind : UInt16 → Bool
  scanf : Bytes → Option Int32 × Bytes
  fopen : Bool

/-- `IsPortAvailable`; `none` when it exits. `htons` takes the low 16 bits. -/
def Env.isPortAvailable (env : Env) (port : Int32) : Option Bool :=
  if env.socket then some (env.bind port.toInt16.toUInt16) else none

section Steps

variable (env : Env) (tool : Tool) (update : Update)

def commandStep : Outcome Tool :=
  let read := fgets tool.arrCCommand 64 tool.stdin
  let tool := { tool with arrCCommand := read.1, stdin := read.2 }
  if strcmp tool.arrCCommand (ascii "print\n") then
    match load tool.file env.residue with
    | .error _ => .fault
    | .ok _ => .next tool
  else if strcmp tool.arrCCommand (ascii "update\n") then
    match load tool.file env.residue with
    | .error _ => .fault
    | .ok pData => .next { tool with update := some ⟨.name, 0, pData⟩ }
  else if strcmp tool.arrCCommand (ascii "exit\n") then .exit tool
  else .next tool

def Tool.again (rest : Bytes) : Outcome Tool :=
  .next { tool with stdin := rest, update := some update }

def nameStep : Outcome Tool :=
  let read := fgets [] 64 tool.stdin
  if strlen read.1 ≤ 1 then tool.again update read.2
  else
    match strcpy read.1 with
    | none => .fault
    | some name => .next { tool with
        stdin := read.2, update := some { update with prompt := .root, pData.name := name } }

def rootStep : Outcome Tool :=
  let read := fgets [] 128 tool.stdin
  if strlen read.1 ≤ 1 then tool.again update read.2
  else
    match cutLast read.1 with
    | none => .fault
    | some path =>
        if env.opendir path then
          match cutLast path with
          | none => .fault
          | some shorter =>
              match strcpy shorter with
              | none => .fault
              | some root => .next { tool with
                  stdin := read.2
                  update := some { update with prompt := .port, pData.root := root } }
        else tool.again update read.2

/-- `i_buffer` keeps its value from round to round when `scanf` stores nothing. -/
def portStep : Outcome Tool :=
  let read := env.scanf tool.stdin
  let iBuffer := read.1.getD update.iBuffer
  if iBuffer = 0 then tool.again { update with iBuffer } read.2
  else
    match env.isPortAvailable iBuffer with
    | none => .exit { tool with stdin := read.2 }
    | some false => tool.again { update with iBuffer } read.2
    | some true => .next { tool with
        stdin := read.2
        update := some { update with prompt := .authentication, iBuffer, pData.port := iBuffer } }

def authenticationStep : Outcome Tool :=
  let read := env.scanf tool.stdin
  let iBuffer := read.1.getD 0
  let authentication := if 1 ≤ iBuffer then 1 else 0
  .next { tool with
    stdin := read.2
    update := some { update with
      prompt := .encryption, iBuffer, pData.authentication := authentication } }

def encryptionStep : Outcome Tool :=
  let read := env.scanf tool.stdin
  let iBuffer := read.1.getD 0
  if iBuffer = 0 ∨ iBuffer = 1 ∨ iBuffer = 2 ∨ iBuffer = 3 then
    .next { tool with
      stdin := read.2
      update := some { update with
        prompt := .bufferSize, iBuffer, pData.encryptionLevel := iBuffer } }
  else tool.again { update with iBuffer } read.2

/-- The last loop, and the write back behind it. -/
def bufferSizeStep : Outcome Tool :=
  let read := env.scanf tool.stdin
  let iBuffer := read.1.getD 0
  if iBuffer < 1 then tool.again { update with iBuffer } read.2
  else
    let pData := { update.pData with bufferSize := if 512 < iBuffer then 512 else iBuffer }
    .next { tool with
      stdin := read.2, update := none
      file := if env.fopen then some pData.saved else tool.file }

def updateStep : Outcome Tool :=
  match update.prompt with
  | .name => nameStep tool update
  | .root => rootStep env tool update
  | .port => portStep env tool update
  | .authentication => authenticationStep env tool update
  | .encryption => encryptionStep env tool update
  | .bufferSize => bufferSizeStep env tool update

end Steps

def toolStep (env : Env) (tool : Tool) : Outcome Tool :=
  match tool.update with
  | none => commandStep env tool
  | some update => updateStep env tool update

/-- Where the tool stands after a number of steps, each with its own answers. -/
def toolRun (envs : Nat → Env) (tool : Tool) (count : Nat) : Outcome Tool :=
  Machine.run (fun moment => toolStep (envs moment)) tool count

/-- The ranges `update` keeps to. -/
structure InRange (pData : ScftpData) : Prop where
  authentication : pData.authentication = 0 ∨ pData.authentication = 1
  encryptionLevel : pData.encryptionLevel = 0 ∨ pData.encryptionLevel = 1 ∨
    pData.encryptionLevel = 2 ∨ pData.encryptionLevel = 3
  bufferSize : 1 ≤ pData.bufferSize ∧ pData.bufferSize ≤ 512

/-- What an answer may do to the configuration in hand. -/
structure Revises (before after : ScftpData) : Prop where
  maxConnections : after.maxConnections = before.maxConnections
  inRange : InRange before → InRange after

theorem Revises.refl (pData : ScftpData) : Revises pData pData := ⟨rfl, id⟩

/-- What a prompt's read leaves unread. -/
def Prompt.rest (env : Env) (stdin : Bytes) : Prompt → Bytes
  | .name => (fgets [] 64 stdin).2
  | .root => (fgets [] 128 stdin).2
  | _ => (env.scanf stdin).2

/-- All that a step of `update` can leave: the same loop once more, the next
loop, or the end of the call with the file written back. -/
inductive Leaves (env : Env) (tool : Tool) (update : Update) : Tool → Prop where
  | again (iBuffer : Int32) :
      Leaves env tool update { tool with
        stdin := update.prompt.rest env tool.stdin, update := some { update with iBuffer } }
  | passed (iBuffer : Int32) (prompt : Prompt) (pData : ScftpData)
      (next : update.prompt.next = some prompt) (revises : Revises update.pData pData) :
      Leaves env tool update { tool with
        stdin := update.prompt.rest env tool.stdin, update := some ⟨prompt, iBuffer, pData⟩ }
  | saved (pData : ScftpData) (last : update.prompt = .bufferSize)
      (revises : Revises update.pData pData) :
      Leaves env tool update { tool with
        stdin := update.prompt.rest env tool.stdin, update := none
        file := if env.fopen then some pData.saved else tool.file }

theorem Leaves.stdin_eq {env : Env} {tool after : Tool} {update : Update}
    (leaves : Leaves env tool update after) :
    after.stdin = update.prompt.rest env tool.stdin := by
  cases leaves <;> rfl

def Tool.command (tool : Tool) : Bytes := (fgets tool.arrCCommand 64 tool.stdin).1

/-- The tool after the next read of a command. -/
def Tool.commanded (tool : Tool) : Tool :=
  { tool with arrCCommand := tool.command, stdin := (fgets tool.arrCCommand 64 tool.stdin).2 }

/-- All that a command can do: fault on a file that does not load, end the tool,
call `update`, or nothing but its read. -/
inductive Commands (env : Env) (tool : Tool) : Outcome Tool → Prop where
  | fault (fault : Fault)
      (named : strcmp tool.command (ascii "print\n") = true ∨
        strcmp tool.command (ascii "update\n") = true)
      (failed : load tool.file env.residue = .error fault) : Commands env tool .fault
  | exits (noPrint : strcmp tool.command (ascii "print\n") = false)
      (noUpdate : strcmp tool.command (ascii "update\n") = false)
      (exits : strcmp tool.command (ascii "exit\n") = true) :
      Commands env tool (.exit tool.commanded)
  | updates (pData : ScftpData) (noExit : strcmp tool.command (ascii "exit\n") = false)
      (loads : load tool.file env.residue = .ok pData) :
      Commands env tool (.next { tool.commanded with update := some ⟨.name, 0, pData⟩ })
  | stays (noExit : strcmp tool.command (ascii "exit\n") = false)
      (noUpdate : strcmp tool.command (ascii "update\n") = false)
      (loads : strcmp tool.command (ascii "print\n") = true →
        ∃ pData, load tool.file env.residue = .ok pData) :
      Commands env tool (.next tool.commanded)

/-- A line read into an empty buffer fits an array of the size read. -/
theorem strcpy_fgets (size : Nat) (room : 0 < size) (stdin : Bytes) :
    ∃ array : CharArray size, strcpy (fgets [] size stdin).1 = some array := by
  have short : (cstr (fgets [] size stdin).1).length < size := by
    have cut := cstr_length_le (fgets [] size stdin).1
    by_cases unread : stdin = []
    · rw [unread, fgets_eof] at cut ⊢
      simpa using Nat.lt_of_le_of_lt cut room
    · rw [fgets_of_ne_nil [] size unread] at cut ⊢
      have taken := takeLine_length_le (size - 1) stdin
      omega
  exact ⟨_, dif_pos short⟩

section Cases

variable (env : Env) (tool : Tool) (update : Update)

theorem nameStep_leaves (prompt : update.prompt = .name) :
    ∃ after, nameStep tool update = .next after ∧ Leaves env tool update after := by
  have rest : update.prompt.rest env tool.stdin = (fgets [] 64 tool.stdin).2 := by rw [prompt]; rfl
  have next : update.prompt.next = some .root := by rw [prompt]; rfl
  unfold nameStep
  dsimp only
  rw [← rest]
  split
  · exact ⟨_, rfl, Leaves.again update.iBuffer⟩
  · obtain ⟨name, copied⟩ := strcpy_fgets 64 (by decide) tool.stdin
    rw [copied]
    have revises : Revises update.pData { update.pData with name } :=
      ⟨rfl, fun held => ⟨held.1, held.2, held.3⟩⟩
    exact ⟨_, rfl, Leaves.passed update.iBuffer .root _ next revises⟩

theorem rootStep_leaves (prompt : update.prompt = .root) :
    ∃ after, rootStep env tool update = .next after ∧ Leaves env tool update after := by
  have rest : update.prompt.rest env tool.stdin = (fgets [] 128 tool.stdin).2 := by rw [prompt]; rfl
  have next : update.prompt.next = some .port := by rw [prompt]; rfl
  unfold rootStep
  dsimp only
  rw [← rest]
  split
  · exact ⟨_, rfl, Leaves.again update.iBuffer⟩
  · rename_i long
    obtain ⟨path, cut, shorter⟩ := cutLast_some (by omega : 0 < strlen (fgets [] 128 tool.stdin).1)
    obtain ⟨root, again, shortest⟩ := cutLast_some (by omega : 0 < strlen path)
    simp only [cut]
    split
    · simp only [again]
      have fits : (cstr root).length < 128 := by
        obtain ⟨whole, copied⟩ := strcpy_fgets 128 (by decide) tool.stdin
        have bytes := strcpy_bytes copied
        have room := whole.fits
        rw [bytes] at room
        unfold strlen at shorter shortest
        omega
      have copied : strcpy root = some ⟨toStr root, fits⟩ := dif_pos fits
      simp only [copied]
      have revises : Revises update.pData { update.pData with root := ⟨toStr root, fits⟩ } :=
        ⟨rfl, fun held => ⟨held.1, held.2, held.3⟩⟩
      exact ⟨_, rfl, Leaves.passed update.iBuffer .port _ next revises⟩
    · exact ⟨_, rfl, Leaves.again update.iBuffer⟩

/-- Only the port's loop can exit, when no socket is made. -/
theorem portStep_leaves (prompt : update.prompt = .port) :
    (∃ after, portStep env tool update = .next after ∧ Leaves env tool update after) ∨
      ∃ rest, portStep env tool update = .exit { tool with stdin := rest } := by
  have rest : update.prompt.rest env tool.stdin = (env.scanf tool.stdin).2 := by rw [prompt]; rfl
  have next : update.prompt.next = some .authentication := by rw [prompt]; rfl
  unfold portStep
  dsimp only
  rw [← rest]
  split
  · exact Or.inl ⟨_, rfl, Leaves.again _⟩
  · split
    · exact Or.inr ⟨_, rfl⟩
    · exact Or.inl ⟨_, rfl, Leaves.again _⟩
    · have revises (port : Int32) : Revises update.pData { update.pData with port } :=
        ⟨rfl, fun held => ⟨held.1, held.2, held.3⟩⟩
      exact Or.inl ⟨_, rfl, Leaves.passed _ .authentication _ next (revises _)⟩

theorem authenticationStep_leaves (prompt : update.prompt = .authentication) :
    ∃ after, authenticationStep env tool update = .next after ∧ Leaves env tool update after := by
  have rest : update.prompt.rest env tool.stdin = (env.scanf tool.stdin).2 := by rw [prompt]; rfl
  have next : update.prompt.next = some .encryption := by rw [prompt]; rfl
  unfold authenticationStep
  dsimp only
  rw [← rest]
  refine ⟨_, rfl, Leaves.passed _ .encryption _ next ⟨rfl, fun held => ⟨?_, held.2, held.3⟩⟩⟩
  dsimp only
  split
  · exact Or.inr rfl
  · exact Or.inl rfl

theorem encryptionStep_leaves (prompt : update.prompt = .encryption) :
    ∃ after, encryptionStep env tool update = .next after ∧ Leaves env tool update after := by
  have rest : update.prompt.rest env tool.stdin = (env.scanf tool.stdin).2 := by rw [prompt]; rfl
  have next : update.prompt.next = some .bufferSize := by rw [prompt]; rfl
  unfold encryptionStep
  dsimp only
  rw [← rest]
  split
  · rename_i level
    exact ⟨_, rfl, Leaves.passed _ .bufferSize _ next ⟨rfl, fun held => ⟨held.1, level, held.3⟩⟩⟩
  · exact ⟨_, rfl, Leaves.again _⟩

theorem bufferSizeStep_leaves (prompt : update.prompt = .bufferSize) :
    ∃ after, bufferSizeStep env tool update = .next after ∧ Leaves env tool update after := by
  have rest : update.prompt.rest env tool.stdin = (env.scanf tool.stdin).2 := by rw [prompt]; rfl
  unfold bufferSizeStep
  dsimp only
  rw [← rest]
  split
  · exact ⟨_, rfl, Leaves.again _⟩
  · rename_i positive
    refine ⟨_, rfl, Leaves.saved _ prompt ⟨rfl, fun held => ⟨held.1, held.2, ?_⟩⟩⟩
    dsimp only
    split
    · exact ⟨by decide, by decide⟩
    · rename_i small
      exact ⟨Int32.not_lt.mp positive, Int32.not_lt.mp small⟩

theorem toolStep_running (running : tool.update = some update) :
    toolStep env tool = updateStep env tool update := by
  rw [toolStep, running]

theorem updateStep_leaves :
    (∃ after, updateStep env tool update = .next after ∧ Leaves env tool update after) ∨
      ∃ rest, updateStep env tool update = .exit { tool with stdin := rest } := by
  unfold updateStep
  cases prompt : update.prompt with
  | name => exact Or.inl (nameStep_leaves env tool update prompt)
  | root => exact Or.inl (rootStep_leaves env tool update prompt)
  | port => exact portStep_leaves env tool update prompt
  | authentication => exact Or.inl (authenticationStep_leaves env tool update prompt)
  | encryption => exact Or.inl (encryptionStep_leaves env tool update prompt)
  | bufferSize => exact Or.inl (bufferSizeStep_leaves env tool update prompt)

theorem leaves_of_next {after : Tool} (running : tool.update = some update)
    (stepped : toolStep env tool = .next after) : Leaves env tool update after := by
  rw [toolStep_running env tool update running] at stepped
  rcases updateStep_leaves env tool update with ⟨next, goes, leaves⟩ | ⟨rest, exits⟩
  · rw [stepped] at goes
    cases goes
    exact leaves
  · rw [stepped] at exits
    cases exits

/-- At the end of the input a command changes nothing of what was read. -/
theorem commanded_eof (ended : tool.stdin = []) : tool.commanded = tool := by
  rw [Tool.commanded, Tool.command, ended, fgets_eof, ← ended]

theorem toolStep_idle (idle : tool.update = none) : toolStep env tool = commandStep env tool := by
  rw [toolStep, idle]

theorem commandStep_commands : Commands env tool (commandStep env tool) := by
  unfold commandStep
  dsimp only
  split
  · rename_i print
    cases loaded : load tool.file env.residue with
    | error fault => exact Commands.fault fault (Or.inl print) loaded
    | ok pData =>
        exact Commands.stays (strcmp_eq_false print (by decide)) (strcmp_eq_false print (by decide))
          fun _ => ⟨pData, loaded⟩
  · rename_i print
    split
    · rename_i updates
      cases loaded : load tool.file env.residue with
      | error fault => exact Commands.fault fault (Or.inr updates) loaded
      | ok pData => exact Commands.updates pData (strcmp_eq_false updates (by decide)) loaded
    · rename_i updates
      split
      · rename_i exits
        exact Commands.exits (Bool.eq_false_iff.mpr print) (Bool.eq_false_iff.mpr updates) exits
      · rename_i exits
        exact Commands.stays (Bool.eq_false_iff.mpr exits) (Bool.eq_false_iff.mpr updates)
          fun named => absurd named print

variable {tool}

theorem toolStep_commands (idle : tool.update = none) :
    Commands env tool (toolStep env tool) := by
  rw [toolStep_idle env tool idle]
  exact commandStep_commands env tool

variable {env}

/-- A call of `update` that begins stands at its first prompt. -/
theorem called_name {after : Tool} {called : Update} (idle : tool.update = none)
    (stepped : toolStep env tool = .next after) (running : after.update = some called) :
    called.prompt = .name := by
  have commands := toolStep_commands env idle
  rw [stepped] at commands
  cases commands with
  | updates pData noExit loads =>
      cases running
      rfl
  | stays noExit noUpdate loads =>
      rw [Tool.commanded, idle] at running
      cases running

/-- A command that loads the file faults exactly when the file does not load. -/
theorem toolStep_fault_iff (idle : tool.update = none)
    (named : strcmp tool.command (ascii "print\n") = true ∨
      strcmp tool.command (ascii "update\n") = true) :
    toolStep env tool ≠ .fault ↔ ∃ pData, load tool.file env.residue = .ok pData := by
  have commands := toolStep_commands env idle
  generalize toolStep env tool = outcome at commands ⊢
  cases commands with
  | fault fault _ failed => simp [failed]
  | exits noPrint noUpdate _ =>
      rw [noPrint, noUpdate] at named
      exact absurd named (by decide)
  | updates pData _ loads => exact iff_of_true (by simp) ⟨pData, loads⟩
  | stays _ noUpdate loads =>
      rw [noUpdate] at named
      exact iff_of_true (by simp) (loads (named.resolve_right (by decide)))

end Cases

end Scftp.ConfigurationTool

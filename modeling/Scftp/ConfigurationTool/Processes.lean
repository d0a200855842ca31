import Scftp.ConfigurationTool.Sessions
import Scftp.Lib.Interleaving

set_option autoImplicit false

/- Tools that share one configuration file. Reading it takes two calls of the
system and saving it takes two, and other tools may act between them. -/
namespace Scftp.ConfigurationTool

open CString Interleaving Machine Program Program.Prog Stdin

/-- What a tool does with its file: `JsonToScftpStruct` on `ReadToJson`, and
`JsonToFile`, which may find that it cannot open the file. -/
inductive FileCall where
  | load (residue : Bytes)
  | jsonToFile (pData : ScftpData) (fopen : Bool)
deriving DecidableEq

/-- The calls of the system behind them. `fputs` only fills a buffer, which
`fclose` writes out from the start of the file. -/
inductive SystemCall where
  /-- `fopen` with mode `r` and `ftell` at the end. -/
  | ftell
  | fread (size : Nat)
  /-- `fopen` with mode `w`, and whether it succeeds. -/
  | fopen (opens : Bool)
  | fclose (pData : ScftpData)
deriving DecidableEq

/-- What a call of the system hands over: the size `ftell` found, `none` when the
file did not open, and the bytes of `fread`. -/
structure Handed where
  size : Option Nat
  bytes : Bytes

/-- The file, and the configuration of the save that was finished last. The tools
do not see the second. -/
structure SharedFile where
  content : Option Bytes
  lastSaved : ScftpData

/-- The descriptor of a writer starts at the file's first byte, so what stands
behind the text stays. -/
def overwrite (text content : Bytes) : Bytes := text ++ content.drop text.length

def SystemCall.answer : SystemCall → SharedFile → Handed × SharedFile
  | .ftell, file => (⟨file.content.map List.length, []⟩, file)
  | .fread size, file => (⟨none, (file.content.getD []).take size⟩, file)
  | .fopen opens, file => (⟨none, []⟩, if opens then { file with content := some [] } else file)
  | .fclose pData, file =>
      (⟨none, []⟩, ⟨some (overwrite pData.saved (file.content.getD [])), pData⟩)

/-- The calls of the system a tool makes. `JsonToFile` returns nothing; the
configuration it was given stands for that. -/
def FileCall.body : FileCall → Prog SystemCall Handed (Except Fault ScftpData)
  | .load residue => do
      let opened ← perform .ftell
      match opened.size with
      | none => return ConfigurationTool.load none residue
      | some size =>
          let read ← perform (.fread size)
          return ConfigurationTool.load (some read.bytes) residue
  | .jsonToFile pData fopen => do
      let _ ← perform (.fopen fopen)
      if fopen then
        let _ ← perform (.fclose pData)
        return .ok pData
      else return .ok pData

/-- The calls on a file that nobody else touches. -/
def FileCall.answer : FileCall → Option Bytes → Except Fault ScftpData × Option Bytes
  | .load residue, file => (ConfigurationTool.load file residue, file)
  | .jsonToFile pData fopen, file => (.ok pData, if fopen then some pData.saved else file)

/-- What the tool holds besides the file. -/
structure Main where
  stdin : Bytes
  arrCCommand : Bytes
  update : Option Update
deriving DecidableEq

def Main.on (main : Main) (file : Option Bytes) : Tool :=
  ⟨main.stdin, main.arrCCommand, file, main.update⟩

def Tool.main (tool : Tool) : Main := ⟨tool.stdin, tool.arrCCommand, tool.update⟩

/-- One step of the tool as a program over its file. The prompts before the last
do not touch the file. -/
def mainStep (env : Env) (main : Main) :
    Prog FileCall (Except Fault ScftpData) (Outcome Main) :=
  match main.update with
  | none =>
      let read := fgets main.arrCCommand 64 main.stdin
      let main := { main with arrCCommand := read.1, stdin := read.2 }
      if strcmp main.arrCCommand (ascii "print\n") then do
        match ← perform (.load env.residue) with
        | .error _ => return .fault
        | .ok _ => return .next main
      else if strcmp main.arrCCommand (ascii "update\n") then do
        match ← perform (.load env.residue) with
        | .error _ => return .fault
        | .ok pData => return .next { main with update := some ⟨.name, 0, pData⟩ }
      else if strcmp main.arrCCommand (ascii "exit\n") then return .exit main
      else return .next main
  | some update =>
      match update.prompt with
      | .bufferSize =>
          let read := env.scanf main.stdin
          let iBuffer := read.1.getD 0
          if iBuffer < 1 then
            return .next { main with stdin := read.2, update := some { update with iBuffer } }
          else do
            let pData := { update.pData with bufferSize := if 512 < iBuffer then 512 else iBuffer }
            let _ ← perform (.jsonToFile pData env.fopen)
            return .next { main with stdin := read.2, update := none }
      | _ => return (updateStep env (main.on none) update).map Tool.main

def mainLoop (envs : Nat → Env) : Nat → Main →
    Prog FileCall (Except Fault ScftpData) (Outcome Main)
  | 0, main => .done (.next main)
  | count + 1, main => do
      match ← mainLoop envs count main with
      | .next main => mainStep (envs count) main
      | ended => return ended

/-- A tool as a client of its file. -/
def configTool (envs : Nat → Env) (count : Nat) (main : Main) :
    Prog FileCall (Except Fault ScftpData) Unit := do
  let _ ← mainLoop envs count main
  return ()

theorem overwrite_nil (text : Bytes) : overwrite text [] = text := by
  simp [overwrite]

/-- With nobody between its calls of the system, a call on the file is atomic. -/
theorem body_run (call : FileCall) (file : SharedFile) :
    (call.body.run SystemCall.answer file).1 = (call.answer file.content).1 ∧
      (call.body.run SystemCall.answer file).2.content = (call.answer file.content).2 := by
  cases call with
  | load residue =>
      simp only [FileCall.body, perform_bind, run_call, SystemCall.answer, FileCall.answer]
      cases held : file.content with
      | none => exact ⟨rfl, held⟩
      | some content => simp [held, SystemCall.answer]
  | jsonToFile pData fopen =>
      cases fopen with
      | true => simp [FileCall.body, SystemCall.answer, FileCall.answer, overwrite_nil]
      | false => simp [FileCall.body, SystemCall.answer, FileCall.answer]

theorem updateStep_file (env : Env) (main : Main) (file : Option Bytes) (update : Update)
    (early : update.prompt ≠ .bufferSize) :
    updateStep env (main.on file) update =
      (updateStep env (main.on none) update).map fun tool => tool.main.on file := by
  unfold updateStep
  cases prompt : update.prompt with
  | name =>
      simp only [nameStep, Main.on]
      by_cases short : strlen (fgets [] 64 main.stdin).1 ≤ 1
      · simp only [short, ↓reduceIte]
        rfl
      · simp only [short, ↓reduceIte]
        cases (strcpy (fgets [] 64 main.stdin).1 : Option (CharArray 64)) <;> rfl
  | root =>
      simp only [rootStep, Main.on]
      by_cases short : strlen (fgets [] 128 main.stdin).1 ≤ 1
      · simp only [short, ↓reduceIte]
        rfl
      · simp only [short, ↓reduceIte]
        cases cutLast (fgets [] 128 main.stdin).1 with
        | none => rfl
        | some path =>
            by_cases found : env.opendir path = true
            · simp only [found, ↓reduceIte]
              cases cutLast path with
              | none => rfl
              | some shorter =>
                  dsimp only
                  cases (strcpy shorter : Option (CharArray 128)) <;> rfl
            · simp only [found]
              rfl
  | port =>
      simp only [portStep, Main.on]
      by_cases zero : (env.scanf main.stdin).1.getD update.iBuffer = 0
      · simp only [zero, ↓reduceIte]
        rfl
      · simp only [zero, ↓reduceIte]
        cases env.isPortAvailable ((env.scanf main.stdin).1.getD update.iBuffer) with
        | none => rfl
        | some available => cases available <;> rfl
  | authentication => rfl
  | encryption =>
      simp only [encryptionStep, apply_ite (Outcome.map _)]
      rfl
  | bufferSize => exact absurd prompt early

/-- A prompt before the last is no program over the file at all. -/
theorem mainStep_early (env : Env) (main : Main) (update : Update)
    (running : main.update = some update) (early : update.prompt ≠ .bufferSize) :
    mainStep env main = .done ((updateStep env (main.on none) update).map Tool.main) := by
  unfold mainStep
  rw [running]
  cases prompt : update.prompt <;> first | exact absurd prompt early | simp only [prompt, pure_eq]

/-- On a file of its own, a step of the program is a step of the tool. -/
theorem mainStep_run (env : Env) (main : Main) (file : Option Bytes) :
    toolStep env (main.on file) =
      ((mainStep env main).run FileCall.answer file).1.map fun after =>
        after.on ((mainStep env main).run FileCall.answer file).2 := by
  cases running : main.update with
  | none =>
      simp only [toolStep, mainStep, Main.on, running, commandStep, perform_bind, pure_eq]
      split
      · simp only [run_call, FileCall.answer]
        cases ConfigurationTool.load file env.residue <;> simp [Outcome.map]
      · split
        · simp only [run_call, FileCall.answer]
          cases ConfigurationTool.load file env.residue <;> rfl
        · split <;> simp [Outcome.map]
  | some update =>
      by_cases last : update.prompt = .bufferSize
      · simp only [toolStep, mainStep, Main.on, running, last, updateStep, bufferSizeStep,
          perform_bind, pure_eq]
        split
        · rfl
        · simp only [run_call, run_done, FileCall.answer, Outcome.map]
      · rw [toolStep_running env (main.on file) update running,
          updateStep_file env main file update last, mainStep_early env main update running last]
        cases updateStep env (main.on none) update <;> rfl

theorem mainLoop_run (envs : Nat → Env) (main : Main) (file : Option Bytes) (count : Nat) :
    toolRun envs (main.on file) count =
      ((mainLoop envs count main).run FileCall.answer file).1.map fun after =>
        after.on ((mainLoop envs count main).run FileCall.answer file).2 := by
  induction count with
  | zero => rfl
  | succ count ih =>
      rw [mainLoop, run_bind]
      unfold toolRun at ih ⊢
      cases before : (mainLoop envs count main).run FileCall.answer file with
      | mk outcome left =>
          rw [before] at ih
          cases outcome with
          | next main => rw [run_succ_of_next ih, mainStep_run]
          | exit main => exact run_succ_of_exit ih
          | fault => exact run_succ_of_fault ih

theorem body_wp (call : FileCall) (file : SharedFile)
    (post : Except Fault ScftpData → SharedFile → Prop)
    (goesOn : ∀ after : SharedFile, after.content = (call.answer file.content).2 →
      post (call.answer file.content).1 after) :
    call.body.wp SystemCall.answer (fun _ _ => True) post file := by
  obtain ⟨returned, left⟩ := body_run call file
  refine (wp_iff _ _).mpr ⟨fun _ _ => trivial, ?_⟩
  rw [returned]
  exact goesOn _ left

/-- A tool that nobody interferes with does at the system, call by call, what its run
says: it comes as far, with the same file. -/
theorem tool_alone (envs : Nat → Env) (main : Main) (file : SharedFile) (count : Nat) :
    let low := ((mainLoop envs count main).expand FileCall.body).run SystemCall.answer file
    toolRun envs (main.on file.content) count = low.1.map fun after => after.on low.2.content := by
  have whole : ((mainLoop envs count main).expand FileCall.body).wp SystemCall.answer
      (fun _ _ => True) (fun outcome after =>
        outcome = ((mainLoop envs count main).run FileCall.answer file.content).1 ∧
          after.content = ((mainLoop envs count main).run FileCall.answer file.content).2)
      file := by
    refine expand_wp FileCall.answer (fun file content => file.content = content) (fun _ => True)
      ?_ (mainLoop envs count main) rfl (fun _ _ => trivial) _ fun after left => ⟨rfl, left⟩
    rintro call file _ _ rfl post goesOn
    exact body_wp call file post goesOn
  obtain ⟨_, same, content⟩ := (wp_iff _ _).mp whole
  dsimp only
  rw [mainLoop_run, same, content]

end Scftp.ConfigurationTool

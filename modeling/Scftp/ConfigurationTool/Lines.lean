import Scftp.ConfigurationTool.Rounds
import Scftp.Lib.LineReading

set_option autoImplicit false

/- The tool against a reader that takes its input strictly line by line. They part
where a line is longer than a read, where the line of a number holds anything else,
and at the end of the input. -/
namespace Scftp.ConfigurationTool

open CString Machine Stdin

/-- What the tool works on besides its input: the file and the call of `update`. -/
structure Reader where
  file : Option Bytes
  call : Option (Prompt × ScftpData)

def Tool.reader (tool : Tool) : Reader :=
  ⟨tool.file, tool.update.map fun update => (update.prompt, update.pData)⟩

/-- The tool with one line for all of its input. -/
def Reader.alone (reader : Reader) (raw : Bytes) : Tool where
  stdin := raw
  arrCCommand := []
  file := reader.file
  update := reader.call.map fun call => ⟨call.1, 0, call.2⟩

/-- The lines that are no longer than a read, or the line of a number. -/
def Reader.Takes (reader : Reader) (raw : Bytes) : Prop :=
  match reader.call.map Prod.fst with
  | none => raw.length ≤ 63
  | some .name => raw.length ≤ 63
  | some .root => raw.length ≤ 127
  | some _ => numberLine raw = true

/-- What a reader that goes line by line can have left unread at a moment of a run,
and where it stands then. A line answers one step, as if it were all of the input.
A line that is too long or not that of a number is refused as a whole. Inside a call of
`update` the reader waits for nothing but more input. -/
inductive Reads (envs : Nat → Env) (start : Tool) : Nat → Bytes → Reader → Prop where
  | start : Reads envs start 0 start.stdin start.reader
  | waits {moment : Nat} {rest : Bytes} {reader : Reader}
      (reads : Reads envs start moment rest reader) (unasked : rest = [] ∨ reader.call = none) :
      Reads envs start (moment + 1) rest reader
  | refuses {moment : Nat} {raw rest : Bytes} {reader : Reader}
      (reads : Reads envs start moment (raw ++ rest) reader) (line : IsLine raw rest)
      (untaken : ¬ reader.Takes raw) : Reads envs start moment rest reader
  | takes {moment : Nat} {raw rest : Bytes} {reader after : Reader}
      (reads : Reads envs start moment (raw ++ rest) reader) (line : IsLine raw rest)
      (taken : reader.Takes raw)
      (stepped : (toolStep (envs moment) (reader.alone raw)).map Tool.reader = .next after) :
      Reads envs start (moment + 1) rest after

/-- The names `main` compares its buffer with. -/
def commandNames : List Bytes :=
  [ascii "print", ascii "update", ascii "exit", ascii "clear", ascii "help"]

def NoCommand (read : Bytes) : Prop :=
  ∀ name ∈ commandNames, strcmp read (name ++ [newline]) = false

instance (read : Bytes) : Decidable (NoCommand read) :=
  inferInstanceAs (Decidable (∀ name ∈ commandNames, strcmp read (name ++ [newline]) = false))

def Prompt.numeric : Prompt → Bool
  | .name => false
  | .root => false
  | _ => true

/-- The tool stands where the reader stands. Of the line the reader had last it may
have left an end unread, which is no command, and white space before a number. -/
structure Aligned (tool : Tool) (rest tail : Bytes) : Prop where
  unread : tool.stdin = tail ++ rest
  spent : tail ≠ [] → IsLine tail rest
  quiet : tail ≠ [] → tool.update = none → NoCommand (tail.take 63)
  white : ∀ update, tool.update = some update → blank tail = true
  whole : ∀ update, tool.update = some update → update.prompt.numeric = false → tail = []

/-- The tool goes line by line: it stands where the reader stands, and what it takes
for a command is the reader's next line and nothing but a command's name. -/
def LineByLine (envs : Nat → Env) (start : Tool) (moment : Nat) (tool : Tool) : Prop :=
  ∃ rest tail, Reads envs start moment rest tool.reader ∧ Aligned tool rest tail ∧
    (tool.update = none → ∀ name ∈ commandNames,
      strcmp tool.command (name ++ [newline]) = true →
        tail = [] ∧ ∃ after, rest = name ++ newline :: after)

/-- The next read keeps to lines. A name or a root is a line that fits its read, and
the answer to any other prompt a number with only white space around it. The port
and the buffer size may find the input at its end, if no port is left to be taken.
What is left of a command line too long for its read is no command, and at the end of
the input none is in the buffer. -/
def LineWise (env : Env) (tool : Tool) : Prop :=
  match tool.update with
  | none =>
      (tool.stdin = [] → NoCommand tool.arrCCommand) ∧
        (newline ∉ (takeLine 63 tool.stdin).1 →
          NoCommand (takeLine 63 (takeLine 63 tool.stdin).2).1)
  | some update =>
      match update.prompt with
      | .name => Fits 63 tool.stdin
      | .root => Fits 127 tool.stdin
      | .port => numberLine tool.stdin = true ∨ blank tool.stdin = true ∧
          (update.iBuffer = 0 ∨ env.isPortAvailable update.iBuffer ≠ some true)
      | .authentication => numberLine tool.stdin = true
      | .encryption => numberLine tool.stdin = true
      | .bufferSize => numberLine tool.stdin = true ∨ blank tool.stdin = true

/- What a step reads decides what it does. -/
section Alone

variable (env : Env) {tool : Tool} {update : Update} {raw rest left : Bytes}

theorem alone_idle (idle : tool.update = none) (raw : Bytes) :
    tool.reader.alone raw = ⟨raw, [], tool.file, none⟩ := by
  simp only [Reader.alone, Tool.reader, idle, Option.map_none]

theorem alone_running (running : tool.update = some update) (raw : Bytes) :
    tool.reader.alone raw = ⟨raw, [], tool.file, some ⟨update.prompt, 0, update.pData⟩⟩ := by
  simp only [Reader.alone, Tool.reader, running, Option.map_some]

/-- A loop that goes round again leaves the file and the call as they are. -/
@[simp] theorem again_reader (tool : Tool) (update : Update) (rest : Bytes) :
    (tool.again update rest).map Tool.reader =
      .next ⟨tool.file, some (update.prompt, update.pData)⟩ := rfl

theorem reader_running (running : tool.update = some update) :
    tool.reader = ⟨tool.file, some (update.prompt, update.pData)⟩ := by
  rw [Tool.reader, running, Option.map_some]

theorem commandStep_alone (idle : tool.update = none)
    (read : fgets tool.arrCCommand 64 tool.stdin = (raw, rest))
    (alone : fgets [] 64 raw = (raw, left)) :
    (toolStep env tool).map Tool.reader =
      (toolStep env (tool.reader.alone raw)).map Tool.reader := by
  rw [alone_idle idle, toolStep_idle env tool idle, toolStep_idle env _ rfl]
  simp only [commandStep, read, alone]
  by_cases print : strcmp raw (ascii "print\n") = true
  · simp only [if_pos print]
    cases load tool.file env.residue with
    | error fault => rfl
    | ok pData => simp [Outcome.map, Tool.reader, idle]
  · simp only [if_neg print]
    by_cases updates : strcmp raw (ascii "update\n") = true
    · simp only [if_pos updates]
      cases load tool.file env.residue with
      | error fault => rfl
      | ok pData => simp [Outcome.map, Tool.reader]
    · simp only [if_neg updates]
      by_cases exits : strcmp raw (ascii "exit\n") = true
      · simp [exits, Outcome.map, Tool.reader, idle]
      · simp [exits, Outcome.map, Tool.reader, idle]

theorem nameStep_alone (running : tool.update = some update) (prompt : update.prompt = .name)
    (read : fgets [] 64 tool.stdin = (raw, rest)) (alone : fgets [] 64 raw = (raw, left)) :
    (toolStep env tool).map Tool.reader =
      (toolStep env (tool.reader.alone raw)).map Tool.reader := by
  rw [alone_running running, toolStep_running env tool update running,
    toolStep_running env _ _ rfl]
  simp only [updateStep, prompt, nameStep, read, alone]
  by_cases short : strlen raw ≤ 1
  · simp only [if_pos short, again_reader, prompt]
  · simp only [if_neg short]
    cases (strcpy raw : Option (CharArray 64)) with
    | none => rfl
    | some name => rfl

theorem rootStep_alone (running : tool.update = some update) (prompt : update.prompt = .root)
    (read : fgets [] 128 tool.stdin = (raw, rest)) (alone : fgets [] 128 raw = (raw, left)) :
    (toolStep env tool).map Tool.reader =
      (toolStep env (tool.reader.alone raw)).map Tool.reader := by
  rw [alone_running running, toolStep_running env tool update running,
    toolStep_running env _ _ rfl]
  simp only [updateStep, prompt, rootStep, read, alone]
  by_cases short : strlen raw ≤ 1
  · simp only [if_pos short, again_reader, prompt]
  · simp only [if_neg short]
    cases cutLast raw with
    | none => rfl
    | some path =>
        by_cases opens : env.opendir path = true
        · simp only [if_pos opens]
          cases cutLast path with
          | none => rfl
          | some shorter =>
              simp only
              cases (strcpy shorter : Option (CharArray 128)) with
              | none => rfl
              | some root => rfl
        · simp only [if_neg opens, again_reader, prompt]

/-- Where `scanf` stores a number, it alone counts. -/
theorem numericStep_alone {value : Int32} (running : tool.update = some update)
    (numeric : update.prompt.numeric = true) (read : env.scanf tool.stdin = (some value, rest))
    (alone : env.scanf raw = (some value, left)) :
    (toolStep env tool).map Tool.reader =
      (toolStep env (tool.reader.alone raw)).map Tool.reader := by
  rw [alone_running running, toolStep_running env tool update running,
    toolStep_running env _ _ rfl]
  cases prompt : update.prompt with
  | name =>
      rw [prompt] at numeric
      cases numeric
  | root =>
      rw [prompt] at numeric
      cases numeric
  | port =>
      simp only [updateStep, prompt, portStep, read, alone, Option.getD_some]
      by_cases zero : value = 0
      · simp only [if_pos zero, again_reader]
      · simp only [if_neg zero]
        cases env.isPortAvailable value with
        | none => simp only [Outcome.map, Tool.reader, running, Option.map_some, prompt]
        | some bound =>
            cases bound with
            | false => simp only [again_reader]
            | true => rfl
  | authentication =>
      simp only [updateStep, prompt, authenticationStep, read, alone, Option.getD_some]
      rfl
  | encryption =>
      simp only [updateStep, prompt, encryptionStep, read, alone, Option.getD_some]
      by_cases level : value = 0 ∨ value = 1 ∨ value = 2 ∨ value = 3
      · simp only [if_pos level]
        rfl
      · simp only [if_neg level, again_reader]
  | bufferSize =>
      simp only [updateStep, prompt, bufferSizeStep, read, alone, Option.getD_some]
      by_cases small : value < 1
      · simp only [if_pos small, again_reader]
      · simp only [if_neg small]
        rfl

end Alone

/- What a step leaves unread. -/
section Unread

variable {env : Env} {tool after : Tool} {update : Update}

theorem map_next (stepped : toolStep env tool = .next after) :
    (toolStep env tool).map Tool.reader = .next after.reader := by
  rw [stepped]
  rfl

theorem commandStep_stdin (idle : tool.update = none) (stepped : toolStep env tool = .next after) :
    after.stdin = (fgets tool.arrCCommand 64 tool.stdin).2 := by
  have commands := toolStep_commands env idle
  rw [stepped] at commands
  cases commands <;> rfl

theorem updateStep_stdin (running : tool.update = some update)
    (stepped : toolStep env tool = .next after) :
    after.stdin = update.prompt.rest env tool.stdin ∧
      (update.prompt.numeric = true →
        ∀ later, after.update = some later → later.prompt.numeric = true) := by
  have leaves := leaves_of_next env tool update running stepped
  refine ⟨leaves.stdin_eq, ?_⟩
  intro numeric later follower
  cases leaves with
  | again iBuffer =>
      cases follower
      exact numeric
  | passed iBuffer prompt pData follows revises =>
      cases follower
      revert numeric follows
      generalize update.prompt = current
      cases current <;> rintro numeric follows <;> cases numeric <;> cases follows <;> rfl
  | saved pData last revises => cases follower

theorem toolStep_noCommand (env : Env) (idle : tool.update = none) (none : NoCommand tool.command) :
    toolStep env tool = .next tool.commanded := by
  have print := none (ascii "print") (by decide)
  have updates := none (ascii "update") (by decide)
  have exits := none (ascii "exit") (by decide)
  have named : ascii "print" ++ [newline] = ascii "print\n" ∧
      ascii "update" ++ [newline] = ascii "update\n" ∧
      ascii "exit" ++ [newline] = ascii "exit\n" := by decide
  rw [named.1] at print
  rw [named.2.1] at updates
  rw [named.2.2] at exits
  rw [Tool.command] at print updates exits
  simp only [toolStep_idle env tool idle, commandStep, print, updates, exits, Bool.false_eq_true,
    ↓reduceIte]
  rfl

end Unread

theorem noCommand_fragment {read : Bytes} (fragment : newline ∉ read) : NoCommand read := by
  intro name member
  apply strcmp_fragment fragment
  revert name
  decide

theorem noCommand_blank {read : Bytes} (white : blank read = true) : NoCommand read := by
  intro name member
  rw [← Bool.not_eq_true, strcmp_iff]
  intro same
  have dark : ∀ name ∈ commandNames, ∃ byte ∈ cstr (name ++ [newline]), isSpace byte = false := by
    decide
  obtain ⟨byte, within, other⟩ := dark name member
  rw [← same] at within
  have space := List.all_eq_true.mp white byte ((List.takeWhile_prefix _).subset within)
  rw [other] at space
  cases space

section Kept

variable {envs : Nat → Env} {start tool after : Tool} {moment : Nat} {raw rest tail : Bytes}

/-- The reader refuses blank lines up to the next line that is not blank. -/
theorem past_blank {reader : Reader} (reads : Reads envs start moment rest reader)
    (refused : ∀ raw, blank raw = true → ¬ reader.Takes raw) :
    ∃ gap more, rest = gap ++ more ∧ blank gap = true ∧ Reads envs start moment more reader ∧
      (more = [] ∨ ∃ raw left, more = raw ++ left ∧ IsLine raw left ∧ blank raw = false) := by
  induction remaining : rest.length using Nat.strongRecOn generalizing rest with
  | _ total ih =>
      by_cases ended : rest = []
      · exact ⟨[], rest, rfl, rfl, reads, Or.inl ended⟩
      · obtain ⟨raw, left, rfl, line⟩ := exists_line ended
        by_cases white : blank raw = true
        · have shorter : left.length < total := by
            have more := List.length_pos_iff.mpr line.ne_nil
            rw [List.length_append] at remaining
            omega
          obtain ⟨gap, more, rfl, blanks, further, next⟩ :=
            ih left.length shorter (reads.refuses line (refused raw white)) rfl
          refine ⟨raw ++ gap, more, (List.append_assoc raw gap more).symm, ?_, further, next⟩
          rw [blank, List.all_append, Bool.and_eq_true]
          exact ⟨white, blanks⟩
        · rw [Bool.not_eq_true] at white
          exact ⟨[], raw ++ left, rfl, rfl, reads, Or.inr ⟨raw, left, rfl, line, white⟩⟩

theorem takes_line (reads : Reads envs start moment (raw ++ rest) tool.reader)
    (line : IsLine raw rest) (taken : tool.reader.Takes raw)
    (same : (toolStep (envs moment) tool).map Tool.reader =
      (toolStep (envs moment) (tool.reader.alone raw)).map Tool.reader)
    (stepped : toolStep (envs moment) tool = .next after) :
    Reads envs start (moment + 1) rest after.reader := by
  apply reads.takes line taken
  rw [← same, map_next stepped]

/-- A tool that has left nothing of a line unread is aligned. -/
theorem aligned_whole (unread : tool.stdin = rest) : Aligned tool rest [] where
  unread := unread
  spent more := absurd rfl more
  quiet more := absurd rfl more
  white _ _ := rfl
  whole _ _ _ := rfl

/-- So is one that has left white space behind a number. -/
theorem aligned_white (unread : tool.stdin = tail ++ rest) (left : LineEnd tail rest)
    (white : blank tail = true)
    (numeric : ∀ update, tool.update = some update → update.prompt.numeric = true) :
    Aligned tool rest tail where
  unread := unread
  spent := left.line
  quiet _ _ := by
    apply noCommand_blank
    rw [blank, List.all_eq_true] at white ⊢
    exact fun byte member => white byte (List.mem_of_mem_take member)
  white _ _ := white
  whole update running other := by
    rw [numeric update running] at other
    cases other

/-- So is one that has left the end of a command line, if that is no command. -/
theorem aligned_idle (unread : tool.stdin = tail ++ rest) (spent : tail ≠ [] → IsLine tail rest)
    (idle : tool.update = none) (quiet : tail ≠ [] → NoCommand (tail.take 63)) :
    Aligned tool rest tail where
  unread := unread
  spent := spent
  quiet more _ := quiet more
  white update running := by
    rw [idle] at running
    cases running
  whole update running := by
    rw [idle] at running
    cases running

/-- The tool keeps up with the reader. -/
def InStep (envs : Nat → Env) (start : Tool) (moment : Nat) (tool : Tool) : Prop :=
  ∃ rest tail, Reads envs start moment rest tool.reader ∧ Aligned tool rest tail

/-- What a read leaves of a line too long for it is passed over, too. -/
theorem fragment_passed (idle : tool.update = none) (unread : tool.stdin = raw ++ rest)
    (line : IsLine raw rest) (quiet : NoCommand (raw.take 63))
    (lineWise : LineWise (envs moment) tool)
    (reads : Reads envs start moment rest tool.reader)
    (stepped : toolStep (envs moment) tool = .next after) :
    InStep envs start (moment + 1) after := by
  have uncalled : tool.reader.call = none := by rw [Tool.reader, idle, Option.map_none]
  have read : fgets tool.arrCCommand 64 tool.stdin = (raw.take 63, raw.drop 63 ++ rest) := by
    rw [unread, line.fgets_eq]
  have command : tool.command = raw.take 63 := by rw [Tool.command, read]
  rw [← command] at quiet
  have passed := toolStep_noCommand (envs moment) idle quiet
  rw [stepped] at passed
  cases passed
  refine ⟨rest, raw.drop 63, reads.waits (Or.inr uncalled), aligned_idle ?_ ?_ idle ?_⟩
  · rw [Tool.commanded, read]
  · rw [← List.take_append_drop 63 raw] at line
    exact line.suffix
  · intro more
    simp only [LineWise, idle] at lineWise
    have long : 63 < raw.length := by
      rw [ne_eq, List.drop_eq_nil_iff] at more
      omega
    have next := lineWise.2
    rw [unread, line.takeLine_eq] at next
    have left : IsLine (raw.drop 63) rest := by
      rw [← List.take_append_drop 63 raw] at line
      exact line.suffix more
    rw [left.takeLine_eq] at next
    exact next (line.newline_notMem_take long)

theorem takes_idle (idle : tool.update = none) (raw : Bytes) :
    tool.reader.Takes raw ↔ raw.length ≤ 63 := by
  simp only [Reader.Takes, Tool.reader, idle, Option.map_none]

theorem takes_name {update : Update} (running : tool.update = some update)
    (prompt : update.prompt = .name) (raw : Bytes) : tool.reader.Takes raw ↔ raw.length ≤ 63 := by
  simp only [Reader.Takes, Tool.reader, running, Option.map_some, prompt]

theorem takes_root {update : Update} (running : tool.update = some update)
    (prompt : update.prompt = .root) (raw : Bytes) : tool.reader.Takes raw ↔ raw.length ≤ 127 := by
  simp only [Reader.Takes, Tool.reader, running, Option.map_some, prompt]

theorem takes_numeric {update : Update} (running : tool.update = some update)
    (numeric : update.prompt.numeric = true) (raw : Bytes) :
    tool.reader.Takes raw ↔ numberLine raw = true := by
  simp only [Reader.Takes, Tool.reader, running, Option.map_some]
  cases prompt : update.prompt with
  | name =>
      rw [prompt] at numeric
      cases numeric
  | root =>
      rw [prompt] at numeric
      cases numeric
  | _ => exact Iff.rfl

theorem command_inStep (idle : tool.update = none) (lineWise : LineWise (envs moment) tool)
    (reads : Reads envs start moment rest tool.reader) (aligned : Aligned tool rest tail)
    (stepped : toolStep (envs moment) tool = .next after) :
    InStep envs start (moment + 1) after := by
  by_cases more : tail = []
  · subst more
    have unread : tool.stdin = rest := aligned.unread
    by_cases ended : rest = []
    · subst ended
      simp only [LineWise, idle] at lineWise
      have quiet : NoCommand tool.command := by
        rw [Tool.command, unread, fgets_eof]
        exact lineWise.1 unread
      have passed := toolStep_noCommand (envs moment) idle quiet
      rw [stepped, commanded_eof tool unread] at passed
      cases passed
      exact ⟨[], [], reads.waits (Or.inl rfl), aligned_whole unread⟩
    · obtain ⟨raw, left, rfl, line⟩ := exists_line ended
      by_cases fits : raw.length ≤ 63
      · have read : fgets tool.arrCCommand 64 tool.stdin = (raw, left) := by
          rw [unread, line.fgets_whole _ fits]
        have taken := (takes_idle idle raw).mpr fits
        have same := commandStep_alone (envs moment) idle read (line.fgets_alone fits)
        have behind := commandStep_stdin idle stepped
        rw [read] at behind
        exact ⟨left, [], takes_line reads line taken same stepped, aligned_whole behind⟩
      · have refused := mt (takes_idle idle raw).mp fits
        have quiet := noCommand_fragment (line.newline_notMem_take (by omega : 63 < raw.length))
        exact fragment_passed idle unread line quiet lineWise (reads.refuses line refused) stepped
  · exact fragment_passed idle aligned.unread (aligned.spent more) (aligned.quiet more idle)
      lineWise reads stepped

theorem line_inStep (size : Nat) {update : Update} (running : tool.update = some update)
    (behind : update.prompt.rest (envs moment) tool.stdin = (fgets [] size tool.stdin).2)
    (takes : ∀ raw, tool.reader.Takes raw ↔ raw.length ≤ size - 1)
    (alone : ∀ raw rest, fgets [] size tool.stdin = (raw, rest) → fgets [] size raw = (raw, []) →
      (toolStep (envs moment) tool).map Tool.reader =
        (toolStep (envs moment) (tool.reader.alone raw)).map Tool.reader)
    (starved : tool.stdin = [] → (toolStep (envs moment) tool).map Tool.reader = .next tool.reader)
    (fits : Fits (size - 1) tool.stdin) (reads : Reads envs start moment tool.stdin tool.reader)
    (stepped : toolStep (envs moment) tool = .next after) :
    InStep envs start (moment + 1) after := by
  obtain ⟨unread, _⟩ := updateStep_stdin running stepped
  rw [behind] at unread
  by_cases ended : tool.stdin = []
  · have same := starved ended
    rw [map_next stepped, Outcome.next.injEq] at same
    rw [ended, fgets_eof] at unread
    rw [ended, ← same] at reads
    exact ⟨[], [], reads.waits (Or.inl rfl), aligned_whole unread⟩
  · obtain ⟨raw, left, whole, line⟩ := exists_line ended
    rw [whole] at fits reads
    have short := line.length_le fits
    have read : fgets [] size tool.stdin = (raw, left) := by
      rw [whole, line.fgets_whole [] short]
    rw [read] at unread
    have same := alone raw left read (line.fgets_alone short)
    exact ⟨left, [], takes_line reads line ((takes raw).mpr short) same stepped,
      aligned_whole unread⟩

theorem name_inStep {update : Update} (running : tool.update = some update)
    (prompt : update.prompt = .name) (fits : Fits 63 tool.stdin)
    (reads : Reads envs start moment tool.stdin tool.reader)
    (stepped : toolStep (envs moment) tool = .next after) :
    InStep envs start (moment + 1) after := by
  apply line_inStep 64 running _ (takes_name running prompt) _ _ fits reads stepped
  · rw [prompt]
    rfl
  · exact fun _ _ => nameStep_alone (envs moment) running prompt
  · intro ended
    rw [toolStep_running _ tool update running]
    simp only [updateStep, prompt, nameStep, ended, fgets_eof]
    exact (again_reader ..).trans (by rw [reader_running running])

theorem root_inStep {update : Update} (running : tool.update = some update)
    (prompt : update.prompt = .root) (fits : Fits 127 tool.stdin)
    (reads : Reads envs start moment tool.stdin tool.reader)
    (stepped : toolStep (envs moment) tool = .next after) :
    InStep envs start (moment + 1) after := by
  apply line_inStep 128 running _ (takes_root running prompt) _ _ fits reads stepped
  · rw [prompt]
    rfl
  · exact fun _ _ => rootStep_alone (envs moment) running prompt
  · intro ended
    rw [toolStep_running _ tool update running]
    simp only [updateStep, prompt, rootStep, ended, fgets_eof]
    exact (again_reader ..).trans (by rw [reader_running running])

theorem numeric_rest {prompt : Prompt} (numeric : prompt.numeric = true) (env : Env)
    (stdin : Bytes) : prompt.rest env stdin = (env.scanf stdin).2 := by
  cases prompt <;> first | rfl | cases numeric

theorem blank_untaken {update : Update} (running : tool.update = some update)
    (numeric : update.prompt.numeric = true) (raw : Bytes) (white : blank raw = true) :
    ¬ tool.reader.Takes raw := by
  rw [takes_numeric running numeric, (blank_number white Int32.ofInt).1]
  exact Bool.false_ne_true

theorem number_inStep {store : Int → Int32} {update : Update} (running : tool.update = some update)
    (numeric : update.prompt.numeric = true)
    (scanf : (envs moment).scanf = scanfInt store) (number : numberLine tool.stdin = true)
    (reads : Reads envs start moment rest tool.reader) (aligned : Aligned tool rest tail)
    (stepped : toolStep (envs moment) tool = .next after) :
    InStep envs start (moment + 1) after := by
  have white := aligned.white update running
  rw [aligned.unread, numberLine_blank white] at number
  obtain ⟨gap, more, rfl, spaces, further, next⟩ :=
    past_blank reads (blank_untaken running numeric)
  rw [numberLine_blank spaces] at number
  rcases next with rfl | ⟨raw, left, rfl, line, dark⟩
  · cases number
  · rw [line.numberLine_eq dark] at number
    obtain ⟨value, behind, alone, whole, blanks, ended⟩ := line.scanfInt_number number store
    have read : (envs moment).scanf tool.stdin = (some value, behind ++ left) := by
      rw [aligned.unread, scanf, scanfInt_blank store white, scanfInt_blank store spaces, whole]
    rw [← scanf] at alone
    have taken := (takes_numeric running numeric raw).mpr number
    have same := numericStep_alone (envs moment) running numeric read alone
    obtain ⟨unread, onward⟩ := updateStep_stdin running stepped
    rw [numeric_rest numeric, read] at unread
    exact ⟨left, behind, takes_line further line taken same stepped,
      aligned_white unread ended blanks (onward numeric)⟩

/-- A step at the end of the input that is asked again. -/
theorem blank_inStep {store : Int → Int32} {update : Update} (running : tool.update = some update)
    (numeric : update.prompt.numeric = true)
    (scanf : (envs moment).scanf = scanfInt store) (white : blank tool.stdin = true)
    (again : (toolStep (envs moment) tool).map Tool.reader = .next tool.reader)
    (reads : Reads envs start moment rest tool.reader) (aligned : Aligned tool rest tail)
    (stepped : toolStep (envs moment) tool = .next after) :
    InStep envs start (moment + 1) after := by
  obtain ⟨gap, more, rfl, spaces, further, next⟩ :=
    past_blank reads (blank_untaken running numeric)
  have nothing : more = [] := by
    rcases next with none | ⟨raw, left, rfl, line, dark⟩
    · exact none
    · rw [aligned.unread] at white
      simp only [blank, List.all_append, Bool.and_eq_true] at white dark
      rw [white.2.2.1] at dark
      cases dark
  subst nothing
  rw [map_next stepped, Outcome.next.injEq] at again
  rw [← again] at further
  obtain ⟨unread, _⟩ := updateStep_stdin running stepped
  rw [numeric_rest numeric, scanf, (blank_number white store).2] at unread
  exact ⟨[], [], further.waits (Or.inl rfl), aligned_whole unread⟩

/-- A step of the port's loop that reads no number asks again. -/
theorem port_again {update : Update} (running : tool.update = some update)
    (prompt : update.prompt = .port) (env : Env) (none : (env.scanf tool.stdin).1 = none)
    (refused : update.iBuffer = 0 ∨ env.isPortAvailable update.iBuffer ≠ some true)
    (stepped : toolStep env tool = .next after) :
    (toolStep env tool).map Tool.reader = .next tool.reader := by
  rw [toolStep_running env tool update running] at stepped ⊢
  simp only [updateStep, prompt, portStep, none, Option.getD_none] at stepped ⊢
  by_cases zero : update.iBuffer = 0
  · rw [if_pos zero, again_reader, reader_running running, prompt]
  · simp only [if_neg zero] at stepped ⊢
    cases available : env.isPortAvailable update.iBuffer with
    | none =>
        rw [available] at stepped
        cases stepped
    | some bound =>
        cases bound with
        | false => exact (again_reader ..).trans (by rw [reader_running running, prompt])
        | true => exact absurd available (refused.resolve_left zero)

theorem bufferSize_again {update : Update} (running : tool.update = some update)
    (prompt : update.prompt = .bufferSize) (env : Env) (none : (env.scanf tool.stdin).1 = none) :
    (toolStep env tool).map Tool.reader = .next tool.reader := by
  rw [toolStep_running env tool update running]
  simp only [updateStep, prompt, bufferSizeStep, none, Option.getD_none]
  exact (again_reader ..).trans (by rw [reader_running running, prompt])

/-- A step that keeps to lines keeps the tool and the reader in step. -/
theorem inStep_next {store : Int → Int32} (scanf : (envs moment).scanf = scanfInt store)
    (lineWise : LineWise (envs moment) tool) (held : InStep envs start moment tool)
    (stepped : toolStep (envs moment) tool = .next after) :
    InStep envs start (moment + 1) after := by
  obtain ⟨rest, tail, reads, aligned⟩ := held
  cases running : tool.update with
  | none => exact command_inStep running lineWise reads aligned stepped
  | some update =>
      have numbers (numeric : update.prompt.numeric = true)
          (number : numberLine tool.stdin = true) : InStep envs start (moment + 1) after :=
        number_inStep running numeric scanf number reads aligned stepped
      have whole (other : update.prompt.numeric = false) :
          Reads envs start moment tool.stdin tool.reader := by
        rw [aligned.unread, aligned.whole update running other]
        exact reads
      have missing (white : blank tool.stdin = true) :
          ((envs moment).scanf tool.stdin).1 = none := by
        rw [scanf, (blank_number white store).2]
      simp only [LineWise, running] at lineWise
      cases prompt : update.prompt with
      | name =>
          rw [prompt] at lineWise
          exact name_inStep running prompt lineWise (whole (by rw [prompt]; rfl)) stepped
      | root =>
          rw [prompt] at lineWise
          exact root_inStep running prompt lineWise (whole (by rw [prompt]; rfl)) stepped
      | port =>
          have numeric : update.prompt.numeric = true := by rw [prompt]; rfl
          rw [prompt] at lineWise
          rcases lineWise with number | ⟨white, refused⟩
          · exact numbers numeric number
          · have again := port_again running prompt (envs moment) (missing white) refused stepped
            exact blank_inStep running numeric scanf white again reads aligned stepped
      | authentication =>
          rw [prompt] at lineWise
          exact numbers (by rw [prompt]; rfl) lineWise
      | encryption =>
          rw [prompt] at lineWise
          exact numbers (by rw [prompt]; rfl) lineWise
      | bufferSize =>
          have numeric : update.prompt.numeric = true := by rw [prompt]; rfl
          rw [prompt] at lineWise
          rcases lineWise with number | white
          · exact numbers numeric number
          · have again := bufferSize_again running prompt (envs moment) (missing white)
            exact blank_inStep running numeric scanf white again reads aligned stepped

/-- What is taken for a command is a line, with nothing of an earlier line before it. -/
theorem command_whole (env : Env) (idle : tool.update = none) (lineWise : LineWise env tool)
    (aligned : Aligned tool rest tail) (name : Bytes) (member : name ∈ commandNames)
    (taken : strcmp tool.command (name ++ [newline]) = true) :
    tail = [] ∧ ∃ after, rest = name ++ newline :: after := by
  simp only [LineWise, idle] at lineWise
  have unread : tool.stdin ≠ [] := by
    intro ended
    have quiet := lineWise.1 ended name member
    rw [Tool.command, ended, fgets_eof] at taken
    rw [taken] at quiet
    cases quiet
  have read : tool.command = (takeLine 63 tool.stdin).1 := by
    rw [Tool.command, fgets_of_ne_nil _ _ unread]
  have first : tail = [] := by
    by_contra more
    have line := aligned.spent more
    have quiet := aligned.quiet more idle name member
    rw [read, aligned.unread, line.takeLine_eq] at taken
    rw [taken] at quiet
    cases quiet
  have names : ∀ name ∈ commandNames, (0 : UInt8) ∉ name := by decide
  have ended : newline ∈ (takeLine 63 tool.stdin).1 := by
    by_contra fragment
    rw [read, strcmp_fragment fragment name (names name member)] at taken
    cases taken
  obtain ⟨line, whole, single, stream⟩ := takeLine_whole ended
  rw [read, whole, strcmp_line line name single (names name member)] at taken
  have front : tool.stdin = rest := by rw [aligned.unread, first, List.nil_append]
  rw [front, taken] at stream
  exact ⟨first, (takeLine 63 rest).2, stream⟩

end Kept

/-- Where every read keeps to lines, the tool goes line by line. -/
theorem goes_line_by_line (store : Int → Int32) (envs : Nat → Env) (start : Tool)
    (lineWise : AllSteps (fun moment => toolStep ((envs moment).standard store)) start
      fun moment => LineWise ((envs moment).standard store)) :
    AllSteps (fun moment => toolStep ((envs moment).standard store)) start
      (LineByLine (fun moment => (envs moment).standard store) start) := by
  have inStep := run_invariant
    (InStep (fun moment => (envs moment).standard store) start)
    ⟨start.stdin, [], Reads.start, aligned_whole rfl⟩
    fun moment before after reached held stepped =>
      inStep_next (standard_scanf store (envs moment)) (lineWise moment before reached) held stepped
  intro moment tool reached
  obtain ⟨rest, tail, reads, aligned⟩ := inStep moment tool reached
  refine ⟨rest, tail, reads, aligned, ?_⟩
  intro idle name member taken
  exact command_whole _ idle (lineWise moment tool reached) aligned name member taken

theorem answering_line_by_line :
    AllSteps (fun _ => toolStep (willing.standard Int32.ofInt)) answering
      (LineByLine (fun _ => willing.standard Int32.ofInt) answering) := by
  apply goes_line_by_line Int32.ofInt (fun _ => willing) answering
  have accepts : Accepts (willing.standard Int32.ofInt) := ⟨rfl, rfl, rfl, rfl, rfl, rfl⟩
  have reached := (answering_written accepts).1
  have stays : ∀ more, run (fun _ => toolStep (willing.standard Int32.ofInt)) answering (8 + more) =
      .next { answeringTools 7 with stdin := [], arrCCommand := ascii "\n" } := by
    intro more
    induction more with
    | zero => exact run_succ_of_next (reached 7 (by decide))
    | succ more ih => exact run_succ_of_next ih
  have lineWise : ∀ count ≤ 7, LineWise (willing.standard Int32.ofInt) (answeringTools count) := by
    intro count within
    match count with
    | 0 => exact ⟨by decide, by decide⟩
    | 1 => exact (by decide : Fits 63 (answeringTools 1).stdin)
    | 2 => exact (by decide : Fits 127 (answeringTools 2).stdin)
    | 3 => exact Or.inl (by decide)
    | 4 => exact (by decide : numberLine (answeringTools 4).stdin = true)
    | 5 => exact (by decide : numberLine (answeringTools 5).stdin = true)
    | 6 => exact Or.inl (by decide)
    | 7 => exact ⟨by decide, by decide⟩
  intro count tool here
  by_cases within : count ≤ 7
  · have same := (reached count within).symm.trans here
    rw [Outcome.next.injEq] at same
    rw [← same]
    exact lineWise count within
  · obtain ⟨more, rfl⟩ := Nat.exists_eq_add_of_le (Nat.lt_of_not_le within)
    have same := (stays more).symm.trans here
    rw [Outcome.next.injEq] at same
    rw [← same]
    exact ⟨by decide, by decide⟩

/-- What the reader has left unread begins with a line. -/
theorem Reads.lineStart {envs : Nat → Env} {start : Tool} {moment : Nat} {rest : Bytes}
    {reader : Reader} (reads : Reads envs start moment rest reader) :
    LineStart start.stdin rest := by
  induction reads with
  | start => exact Or.inl rfl
  | waits reads unasked ih => exact ih
  | refuses reads line untaken ih => exact ih.line line
  | takes reads line taken stepped ih => exact ih.line line

/-- A command line of 68 bytes, whose end is the name of a command. -/
def overlong : Tool where
  stdin := List.replicate 63 97 ++ ascii "exit\n"
  arrCCommand := []
  file := none
  update := none

/-- The end of the line is executed: the tool exits, and no line is `exit`. -/
theorem overlong_exits :
    (∃ left, toolRun (fun _ => willing) overlong 2 = .exit left) ∧
      ¬ AllSteps (fun _ => toolStep willing) overlong
        (LineByLine (fun _ => willing) overlong) := by
  refine ⟨⟨_, rfl⟩, ?_⟩
  intro held
  obtain ⟨rest, tail, reads, aligned, whole⟩ := held 1 _ rfl
  obtain ⟨rfl, _⟩ := whole rfl (ascii "exit") (by decide) (by decide)
  have unread : ascii "exit\n" = rest := aligned.unread
  have first := reads.lineStart
  rw [← unread] at first
  exact absurd first (by decide)

end Scftp.ConfigurationTool

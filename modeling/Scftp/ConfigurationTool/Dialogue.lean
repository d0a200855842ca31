import Scftp.ConfigurationTool.Lines
import Scftp.Lib.Feed

set_option autoImplicit false

/- What the tool is to its user: settings that are kept, and a form with a field for
each prompt, filled in a line at a time. -/
namespace Scftp.ConfigurationTool

open CString Feed Machine Stdin

/-- The configuration as it is typed and shown. -/
@[ext] structure Settings where
  name : Bytes
  root : Bytes
  port : Int32
  authentication : Int32
  encryptionLevel : Int32
  bufferSize : Int32
  maxConnections : Int32
deriving DecidableEq

def ScftpData.settings (pData : ScftpData) : Settings where
  name := pData.name.bytes
  root := pData.root.bytes
  port := pData.port
  authentication := pData.authentication
  encryptionLevel := pData.encryptionLevel
  bufferSize := pData.bufferSize
  maxConnections := pData.maxConnections

/-- What is around the tool: the folders that open, the ports that are free, and what
becomes of a number that fits no `int`. -/
structure Host where
  folders : Bytes → Bool
  free : UInt16 → Bool
  store : Int → Int32

/-- A system that answers as the host has it and refuses nothing. -/
structure Host.Serves (host : Host) (env : Env) : Prop where
  opendir : env.opendir = host.folders
  socket : env.socket = true
  bind : env.bind = host.free
  scanf : env.scanf = scanfInt host.store
  fopen : env.fopen = true

/-- The settings that are kept and, while a form is open, the field that is asked for
and the settings so far. -/
structure Dialogue where
  kept : Settings
  asked : Option (Prompt × Settings)
deriving DecidableEq

namespace Host

variable (host : Host)

def number (line : Bytes) : Int32 := (scanfInt host.store (line ++ [newline])).1.getD 0

/-- A line in a field; `none` when it is refused. -/
def enter (line : Bytes) (settings : Settings) : Prompt → Option Settings
  | .name => if line = [] then none else some { settings with name := line ++ [newline] }
  | .root =>
      if line ≠ [] ∧ host.folders line then some { settings with root := line.dropLast } else none
  | .port =>
      if host.number line ≠ 0 ∧ host.free (host.number line).toInt16.toUInt16 then
        some { settings with port := host.number line }
      else none
  | .authentication =>
      some { settings with authentication := if 1 ≤ host.number line then 1 else 0 }
  | .encryption =>
      if host.number line = 0 ∨ host.number line = 1 ∨ host.number line = 2 ∨
          host.number line = 3 then
        some { settings with encryptionLevel := host.number line }
      else none
  | .bufferSize =>
      if host.number line < 1 then none
      else some { settings with
        bufferSize := if 512 < host.number line then 512 else host.number line }

end Host

/-- A field is filled in; the form is kept behind the last. -/
def Dialogue.fill (dialogue : Dialogue) (filled : Settings) (prompt : Prompt) : Dialogue :=
  match prompt.next with
  | some next => { dialogue with asked := some (next, filled) }
  | none => ⟨filled, none⟩

/-- A line of the user. -/
def Host.answer (host : Host) (line : Bytes) (dialogue : Dialogue) : Outcome Dialogue :=
  match dialogue.asked with
  | none =>
      if line = ascii "update" then
        .next { dialogue with asked := some (.name, dialogue.kept) }
      else if line = ascii "exit" then .exit dialogue
      else .next dialogue
  | some (prompt, settings) =>
      match host.enter line settings prompt with
      | none => .next dialogue
      | some filled => .next (dialogue.fill filled prompt)

/-- A line that a read takes whole, as the text or the number that is asked for. -/
def ReadsWhole (line : Bytes) : Option Prompt → Prop
  | none => line.length ≤ 62
  | some .name => line.length ≤ 62 ∧ (0 : UInt8) ∉ line
  | some .root => line.length ≤ 126 ∧ (0 : UInt8) ∉ line
  | some _ => numberLine (line ++ [newline]) = true

instance (line : Bytes) : DecidablePred (ReadsWhole line)
  | none => inferInstanceAs (Decidable (_ ≤ _))
  | some .name => inferInstanceAs (Decidable (_ ∧ _))
  | some .root => inferInstanceAs (Decidable (_ ∧ _))
  | some .port => inferInstanceAs (Decidable (_ = _))
  | some .authentication => inferInstanceAs (Decidable (_ = _))
  | some .encryption => inferInstanceAs (Decidable (_ = _))
  | some .bufferSize => inferInstanceAs (Decidable (_ = _))

/-- A line for the tool as it stands. -/
def Suits (line : Bytes) (dialogue : Dialogue) : Prop :=
  newline ∉ line ∧ ReadsWhole line (dialogue.asked.map Prod.fst)

instance (line : Bytes) (dialogue : Dialogue) : Decidable (Suits line dialogue) :=
  inferInstanceAs (Decidable (_ ∧ _))

/-- The tool has the settings in its file and in its call of `update`. -/
structure Shows (dialogue : Dialogue) (tool : Tool) : Prop where
  kept : ∃ pData, Loads tool.file pData ∧ pData.settings = dialogue.kept
  asked : tool.update.map (fun update => (update.prompt, update.pData.settings)) = dialogue.asked

/-- A prompt that is answered with a line: it asks again, or the settings have what
was entered and the next prompt asks, or the file has all of them. -/
def Enters (tool : Tool) (update : Update) (more : Bytes) (outcome : Outcome Tool) :
    Option Settings → Prop
  | none => ∃ iBuffer, outcome = tool.again { update with iBuffer } more
  | some filled => ∃ pData : ScftpData, pData.settings = filled ∧
      match update.prompt.next with
      | some next => ∃ iBuffer, outcome = .next { tool with
          stdin := more, update := some ⟨next, iBuffer, pData⟩ }
      | none => outcome = .next { tool with
          stdin := more, update := none, file := some pData.saved }

section Prompts

variable {host : Host} {env : Env} {tool : Tool} {update : Update} {line more : Bytes}

theorem name_enters (running : tool.update = some update) (prompt : update.prompt = .name)
    (whole : WholeLine 64 tool.stdin line more) :
    Enters tool update more (toolStep env tool)
      (host.enter line update.pData.settings update.prompt) := by
  obtain ⟨_, _, clean, fits⟩ := id whole
  have noNul : (0 : UInt8) ∉ line ++ [newline] := by
    simpa only [List.mem_append, List.mem_singleton, not_or] using ⟨clean, by decide⟩
  have length : (line ++ [newline]).length = line.length + 1 := by
    rw [List.length_append, List.length_singleton]
  have long : strlen (line ++ [newline]) = line.length + 1 := by
    rw [strlen, cstr_of_noNul _ noNul, length]
  obtain ⟨name, copied, bytes⟩ := exists_strcpy noNul (length ▸ fits)
  rw [toolStep_running env tool update running]
  simp only [updateStep, prompt, nameStep, whole.fgets_eq, long, copied, Host.enter]
  by_cases empty : line = []
  · subst empty
    exact ⟨update.iBuffer, if_pos (Nat.le_refl _)⟩
  · have visible := List.length_pos_iff.mpr empty
    rw [if_neg empty, if_neg (by omega)]
    refine ⟨{ update.pData with name }, ?_, ?_⟩
    · simp only [ScftpData.settings, bytes]
    · rw [prompt]
      exact ⟨update.iBuffer, rfl⟩

theorem root_enters (serves : host.Serves env) (running : tool.update = some update)
    (prompt : update.prompt = .root) (whole : WholeLine 128 tool.stdin line more) :
    Enters tool update more (toolStep env tool)
      (host.enter line update.pData.settings update.prompt) := by
  obtain ⟨_, _, clean, fits⟩ := id whole
  have noNul : (0 : UInt8) ∉ line ++ [newline] := by
    simpa only [List.mem_append, List.mem_singleton, not_or] using ⟨clean, by decide⟩
  have long : strlen (line ++ [newline]) = line.length + 1 := by
    rw [strlen, cstr_of_noNul _ noNul, List.length_append, List.length_singleton]
  rw [toolStep_running env tool update running]
  simp only [updateStep, prompt, rootStep, whole.fgets_eq, long, whole.cut, serves.opendir,
    Host.enter]
  by_cases empty : line = []
  · subst empty
    exact ⟨update.iBuffer, if_pos (Nat.le_refl _)⟩
  · have visible := List.length_pos_iff.mpr empty
    rw [if_neg (by omega)]
    by_cases opens : host.folders line = true
    · have cut : cutLast line = some line.dropLast := by
        have some : strlen line ≠ 0 := by
          rw [strlen, cstr_of_noNul line clean]
          omega
        rw [cutLast, if_neg some, cstr_of_noNul line clean]
      have shorter : line.dropLast.length < 128 := by
        rw [List.length_dropLast]
        omega
      obtain ⟨root, copied, bytes⟩ := exists_strcpy
        (fun member => clean (List.dropLast_subset line member)) shorter
      simp only [opens, empty, cut, copied, ne_eq, not_false_eq_true, and_self, ↓reduceIte]
      refine ⟨{ update.pData with root }, ?_, ?_⟩
      · simp only [ScftpData.settings, bytes]
      · rw [prompt]
        exact ⟨update.iBuffer, rfl⟩
    · simp only [opens, and_false, Bool.false_eq_true, ↓reduceIte]
      exact ⟨update.iBuffer, rfl⟩

/-- The number of the line is the next that `scanf` finds. -/
theorem number_enters (serves : host.Serves env) (running : tool.update = some update)
    (numeric : update.prompt.numeric = true)
    (read : scanfInt host.store tool.stdin = (some (host.number line), more)) :
    Enters tool update more (toolStep env tool)
      (host.enter line update.pData.settings update.prompt) := by
  rw [toolStep_running env tool update running]
  cases prompt : update.prompt with
  | name =>
      rw [prompt] at numeric
      cases numeric
  | root =>
      rw [prompt] at numeric
      cases numeric
  | port =>
      simp only [updateStep, prompt, portStep, serves.scanf, read, Option.getD_some,
        Env.isPortAvailable, serves.socket, serves.bind, Host.enter]
      by_cases zero : host.number line = 0
      · simp only [zero, ne_eq, not_true_eq_false, false_and, ↓reduceIte]
        exact ⟨_, by rw [prompt]⟩
      · simp only [zero, ne_eq, not_false_eq_true, true_and, ↓reduceIte]
        cases free : host.free (host.number line).toInt16.toUInt16 with
        | false => exact ⟨_, by rw [prompt]⟩
        | true => exact ⟨{ update.pData with port := host.number line }, rfl, by
            rw [prompt]
            exact ⟨_, rfl⟩⟩
  | authentication =>
      simp only [updateStep, prompt, authenticationStep, serves.scanf, read, Option.getD_some,
        Host.enter]
      exact ⟨_, rfl, by
        rw [prompt]
        exact ⟨_, rfl⟩⟩
  | encryption =>
      simp only [updateStep, prompt, encryptionStep, serves.scanf, read, Option.getD_some,
        Host.enter]
      by_cases level : host.number line = 0 ∨ host.number line = 1 ∨ host.number line = 2 ∨
          host.number line = 3
      · rw [if_pos level, if_pos level]
        exact ⟨{ update.pData with encryptionLevel := host.number line }, rfl, by
          rw [prompt]
          exact ⟨_, rfl⟩⟩
      · rw [if_neg level, if_neg level]
        exact ⟨_, by rw [prompt]⟩
  | bufferSize =>
      simp only [updateStep, prompt, bufferSizeStep, serves.scanf, read, Option.getD_some,
        serves.fopen, Host.enter]
      by_cases small : host.number line < 1
      · rw [if_pos small, if_pos small]
        exact ⟨_, by rw [prompt]⟩
      · rw [if_neg small, if_neg small]
        exact ⟨_, rfl, by
          rw [prompt]
          rfl⟩

end Prompts

/-- The tool shows the dialogue and has lines to read. Behind a number it may have
left white space. -/
structure Hears (rest : Bytes) (lines : List Bytes) (dialogue : Dialogue) (tool : Tool) :
    Prop where
  shows : Shows dialogue tool
  unread : ∃ tail, tool.stdin = tail ++ (typed lines ++ rest) ∧ blank tail = true ∧
    (tail ≠ [] → IsLine tail (typed lines ++ rest)) ∧
      ∀ asked ∈ dialogue.asked, asked.1.numeric = false → tail = []

structure Quits (rest : Bytes) (lines : List Bytes) (dialogue : Dialogue) (left : Tool) :
    Prop where
  shows : Shows dialogue left
  unread : left.stdin = typed lines ++ rest

/-- A step of the tool on the next line. -/
def Heard (rest : Bytes) (lines : List Bytes) (outcome : Outcome Tool) : Outcome Dialogue → Prop
  | .next dialogue => ∃ after, outcome = .next after ∧ Hears rest lines dialogue after
  | .exit dialogue => ∃ left, outcome = .exit left ∧ Quits rest lines dialogue left
  | .fault => outcome = .fault

/-- Only in front of a text a text is asked for. -/
theorem numeric_of_next {prompt next : Prompt} (follows : prompt.next = some next)
    (other : next.numeric = false) : prompt.numeric = false := by
  cases prompt <;> cases follows <;> first | rfl | cases other

section Steps

variable {host : Host} {env : Env} {tool : Tool} {update : Update} {dialogue : Dialogue}
  {line rest tail more : Bytes} {lines : List Bytes} {outcome : Outcome Tool}

theorem Hears.whole {after : Tool} (shows : Shows dialogue after)
    (unread : after.stdin = typed lines ++ rest) : Hears rest lines dialogue after :=
  ⟨shows, [], unread, rfl, fun more => absurd rfl more, fun _ _ _ => rfl⟩

theorem command_heard (env : Env) (idle : tool.update = none) (shows : Shows dialogue tool)
    (single : newline ∉ line) (short : line.length ≤ 62)
    (unread : tool.stdin = typed (line :: lines) ++ rest) :
    Heard rest lines (toolStep env tool) (host.answer line dialogue) := by
  have asked : dialogue.asked = none := by rw [← shows.asked, idle, Option.map_none]
  obtain ⟨pData, loads, same⟩ := shows.kept
  have read : fgets tool.arrCCommand 64 tool.stdin = (line ++ [newline], typed lines ++ rest) := by
    rw [unread, fgets_typed _ single (by omega)]
  have print := strcmp_line line (ascii "print") single (by decide)
  have updates := strcmp_line line (ascii "update") single (by decide)
  have exits := strcmp_line line (ascii "exit") single (by decide)
  change strcmp (line ++ [newline]) (ascii "print\n") = true ↔ _ at print
  change strcmp (line ++ [newline]) (ascii "update\n") = true ↔ _ at updates
  change strcmp (line ++ [newline]) (ascii "exit\n") = true ↔ _ at exits
  rw [toolStep_idle env tool idle]
  simp only [commandStep, read, print, updates, exits, Host.answer, asked, loads env.residue]
  by_cases printing : line = ascii "print"
  · subst printing
    exact ⟨_, rfl, .whole ⟨⟨pData, loads, same⟩, shows.asked⟩ rfl⟩
  · rw [if_neg printing]
    by_cases updating : line = ascii "update"
    · rw [if_pos updating, if_pos updating]
      refine ⟨_, rfl, .whole ⟨⟨pData, loads, same⟩, ?_⟩ rfl⟩
      rw [← same]
      rfl
    · rw [if_neg updating, if_neg updating]
      by_cases exiting : line = ascii "exit"
      · rw [if_pos exiting, if_pos exiting]
        exact ⟨_, rfl, ⟨⟨pData, loads, same⟩, shows.asked⟩, rfl⟩
      · rw [if_neg exiting, if_neg exiting]
        exact ⟨_, rfl, .whole ⟨⟨pData, loads, same⟩, shows.asked⟩ rfl⟩

/-- What a prompt does with a line is what the form does. -/
theorem Enters.heard (shows : Shows dialogue tool) (running : tool.update = some update)
    (white : blank tail = true) (left : tail ≠ [] → IsLine tail (typed lines ++ rest))
    (plain : update.prompt.numeric = false → tail = [])
    (entered : Enters tool update (tail ++ (typed lines ++ rest)) outcome
      (host.enter line update.pData.settings update.prompt)) :
    Heard rest lines outcome (host.answer line dialogue) := by
  have asked : dialogue.asked = some (update.prompt, update.pData.settings) := by
    rw [← shows.asked, running, Option.map_some]
  simp only [Host.answer, asked]
  cases answer : host.enter line update.pData.settings update.prompt with
  | none =>
      rw [answer] at entered
      obtain ⟨iBuffer, again⟩ := entered
      refine ⟨_, again, ⟨shows.kept, asked.symm⟩, tail, rfl, white, left, ?_⟩
      intro field member
      rw [asked, Option.mem_some_iff] at member
      exact member ▸ plain
  | some filled =>
      rw [answer] at entered
      obtain ⟨pData, same, moved⟩ := entered
      simp only [Dialogue.fill]
      cases follows : update.prompt.next with
      | none =>
          rw [follows] at moved
          exact ⟨_, moved, ⟨⟨pData, loads_saved pData, same⟩, rfl⟩, tail, rfl, white, left, nofun⟩
      | some next =>
          rw [follows] at moved
          obtain ⟨iBuffer, passed⟩ := moved
          refine ⟨_, passed, ⟨shows.kept, by rw [← same]; rfl⟩, tail, rfl, white, left, ?_⟩
          intro field member other
          rw [Option.mem_some_iff] at member
          subst member
          exact plain (numeric_of_next follows other)

theorem prompt_heard (serves : host.Serves env) (running : tool.update = some update)
    (hears : Hears rest (line :: lines) dialogue tool) (suits : Suits line dialogue) :
    Heard rest lines (toolStep env tool) (host.answer line dialogue) := by
  obtain ⟨shows, tail, unread, white, left, plain⟩ := hears
  have asked : dialogue.asked = some (update.prompt, update.pData.settings) := by
    rw [← shows.asked, running, Option.map_some]
  obtain ⟨single, reads⟩ := suits
  rw [asked, Option.map_some] at reads
  rw [typed_cons] at unread left
  cases numeric : update.prompt.numeric with
  | true =>
      have number : numberLine (line ++ [newline]) = true := by
        revert reads numeric
        generalize update.prompt = prompt
        cases prompt <;> rintro reads ⟨⟩ <;> exact reads
      obtain ⟨value, behind, alone, whole, blanks, ended⟩ :=
        (isLine_append single (typed lines ++ rest)).scanfInt_number number host.store
      have named : host.number line = value := by rw [Host.number, alone, Option.getD_some]
      have read : scanfInt host.store tool.stdin =
          (some (host.number line), behind ++ (typed lines ++ rest)) := by
        rw [unread, scanfInt_blank host.store white, named, ← whole, List.append_assoc]
        rfl
      apply Enters.heard shows running blanks ended.line
      · intro other
        rw [numeric] at other
        cases other
      · exact number_enters serves running numeric read
  | false =>
      have nothing : tail = [] := plain _ asked numeric
      subst nothing
      apply Enters.heard shows running rfl (fun more => absurd rfl more) (fun _ => rfl)
      cases prompt : update.prompt with
      | name =>
          rw [prompt] at reads
          rw [← prompt]
          exact name_enters running prompt ⟨unread, single, reads.2, Nat.succ_lt_succ
            (Nat.lt_succ_of_le reads.1)⟩
      | root =>
          rw [prompt] at reads
          rw [← prompt]
          exact root_enters serves running prompt ⟨unread, single, reads.2, Nat.succ_lt_succ
            (Nat.lt_succ_of_le reads.1)⟩
      | _ =>
          rw [prompt] at numeric
          cases numeric

end Steps

section Runs

variable {host : Host} {envs : Nat → Env} {start tool : Tool} {dialogue : Dialogue}
  {rest tail more line : Bytes} {lines : List Bytes} {moment : Nat}

theorem blank_passed (reached : toolRun envs start moment = .next tool) (idle : tool.update = none)
    (unread : tool.stdin = tail ++ more) (white : blank tail = true)
    (left : tail ≠ [] → IsLine tail more) :
    ∃ later after, toolRun envs start later = .next after ∧ after.update = none ∧
      after.file = tool.file ∧ after.stdin = more := by
  induction remaining : tail.length using Nat.strongRecOn generalizing tail moment tool with
  | ind total ih =>
      by_cases ended : tail = []
      · subst ended
        exact ⟨moment, tool, reached, idle, rfl, unread⟩
      · have line := left ended
        have positive := List.length_pos_iff.mpr ended
        have read : fgets tool.arrCCommand 64 tool.stdin =
            (tail.take 63, tail.drop 63 ++ more) := by
          rw [unread, line.fgets_eq]
        rw [← List.take_append_drop 63 tail, blank, List.all_append, Bool.and_eq_true] at white
        have quiet : NoCommand tool.command := by
          rw [Tool.command, read]
          exact noCommand_blank white.1
        have stepped := toolStep_noCommand (envs moment) idle quiet
        rw [← toolRun_succ reached] at stepped
        rw [← List.take_append_drop 63 tail] at line
        have shorter : (tail.drop 63).length < total := by
          rw [List.length_drop]
          omega
        have behind : tool.commanded.stdin = tail.drop 63 ++ more := by rw [Tool.commanded, read]
        have onward := ih _ shorter stepped idle behind white.2 line.suffix rfl
        exact onward

theorem heard_comes (reached : toolRun envs start moment = .next tool) {answered : Outcome Dialogue}
    (heard : Heard rest lines (toolStep (envs moment) tool) answered) :
    Comes (fun moment => toolStep (envs moment)) start (Hears rest lines)
      (Quits rest lines) answered := by
  rw [← toolRun_succ reached] at heard
  cases answered with
  | next dialogue =>
      obtain ⟨after, stepped, hears⟩ := heard
      exact ⟨moment + 1, after, stepped, hears⟩
  | exit dialogue =>
      obtain ⟨left, exited, quits⟩ := heard
      exact ⟨moment + 1, left, exited, quits⟩
  | fault => exact ⟨moment + 1, heard⟩

theorem line_followed (serves : ∀ moment, host.Serves (envs moment))
    (reached : toolRun envs start moment = .next tool)
    (hears : Hears rest (line :: lines) dialogue tool) (suits : Suits line dialogue) :
    Comes (fun moment => toolStep (envs moment)) start (Hears rest lines) (Quits rest lines)
      (host.answer line dialogue) := by
  cases running : tool.update with
  | some update => exact heard_comes reached (prompt_heard (serves moment) running hears suits)
  | none =>
      obtain ⟨shows, tail, unread, white, left, _⟩ := hears
      obtain ⟨later, after, further, idle, file, behind⟩ :=
        blank_passed reached running unread white left
      have asked : dialogue.asked = none := by rw [← shows.asked, running, Option.map_none]
      obtain ⟨single, short⟩ := suits
      rw [asked] at short
      apply heard_comes further
      apply command_heard (envs later) idle ⟨file ▸ shows.kept, ?_⟩ single short behind
      rw [idle, asked, Option.map_none]

end Runs

theorem answer_ne_fault (host : Host) (line : Bytes) (dialogue : Dialogue) :
    host.answer line dialogue ≠ .fault := by
  unfold Host.answer
  split
  · split
    · exact nofun
    · split <;> exact nofun
  · split <;> exact nofun

/-- Whatever is typed, the tool comes to show what the dialogue has come to. -/
theorem dialogue_followed {host : Host} {envs : Nat → Env}
    (serves : ∀ moment, host.Serves (envs moment)) {start : Tool} (idle : start.update = none)
    {pData : ScftpData} (loads : Loads start.file pData) {lines : List Bytes} {rest : Bytes}
    (unread : start.stdin = typed lines ++ rest)
    (suited : Suited host.answer Suits lines ⟨pData.settings, none⟩) :
    match feed host.answer lines ⟨pData.settings, none⟩ with
    | .next dialogue => ∃ moment tool, toolRun envs start moment = .next tool ∧
        Shows dialogue tool ∧ (dialogue.asked = none → tool.stdin = rest)
    | .exit dialogue => ∃ moment left others, toolRun envs start moment = .exit left ∧
        Shows dialogue left ∧ others <:+ lines ∧ left.stdin = typed others ++ rest
    | .fault => False := by
  have shows : Shows ⟨pData.settings, none⟩ start := ⟨⟨pData, loads, rfl⟩, by rw [idle]; rfl⟩
  have hears : Hears rest lines ⟨pData.settings, none⟩ start := .whole shows unread
  have follows : ∀ line lines dialogue moment tool, toolRun envs start moment = .next tool →
      Hears rest (line :: lines) dialogue tool → Suits line dialogue →
      Comes (fun moment => toolStep (envs moment)) start (Hears rest lines) (Quits rest lines)
        (host.answer line dialogue) :=
    fun line lines dialogue moment tool => line_followed serves
  have came := comes_feed follows lines _ 0 start rfl hears suited
  have unbroken := feed_ne_fault (answer_ne_fault host) lines ⟨pData.settings, none⟩
  cases result : feed host.answer lines ⟨pData.settings, none⟩ with
  | next dialogue =>
      rw [result] at came
      obtain ⟨moment, tool, reached, shows, tail, behind, white, left, _⟩ := came
      cases asked : dialogue.asked with
      | some field => exact ⟨moment, tool, reached, shows, by rw [asked]; exact nofun⟩
      | none =>
          have running : tool.update = none := by
            rw [← Option.map_eq_none_iff, shows.asked, asked]
          obtain ⟨later, after, further, idle, file, behind⟩ :=
            blank_passed reached running behind white left
          refine ⟨later, after, further, ⟨file ▸ shows.kept, ?_⟩, fun _ => behind⟩
          rw [idle, asked, Option.map_none]
  | exit dialogue =>
      rw [result] at came
      obtain ⟨moment, left, exited, others, behind, quits⟩ := came
      exact ⟨moment, left, others, exited, quits.shows, behind, quits.unread⟩
  | fault => exact absurd result unbroken

/-- A host where the folder `/srv/` opens and every port but the first is free. -/
def plainHost : Host where
  folders path := path = ascii "/srv/"
  free port := port ≠ 1
  store := Int32.ofInt

/-- Lines that are refused, and a form that is filled in. -/
example : feed plainHost.answer
    (["update", "", "alice", "/none", "/srv/", "0", "1", "8080", "7", "4", "2", "0", "600",
      "print"].map ascii) ⟨(ScftpData.default sampleRoot).settings, none⟩ =
    .next ⟨⟨ascii "alice\n", ascii "/srv", 8080, 1, 2, 512, 5⟩, none⟩ := by
  decide

end Scftp.ConfigurationTool

import Scftp.UserMan.Failures

set_option autoImplicit false

/- `main` at the end of its input. No `fgets` result is looked at, so a read that
finds nothing repeats the last command on what the buffers still hold. -/
namespace Scftp.UserMan

open CString Machine Program Program.Prog Stdin

def Statement.username : Statement → Str
  | .select username => username
  | .insert username _ => username
  | .delete username => username

/-- The next read finds a byte, and at a name or password prompt one that is not
a NUL. Before the first read `command` may hold anything, even an exit. -/
def Attended (session : Session) : Prop :=
  match session.main.prompt with
  | .command => session.main.stdin ≠ [] ∨ strcmp session.main.command (ascii "exit\n") = true
  | _ => ∃ byte rest, session.main.stdin = byte :: rest ∧ byte ≠ 0

/-- A name prompt finds a whole line that fits its buffer. -/
def NameWhole (session : Session) : Prop :=
  session.main.prompt = .addName ∨ session.main.prompt = .removeName →
    ∃ line rest, WholeLine 64 session.main.stdin line rest

/-- After the end of the input no INSERT or DELETE is sent. -/
def Server.QuietAtEnd (server : Server) (session : Session) : Prop :=
  session.main.stdin = [] → ∀ after, server.mainStep session = .next after →
    after.db.mutations = session.db.mutations

/-- A read at a name or password prompt, with a byte to read, leaves a string
that can be cut, exactly when the byte is not a NUL. -/
theorem cutLast_fgets (buffer rest : Bytes) (byte : UInt8) :
    cutLast (fgets buffer 64 (byte :: rest)).1 = none ↔ byte = 0 := by
  rw [fgets_of_ne_nil buffer 64 (List.cons_ne_nil byte rest)]
  obtain ⟨others, read⟩ := takeLine_head 63 byte rest (by decide)
  rw [read, cutLast_cons]

theorem attended_command (session : Session) (prompt : session.main.prompt = .command) :
    Attended session ↔
      session.main.stdin ≠ [] ∨ strcmp session.main.command (ascii "exit\n") = true := by
  simp only [Attended, prompt]

theorem attended_answer (session : Session) (request : session.main.prompt ≠ .command) :
    Attended session ↔ ∃ byte rest, session.main.stdin = byte :: rest ∧ byte ≠ 0 := by
  unfold Attended
  split
  · contradiction
  · rfl

theorem attended_progress (server : Server) (session : Session) (attended : Attended session) :
    (∃ after, server.mainStep session = .exit after) ∨
      ∃ after, server.mainStep session = .next after ∧
        after.main.stdin.length < session.main.stdin.length := by
  obtain ⟨main, db⟩ := session
  by_cases prompt : main.prompt = .command
  · rw [attended_command _ prompt] at attended
    rw [mainStep_command server main db prompt]
    by_cases exits : strcmp (fgets main.command 512 main.stdin).1 (ascii "exit\n") = true
    · exact Or.inl ⟨_, if_pos exits⟩
    · have unread : main.stdin ≠ [] := by
        intro ended
        rw [ended, fgets_eof] at exits
        exact attended.elim (absurd ended) exits
      have shorter := fgets_rest_lt main.command 512 main.stdin (by decide) unread
      exact Or.inr ⟨_, if_neg exits, shorter⟩
  · obtain ⟨byte, rest, unread, nonzero⟩ := (attended_answer _ prompt).mp attended
    simp only at unread
    rcases mainStep_answer server main db prompt with ⟨_, cut⟩ | ⟨after, stepped, remaining, _⟩
    · rw [unread, cutLast_fgets] at cut
      exact absurd cut nonzero
    · have shorter := fgets_rest_lt main.answerBuffer 64 main.stdin (by decide) (by simp [unread])
      rw [← remaining] at shorter
      exact Or.inr ⟨after, stepped, shorter⟩

/-- The input is used up and the command in the buffer is not an exit. -/
def Stuck (session : Session) : Prop :=
  session.main.stdin = [] ∧ strcmp session.main.command (ascii "exit\n") = false

/-- A stuck `main` repeats its last command, or cuts an empty string. -/
theorem stuck_step (server : Server) (session : Session) (stuck : Stuck session) :
    server.mainStep session = .fault ∨
      ∃ after, server.mainStep session = .next after ∧ Stuck after := by
  obtain ⟨main, db⟩ := session
  obtain ⟨ended, command⟩ := stuck
  simp only at ended command
  by_cases prompt : main.prompt = .command
  · rw [mainStep_command server main db prompt]
    simp only [ended, fgets_eof, command, Bool.false_eq_true, ↓reduceIte]
    exact Or.inr ⟨_, rfl, rfl, command⟩
  · rcases mainStep_answer server main db prompt with
      ⟨broken, _⟩ | ⟨after, stepped, remaining, kept, _⟩
    · exact Or.inl broken
    · rw [ended, fgets_eof] at remaining
      rw [← kept] at command
      exact Or.inr ⟨after, stepped, remaining, command⟩

/-- Inside a request the command buffer holds the request. -/
def InRequest (session : Session) : Prop :=
  session.main.prompt ≠ .command → strcmp session.main.command (ascii "exit\n") = false

theorem inRequest_step (server : Server) (before after : Session) (inside : InRequest before)
    (stepped : server.mainStep before = .next after) : InRequest after := by
  obtain ⟨main, db⟩ := before
  by_cases prompt : main.prompt = .command
  · rw [mainStep_command server main db prompt] at stepped
    dsimp only at stepped
    split at stepped
    · cases stepped
    · rename_i other
      cases stepped
      exact fun _ => Bool.eq_false_iff.mpr other
  · rcases mainStep_answer server main db prompt with ⟨broken, _⟩ | ⟨left, again, _, kept, _⟩
    · rw [broken] at stepped
      cases stepped
    · rw [again] at stepped
      cases stepped
      intro _
      rw [kept]
      exact inside prompt

/-- An unattended step leaves `main` stuck or writes outside a buffer. -/
theorem unattended (server : Server) (session : Session) (inside : InRequest session)
    (alone : ¬ Attended session) : Stuck session ∨ server.mainStep session = .fault := by
  obtain ⟨main, db⟩ := session
  by_cases prompt : main.prompt = .command
  · rw [attended_command _ prompt, not_or, not_not, Bool.not_eq_true] at alone
    exact Or.inl alone
  · rw [attended_answer _ prompt] at alone
    cases unread : main.stdin with
    | nil => exact Or.inl ⟨unread, inside prompt⟩
    | cons byte rest =>
        rcases mainStep_answer server main db prompt with ⟨broken, _⟩ | ⟨_, _, _, _, cut⟩
        · exact Or.inr broken
        · rw [unread, ne_eq, cutLast_fgets] at cut
          exact absurd ⟨byte, rest, unread, cut⟩ alone

/-- `main` exits exactly when every step it takes is attended. -/
theorem exits_iff (server : Server) (session : Session) (start : InRequest session) :
    Exits (fun _ => server.mainStep) session ↔
      AllSteps (fun _ => server.mainStep) session fun _ => Attended := by
  constructor
  · intro exits count state reached
    by_contra alone
    have inside := Machine.run_invariant (fun _ => InRequest) start
      (fun _ before after _ held stepped => inRequest_step server before after held stepped)
      count state reached
    refine not_exits_of_doomed (fun session => Stuck session ∨ server.mainStep session = .fault) ?_
      reached (unattended server state inside alone) exits
    rintro _ before (stuck | broken)
    · rcases stuck_step server before stuck with broken | ⟨after, goes, still⟩
      · exact Or.inl broken
      · exact Or.inr ⟨after, goes, Or.inl still⟩
    · exact Or.inl broken
  · intro attended
    exact exits_of_measure (fun session => session.main.stdin.length)
      fun count before reached => attended_progress server before (attended count before reached)

/-- A run sends only statements its program may send. -/
theorem issued_run {α : Type} (server : Server) (prog : Prog Statement Reply α) (db : Db)
    (statement : Statement) (sent : statement ∈ (prog.run server.answer db).2.issued) :
    statement ∈ db.issued ∨ prog.MayCall statement := by
  induction prog generalizing db with
  | done value => exact Or.inl sent
  | call op next ih =>
      rcases ih _ _ sent with earlier | later
      · rw [answer_issued] at earlier
        rcases List.mem_append.mp earlier with earlier | latest
        · exact Or.inl earlier
        · rw [List.mem_singleton.mp latest]
          exact Or.inr (.here op next)
      · exact Or.inr (.later op next _ statement later)

theorem username_of_mayCall {call : Call} {statement : Statement}
    (reached : call.program.MayCall statement) : statement.username = call.username := by
  have sent := (mayCall_program call statement).mp reached
  cases call with
  | isUserExist username =>
      rw [sent]
      rfl
  | addUser username password => rcases sent with rfl | rfl <;> rfl
  | removeUser username => rcases sent with rfl | rfl <;> rfl
  | checkUserCredentials username password =>
      rw [sent]
      rfl

theorem mem_mutations (server : Server) (call : Call) (db : Db) (statement : Statement)
    (sent : statement ∈ (server.callAnswer call db).2.mutations) :
    statement ∈ db.mutations ∨ statement.username = call.username := by
  obtain ⟨issued, mutates⟩ := List.mem_filter.mp sent
  rcases issued_run server call.program db statement issued with earlier | reached
  · exact Or.inl (List.mem_filter.mpr ⟨earlier, mutates⟩)
  · exact Or.inr (username_of_mayCall reached)

/-- The names behind every INSERT and DELETE are lines of the input; a name
prompt stands at the start of a line. -/
structure Lined (input : Bytes) (session : Session) : Prop where
  unread : ∃ front, input = front ++ session.main.stdin ∧
    (session.main.prompt = .addName ∨ session.main.prompt = .removeName →
      ∃ earlier, front = earlier ++ [newline])
  name : session.main.prompt = .addPassword → (toStr session.main.username).bytes ∈ lines input
  sent : ∀ statement ∈ session.db.mutations, statement.username.bytes ∈ lines input

/-- A command that is a request was read to the end of its line. -/
theorem request_read_whole (buffer stdin : Bytes) (unread : stdin ≠ [])
    (request : requested (fgets buffer 512 stdin).1 ≠ .command) :
    ∃ line, (fgets buffer 512 stdin).1 = line ++ [newline] ∧ newline ∉ line := by
  rw [fgets_of_ne_nil buffer 512 unread] at request ⊢
  apply takeLine_newline
  have visible : newline ∈ cstr (takeLine (512 - 1) stdin).1 := by
    unfold requested at request
    split at request
    · rename_i adds
      rw [(strcmp_iff _ _).mp adds]
      decide
    · split at request
      · rename_i removes
        rw [(strcmp_iff _ _).mp removes]
        decide
      · exact absurd rfl request
  exact (List.takeWhile_prefix _).subset visible

theorem mem_lines {input earlier stdin line rest : Bytes}
    (unread : input = earlier ++ [newline] ++ stdin) (whole : WholeLine 64 stdin line rest) :
    line ∈ lines input := by
  obtain ⟨rfl, single, _, _⟩ := whole
  rw [unread, List.append_assoc, List.singleton_append, lines_append, lines_cons line rest single]
  exact List.mem_append_right _ List.mem_cons_self

section Lined

variable {server : Server} {input : Bytes} {main : MainState} {db : Db} {after : Session}
  (lined : Lined input ⟨main, db⟩) (stepped : server.mainStep ⟨main, db⟩ = .next after)

include lined

/-- Where the input stands after a read that finds a byte. -/
theorem Lined.read (buffer : Bytes) (size : Nat) (unread : main.stdin ≠ []) :
    ∃ front, input =
      front ++ (fgets buffer size main.stdin).1 ++ (fgets buffer size main.stdin).2 := by
  obtain ⟨front, split, _⟩ := lined.unread
  refine ⟨front, ?_⟩
  rw [List.append_assoc, fgets_append buffer size unread]
  exact split

/-- A whole line at a name prompt is a line of the input. -/
theorem Lined.member {line rest : Bytes} (found : WholeLine 64 main.stdin line rest)
    (names : main.prompt = .addName ∨ main.prompt = .removeName) :
    (toStr line).bytes ∈ lines input := by
  obtain ⟨front, split, ends⟩ := lined.unread
  obtain ⟨earlier, rfl⟩ := ends names
  rw [toStr_bytes, cstr_of_noNul line found.2.2.1]
  exact mem_lines split found

include stepped

theorem lined_command (prompt : main.prompt = .command) (attended : Attended ⟨main, db⟩) :
    Lined input after := by
  rw [mainStep_command server main db prompt] at stepped
  dsimp only at stepped
  split at stepped
  · cases stepped
  · rename_i other
    cases stepped
    have unread : main.stdin ≠ [] := by
      intro ended
      rw [attended_command _ prompt] at attended
      rw [ended, fgets_eof] at other
      exact attended.elim (absurd ended) other
    obtain ⟨front, split⟩ := lined.read main.command 512 unread
    refine ⟨⟨_, split, ?_⟩, ?_, lined.sent⟩
    · intro names
      have request : requested (fgets main.command 512 main.stdin).1 ≠ .command := by
        intro same
        dsimp only at names
        rw [same] at names
        exact absurd names (by decide)
      obtain ⟨line, read, _⟩ := request_read_whole main.command main.stdin unread request
      exact ⟨front ++ line, by rw [read, List.append_assoc]⟩
    · intro impossible
      simp only [requested] at impossible
      split at impossible
      · cases impossible
      · split at impossible <;> cases impossible

theorem lined_addName (prompt : main.prompt = .addName) {line rest : Bytes}
    (found : WholeLine 64 main.stdin line rest) : Lined input after := by
  have member := lined.member found (Or.inl prompt)
  obtain ⟨front, split⟩ := lined.read main.username 64 (WholeLine.ne_nil found)
  rw [mainStep_addName server main db prompt] at stepped
  simp only [found.fgets_eq, found.cut] at stepped split
  cases stepped
  refine ⟨⟨_, split, fun _ => ⟨front ++ line, ?_⟩⟩, fun _ => member, ?_⟩
  · rw [List.append_assoc]
  · simpa only [sent_select_mutations] using lined.sent

theorem lined_addPassword (prompt : main.prompt = .addPassword) (attended : Attended ⟨main, db⟩) :
    Lined input after := by
  have named := lined.name prompt
  obtain ⟨byte, rest, unread, _⟩ := (attended_answer _ (by simp [prompt])).mp attended
  simp only at unread
  obtain ⟨front, split⟩ := lined.read main.password 64 (by simp [unread])
  rw [mainStep_addPassword server main db prompt] at stepped
  dsimp only at stepped
  split at stepped
  · cases stepped
  · cases stepped
    refine ⟨⟨_, split, by simp⟩, by simp, ?_⟩
    intro statement sent
    rcases mem_mutations server _ db statement sent with earlier | same
    · exact lined.sent statement earlier
    · rw [same]
      exact named

theorem lined_removeName (prompt : main.prompt = .removeName) {line rest : Bytes}
    (found : WholeLine 64 main.stdin line rest) : Lined input after := by
  have member := lined.member found (Or.inr prompt)
  obtain ⟨front, split⟩ := lined.read main.username 64 (WholeLine.ne_nil found)
  rw [mainStep_removeName server main db prompt] at stepped
  simp only [found.fgets_eq, found.cut] at stepped split
  cases stepped
  refine ⟨⟨_, split, by simp⟩, by simp, ?_⟩
  intro statement sent
  have selected := sent_select_mutations db (toStr line)
  dsimp only at sent
  split at sent
  · rcases mem_mutations server _ _ statement sent with earlier | same
    · rw [selected] at earlier
      exact lined.sent statement earlier
    · rw [same]
      exact member
  · rw [selected] at sent
    exact lined.sent statement sent

end Lined

theorem lined_step (server : Server) (input : Bytes) (before after : Session)
    (attended : Attended before) (whole : NameWhole before) (lined : Lined input before)
    (stepped : server.mainStep before = .next after) : Lined input after := by
  obtain ⟨main, db⟩ := before
  cases prompt : main.prompt with
  | command => exact lined_command lined stepped prompt attended
  | addName =>
      obtain ⟨line, rest, found⟩ := whole (Or.inl prompt)
      exact lined_addName lined stepped prompt found
  | addPassword => exact lined_addPassword lined stepped prompt attended
  | removeName =>
      obtain ⟨line, rest, found⟩ := whole (Or.inr prompt)
      exact lined_removeName lined stepped prompt found

/-- `main` exits, and sends nothing after the end of its input, exactly when
every read finds a byte. When its name prompts also find whole lines that fit,
only names that are lines of the input are added or removed. -/
theorem endOfInput_iff (server : Server) (stdin command username password : Bytes) (table : Table) :
    let session := Session.start stdin command username password table
    let attended := AllSteps (fun _ => server.mainStep) session fun _ => Attended
    (AllSteps (fun _ => server.mainStep) session (fun _ => server.QuietAtEnd) ∧
        Exits (fun _ => server.mainStep) session ↔ attended) ∧
      (attended → AllSteps (fun _ => server.mainStep) session (fun _ => NameWhole) →
        AllSteps (fun _ => server.mainStep) session fun _ state =>
          ∀ statement ∈ state.db.mutations, statement.username.bytes ∈ lines stdin) := by
  intro session attended
  have exits := exits_iff server session fun impossible => absurd rfl impossible
  refine ⟨⟨fun held => exits.mp held.2, fun held => ⟨?_, exits.mpr held⟩⟩, ?_⟩
  · intro count state reached ended after stepped
    rcases attended_progress server state (held count state reached) with
      ⟨_, exited⟩ | ⟨_, _, shorter⟩
    · rw [stepped] at exited
      cases exited
    · rw [ended] at shorter
      cases shorter
  · intro held whole count state reached
    refine (Machine.run_invariant (fun _ => Lined stdin)
      ⟨⟨[], rfl, by simp [session, Session.start]⟩, by
        simp [session, Session.start], by simp [session, Session.start, Db.mutations]⟩ ?_
        count state reached).sent
    intro earlier before after found lined stepped
    exact lined_step server stdin before after (held earlier before found)
      (whole earlier before found)
      lined stepped

def oneRequest : Session := Session.start (ascii "adduser\nbob\npw\n") [] [] [] []

/-- After its input `main` goes on adding: the name and password cut by one more
byte are a second user that no line names, and it never exits. -/
theorem adds_after_end :
    ∃ state after, Server.ideal.mainRun oneRequest 5 = .next state ∧ state.main.stdin = [] ∧
      Server.ideal.mainStep state = .next after ∧
      after.db.mutations = [.insert bob secret,
        .insert ⟨ascii "bo", by decide⟩ ⟨ascii "p", by decide⟩] ∧
      ascii "bo" ∉ lines oneRequest.main.stdin ∧
      ¬ Exits (fun _ => Server.ideal.mainStep) oneRequest := by
  refine ⟨⟨⟨.addPassword, [], ascii "adduser\n", ascii "bo", ascii "pw"⟩,
      ⟨[⟨bob, secret⟩], [.select bob, .select bob, .insert bob secret,
        .select ⟨ascii "bo", by decide⟩]⟩⟩, _, by decide, rfl, rfl, by decide, by decide, ?_⟩
  have reached : Machine.run (fun _ => Server.ideal.mainStep) oneRequest 3 =
      .next ⟨⟨.command, [], ascii "adduser\n", ascii "bob", ascii "pw"⟩,
        ⟨[⟨bob, secret⟩], [.select bob, .select bob, .insert bob secret]⟩⟩ := by decide
  refine not_exits_of_doomed Stuck (fun _ before stuck => ?_) reached ⟨rfl, by decide⟩
  exact stuck_step Server.ideal before stuck

end Scftp.UserMan

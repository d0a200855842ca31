import Scftp.UserMan.Main

set_option autoImplicit false

/- `main` against a reader that takes its input strictly line by line. They part
where a line meets the limit of a buffer or the input ends without a newline. -/
namespace Scftp.UserMan

open CString Machine Program Program.Prog Stdin

/-- What the line reader takes its next line for. -/
inductive Awaiting where
  | command
  | addName
  | addPassword (username : Str)
  | removeName

/-- The line reader: a command is a whole line, a name or password is the whole
next line, and one that does not fit its buffer is refused with its request. -/
def readLines : Awaiting → List Bytes → Prog Call Int Unit
  | _, [] => return ()
  | .command, line :: rest =>
      if line = ascii "exit" then return ()
      else if line = ascii "adduser" then readLines .addName rest
      else if line = ascii "removeuser" then readLines .removeName rest
      else readLines .command rest
  | .addName, line :: rest =>
      if line.length ≤ 62 then do
        let exist ← perform (.isUserExist (toStr line))
        if exist = 1 then readLines .command rest
        else readLines (.addPassword (toStr line)) rest
      else readLines .command rest
  | .addPassword username, line :: rest =>
      if line.length ≤ 62 then do
        let _ ← perform (.addUser username (toStr line))
        readLines .command rest
      else readLines .command rest
  | .removeName, line :: rest =>
      if line.length ≤ 62 then do
        let exist ← perform (.isUserExist (toStr line))
        if exist = 1 then
          let _ ← perform (.removeUser (toStr line))
          readLines .command rest
        else readLines .command rest
      else readLines .command rest

/-- Where the line reader leaves the database. -/
def Server.lineRead (server : Server) (awaiting : Awaiting) (input : List Bytes) (db : Db) : Db :=
  ((readLines awaiting input).run server.callAnswer db).2

/-- What `main` will take its next read for. -/
def MainState.awaiting (main : MainState) : Awaiting :=
  match main.prompt with
  | .command => .command
  | .addName => .addName
  | .addPassword => .addPassword (toStr main.username)
  | .removeName => .removeName

/-- Bytes that `main` does not take for a command. -/
def NoCommand (read : Bytes) : Prop :=
  strcmp read (ascii "exit\n") = false ∧ requested read = .command

instance (read : Bytes) : Decidable (NoCommand read) := instDecidableAnd

/-- The next read keeps to lines. A name or password is a whole line that fits.
At the end of input the command buffer holds no request, and what is left of a
line too long for the buffer is not a command. -/
def LineWise (session : Session) : Prop :=
  match session.main.prompt with
  | .command =>
      (session.main.stdin = [] → requested session.main.command = .command) ∧
        (newline ∉ (takeLine 511 session.main.stdin).1 →
          NoCommand (takeLine 511 (takeLine 511 session.main.stdin).2).1)
  | _ => ∃ line rest, WholeLine 64 session.main.stdin line rest

/-- The database in an outcome of `main` that is not a fault. -/
def Session.database : Outcome Session → Option Db
  | .next session => some session.db
  | .exit session => some session.db
  | .fault => none

/-- From some moment on `main` has left a database for good. -/
def Server.Settles (server : Server) (session : Session) (db : Db) : Prop :=
  ∃ count, ∀ later, count ≤ later → Session.database (server.mainRun session later) = some db

theorem settles_next {server : Server} {session after : Session} {db : Db}
    (stepped : server.mainStep session = .next after) (settles : server.Settles after db) :
    server.Settles session db := by
  obtain ⟨count, settled⟩ := settles
  use count + 1
  intro later reached
  obtain ⟨earlier, rfl⟩ : ∃ earlier, later = earlier + 1 := ⟨later - 1, by omega⟩
  rw [Server.mainRun, run_tail stepped]
  exact settled earlier (by omega)

theorem settles_exit {server : Server} {session after : Session}
    (stepped : server.mainStep session = .exit after) : server.Settles session after.db := by
  use 1
  intro later reached
  have exited : Machine.run (fun _ => server.mainStep) session 1 = .exit after := by
    rw [run_succ_of_next run_zero]
    exact stepped
  rw [Server.mainRun, run_exit_mono exited reached, Session.database]

/-- At the end of input, with no request in the buffer, nothing happens any more. -/
theorem settles_at_end (server : Server) (main : MainState) (db : Db)
    (prompt : main.prompt = .command)
    (ended : main.stdin = []) (quiet : requested main.command = .command) :
    server.Settles ⟨main, db⟩ db := by
  have stepped := mainStep_command server main db prompt
  simp only [ended, fgets_eof] at stepped
  by_cases exits : strcmp main.command (ascii "exit\n") = true
  · rw [if_pos exits] at stepped
    exact settles_exit stepped
  · rw [if_neg exits, quiet] at stepped
    have same : { main with prompt := .command, stdin := [] } = main := by
      rw [← prompt, ← ended]
    rw [same] at stepped
    use 0
    intro later _
    rw [Server.mainRun, run_stuck fun _ => stepped, Session.database]

theorem noCommand_fragment (read : Bytes) (fragment : newline ∉ read) : NoCommand read := by
  have exits : strcmp read (ascii "exit\n") = false :=
    strcmp_fragment fragment (ascii "exit") (by decide)
  have adds : strcmp read (ascii "adduser\n") = false :=
    strcmp_fragment fragment (ascii "adduser") (by decide)
  have removes : strcmp read (ascii "removeuser\n") = false :=
    strcmp_fragment fragment (ascii "removeuser") (by decide)
  unfold NoCommand requested
  rw [exits, adds, removes]
  exact ⟨rfl, rfl⟩

theorem mainStep_noCommand (server : Server) (main : MainState) (db : Db)
    (prompt : main.prompt = .command) (unread : main.stdin ≠ [])
    (other : NoCommand (takeLine 511 main.stdin).1) :
    server.mainStep ⟨main, db⟩ =
      .next ⟨{ main with
        prompt := .command, command := (takeLine 511 main.stdin).1
        stdin := (takeLine 511 main.stdin).2 }, db⟩ := by
  have stepped := mainStep_command server main db prompt
  simp only [fgets_of_ne_nil main.command 512 unread, Nat.reduceSub, other.1, other.2,
    Bool.false_eq_true, ↓reduceIte] at stepped
  exact stepped

theorem lineRead_last (server : Server) (line : Bytes) (db : Db) :
    server.lineRead .command [line] db = db := by
  unfold Server.lineRead readLines
  split
  · rfl
  · split
    · rfl
    · split <;> rfl

theorem lineRead_other (server : Server) (line : Bytes) (rest : List Bytes) (db : Db)
    (long : 511 ≤ line.length) :
    server.lineRead .command (line :: rest) db = server.lineRead .command rest db := by
  have other (word : Bytes) (short : word.length < 511) : line ≠ word := by
    rintro rfl
    omega
  unfold Server.lineRead
  rw [readLines, if_neg (other _ (by decide)), if_neg (other _ (by decide)),
    if_neg (other _ (by decide))]

/-- A read without a newline takes a last line or part of a long one; the line
reader passes over either. -/
theorem lineRead_fragment (server : Server) (stdin : Bytes) (db : Db) (unread : stdin ≠ [])
    (fragment : newline ∉ (takeLine 511 stdin).1) :
    server.lineRead .command (lines stdin) db =
      server.lineRead .command (lines (afterLine (takeLine 511 stdin).2)) db := by
  rw [← afterLine_of_fragment fragment]
  rcases line_cases stdin with single | ⟨line, rest, rfl, single⟩
  · rw [afterLine_last stdin single, lines_last stdin single unread, lineRead_last]
    rfl
  · rw [afterLine_line line rest single, lines_cons line rest single]
    apply lineRead_other
    by_contra short
    rw [takeLine_line 511 line rest single (by omega)] at fragment
    exact fragment (List.mem_append_right line List.mem_cons_self)

@[simp] theorem lineRead_nil (server : Server) (awaiting : Awaiting) (db : Db) :
    server.lineRead awaiting [] db = db := by
  cases awaiting <;> rfl

/-- A command line read whole leads the line reader where it leads `main`. -/
theorem lineRead_line (server : Server) (line : Bytes) (rest : List Bytes) (main : MainState)
    (db : Db)
    (single : newline ∉ line) (goes : line ≠ ascii "exit")
    (prompt : main.prompt = requested (line ++ [newline])) :
    server.lineRead .command (line :: rest) db = server.lineRead main.awaiting rest db := by
  have adds := strcmp_line line (ascii "adduser") single (by decide)
  have removes := strcmp_line line (ascii "removeuser") single (by decide)
  change strcmp (line ++ [newline]) (ascii "adduser\n") = true ↔ _ at adds
  change strcmp (line ++ [newline]) (ascii "removeuser\n") = true ↔ _ at removes
  simp only [requested, adds, removes] at prompt
  rw [Server.lineRead, readLines, if_neg goes]
  by_cases adding : line = ascii "adduser"
  · rw [if_pos adding] at prompt ⊢
    simp only [MainState.awaiting, prompt]
    rfl
  · rw [if_neg adding] at prompt ⊢
    by_cases removing : line = ascii "removeuser"
    · rw [if_pos removing] at prompt ⊢
      simp only [MainState.awaiting, prompt]
      rfl
    · rw [if_neg removing] at prompt ⊢
      simp only [MainState.awaiting, prompt]
      rfl

/-- `main` follows the line reader from every input shorter than a size: from the
start of a line, and from inside a line whose rest is no command. -/
def Server.Follows (server : Server) (size : Nat) : Prop :=
  ∀ main db, main.stdin.length < size →
    AllSteps (fun _ => server.mainStep) ⟨main, db⟩ (fun _ => LineWise) →
    server.Settles ⟨main, db⟩ (server.lineRead main.awaiting (lines main.stdin) db) ∧
      (main.prompt = .command → NoCommand (takeLine 511 main.stdin).1 →
        server.Settles ⟨main, db⟩ (server.lineRead .command (lines (afterLine main.stdin)) db))

section Follow

variable {server : Server} {size : Nat} {main : MainState} {db : Db}

/-- What the rest of a line leaves to do is what the line reader does after it. -/
theorem settles_inside (follows : server.Follows size) (short : main.stdin.length < size + 1)
    (lineWise : AllSteps (fun _ => server.mainStep) ⟨main, db⟩ fun _ => LineWise)
    (prompt : main.prompt = .command) (other : NoCommand (takeLine 511 main.stdin).1) :
    server.Settles ⟨main, db⟩ (server.lineRead .command (lines (afterLine main.stdin)) db) := by
  have here := lineWise.start
  simp only [LineWise, prompt] at here
  by_cases unread : main.stdin = []
  · rw [unread, afterLine_nil, lines_nil, lineRead_nil]
    exact settles_at_end server main db prompt unread (here.1 unread)
  · have stepped := mainStep_noCommand server main db prompt unread other
    have shorter := takeLine_rest_lt 511 main.stdin (by decide) unread
    have next := follows _ db (by dsimp only; omega) (lineWise.tail stepped)
    apply settles_next stepped
    by_cases whole : newline ∈ (takeLine 511 main.stdin).1
    · rw [afterLine_of_whole whole]
      exact next.1
    · rw [afterLine_of_fragment whole]
      exact next.2 rfl (here.2 whole)

theorem settles_command (follows : server.Follows size) (short : main.stdin.length < size + 1)
    (lineWise : AllSteps (fun _ => server.mainStep) ⟨main, db⟩ fun _ => LineWise)
    (prompt : main.prompt = .command) :
    server.Settles ⟨main, db⟩ (server.lineRead .command (lines main.stdin) db) := by
  have here := lineWise.start
  simp only [LineWise, prompt] at here
  by_cases unread : main.stdin = []
  · rw [unread, lines_nil, lineRead_nil]
    exact settles_at_end server main db prompt unread (here.1 unread)
  · have shorter := takeLine_rest_lt 511 main.stdin (by decide) unread
    by_cases whole : newline ∈ (takeLine 511 main.stdin).1
    · obtain ⟨line, read, single, split⟩ := takeLine_whole whole
      have exits := strcmp_line line (ascii "exit") single (by decide)
      change strcmp (line ++ [newline]) (ascii "exit\n") = true ↔ _ at exits
      have stepped := mainStep_command server main db prompt
      simp only [fgets_of_ne_nil main.command 512 unread, Nat.reduceSub, read, exits] at stepped
      have streamed : lines main.stdin = line :: lines (takeLine 511 main.stdin).2 := by
        conv_lhs => rw [split]
        exact lines_cons line _ single
      rw [streamed]
      by_cases exit : line = ascii "exit"
      · rw [if_pos exit] at stepped
        have done :
            server.lineRead .command (line :: lines (takeLine 511 main.stdin).2) db = db := by
          rw [Server.lineRead, readLines, if_pos exit]
          rfl
        rw [done]
        exact settles_exit stepped
      · rw [if_neg exit] at stepped
        have next := (follows _ db (by dsimp only; omega) (lineWise.tail stepped)).1
        apply settles_next stepped
        rwa [← lineRead_line server line _ _ db single exit rfl] at next
    · rw [lineRead_fragment server main.stdin db unread whole]
      have stepped := mainStep_noCommand server main db prompt unread (noCommand_fragment _ whole)
      have next := follows _ db (by dsimp only; omega) (lineWise.tail stepped)
      apply settles_next stepped
      exact next.2 rfl (here.2 whole)

/-- A name or password that is a whole line is the line reader's. -/
theorem settles_answer (follows : server.Follows size) (short : main.stdin.length < size + 1)
    (lineWise : AllSteps (fun _ => server.mainStep) ⟨main, db⟩ fun _ => LineWise)
    (prompt : main.prompt ≠ .command) :
    server.Settles ⟨main, db⟩ (server.lineRead main.awaiting (lines main.stdin) db) := by
  have here : ∃ line rest, WholeLine 64 main.stdin line rest := by
    have here := lineWise.start
    unfold LineWise at here
    split at here
    · contradiction
    · exact here
  obtain ⟨line, rest, whole⟩ := here
  obtain ⟨split, single, _, fits⟩ := id whole
  have fits : line.length ≤ 62 := by omega
  have shorter : rest.length < size := by
    have length := congrArg List.length split
    simp only [List.length_append, List.length_cons] at length
    omega
  have next {after : MainState} {left : Db}
      (stepped : server.mainStep ⟨main, db⟩ = .next ⟨after, left⟩) (unread : after.stdin = rest) :
      server.Settles ⟨main, db⟩ (server.lineRead after.awaiting (lines rest) left) := by
    apply settles_next stepped
    rw [← unread]
    exact (follows after left (by rw [unread]; exact shorter) (lineWise.tail stepped)).1
  rw [split, lines_cons line rest single]
  cases asked : main.prompt with
  | command => exact absurd asked prompt
  | addName =>
      have stepped := mainStep_addName server main db asked
      simp only [whole.fgets_eq, whole.cut] at stepped
      have settles := next stepped rfl
      simp only [MainState.awaiting, asked]
      unfold Server.lineRead at settles ⊢
      rw [readLines, if_pos fits, perform_bind, run_call, callAnswer_isUserExist]
      by_cases exist : server.exist (toStr line) db = 1
      · simpa only [exist, ↓reduceIte, MainState.awaiting] using settles
      · simpa only [exist, ↓reduceIte, MainState.awaiting] using settles
  | addPassword =>
      have stepped := mainStep_addPassword server main db asked
      simp only [whole.fgets_eq, whole.cut] at stepped
      have settles := next stepped rfl
      simp only [MainState.awaiting, asked]
      unfold Server.lineRead at settles ⊢
      rw [readLines, if_pos fits, perform_bind, run_call]
      exact settles
  | removeName =>
      have stepped := mainStep_removeName server main db asked
      simp only [whole.fgets_eq, whole.cut] at stepped
      have settles := next stepped rfl
      simp only [MainState.awaiting, asked]
      unfold Server.lineRead at settles ⊢
      rw [readLines, if_pos fits, perform_bind, run_call, callAnswer_isUserExist]
      by_cases exist : server.exist (toStr line) db = 1
      · simpa only [exist, ↓reduceIte, perform_bind, run_call, MainState.awaiting] using settles
      · simpa only [exist, ↓reduceIte, MainState.awaiting] using settles

end Follow

theorem follows_all (server : Server) (size : Nat) : server.Follows size := by
  induction size with
  | zero =>
      intro main db short
      omega
  | succ size ih =>
      intro main db short lineWise
      refine ⟨?_, settles_inside ih short lineWise⟩
      by_cases prompt : main.prompt = .command
      · have settles := settles_command ih short lineWise prompt
        rwa [← show main.awaiting = .command by simp only [MainState.awaiting, prompt]] at settles
      · exact settles_answer ih short lineWise prompt

/-- When every read keeps to lines, `main` does what the line reader does on the
lines of its input: the same statements in the same order, and then no more. -/
theorem readsLineByLine (server : Server) (stdin command username password : Bytes) (table : Table)
    (lineWise : AllSteps (fun _ => server.mainStep)
      (Session.start stdin command username password table) fun _ => LineWise) :
    server.Settles (Session.start stdin command username password table)
      (server.lineRead .command (lines stdin) ⟨table, []⟩) :=
  (follows_all server (stdin.length + 1) ⟨.command, stdin, command, username, password⟩ ⟨table, []⟩
    (Nat.lt_succ_self _) lineWise).1

theorem threeLines_lineByLine :
    Server.ideal.Settles (Session.start (ascii "adduser\nbob\npw\nexit\n") [] [] [] [])
      ⟨[⟨bob, secret⟩], [.select bob, .select bob, .insert bob secret]⟩ := by
  apply readsLineByLine
  intro count state reached
  have ended : Server.ideal.mainRun
      (Session.start (ascii "adduser\nbob\npw\nexit\n") [] [] [] []) 4 =
      .exit ⟨⟨.command, [], ascii "exit\n", ascii "bob", ascii "pw"⟩,
        ⟨[⟨bob, secret⟩], [.select bob, .select bob, .insert bob secret]⟩⟩ := by decide
  have early := lt_of_run_exit ended reached
  match count, early with
  | 0, _ =>
      cases reached
      exact ⟨fun ended => absurd ended (by decide), fun fragment => absurd fragment (by decide)⟩
  | 1, _ =>
      cases reached
      exact ⟨ascii "bob", ascii "pw\nexit\n", by decide⟩
  | 2, _ =>
      cases reached
      exact ⟨ascii "pw", ascii "exit\n", by decide⟩
  | 3, _ =>
      cases reached
      exact ⟨fun ended => absurd ended (by decide), fun fragment => absurd fragment (by decide)⟩

/-- A request to add a user whose name is one byte too long, and an exit. -/
def longName : Session :=
  Session.start (ascii "adduser\n" ++ List.replicate 63 97 ++ ascii "\nexit\n") [] [] [] []

/-- `main` cuts the long name to another user's, takes the rest of its line for
the password and adds that user. The line reader refuses. -/
theorem longName_adds_other :
    Server.ideal.mainRun longName 4 =
        .exit ⟨⟨.command, [], ascii "exit\n", List.replicate 62 97, []⟩,
        ⟨[⟨⟨List.replicate 62 97, by decide⟩, ⟨[], by decide⟩⟩],
          [.select ⟨List.replicate 62 97, by decide⟩, .select ⟨List.replicate 62 97, by decide⟩,
            .insert ⟨List.replicate 62 97, by decide⟩ ⟨[], by decide⟩]⟩⟩ ∧
      Server.ideal.lineRead .command (lines longName.main.stdin) longName.db = ⟨[], []⟩ ∧
      ¬ Server.ideal.Settles longName
        (Server.ideal.lineRead .command (lines longName.main.stdin) longName.db) := by
  have added : Server.ideal.mainRun longName 4 =
      .exit ⟨⟨.command, [], ascii "exit\n", List.replicate 62 97, []⟩,
        ⟨[⟨⟨List.replicate 62 97, by decide⟩, ⟨[], by decide⟩⟩],
          [.select ⟨List.replicate 62 97, by decide⟩, .select ⟨List.replicate 62 97, by decide⟩,
            .insert ⟨List.replicate 62 97, by decide⟩ ⟨[], by decide⟩]⟩⟩ := by decide
  have refused : Server.ideal.lineRead .command (lines longName.main.stdin) longName.db =
      ⟨[], []⟩ := by
    decide
  refine ⟨added, refused, ?_⟩
  rintro ⟨count, settled⟩
  have late := settled (count + 4) (by omega)
  rw [refused, Server.mainRun, run_exit_mono added (by omega), Session.database] at late
  exact absurd late (by decide)

end Scftp.UserMan

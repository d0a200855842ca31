import Scftp.UserMan.EndOfInput
import Scftp.UserMan.Injection

set_option autoImplicit false

/- The arrays `main` and the query builders write to: the index at which a name
or password is cut, and the statements put together in `query`. -/
namespace Scftp.UserMan

open CString Machine Program Program.Prog Stdin

/-- The `strcpy` and `strcat` calls that put a statement into `query`. -/
def Statement.assemble : Statement → Option (CharArray 512)
  | .select username => do
      let query ← strcpy (ascii "select * from users where username='")
      let query ← strcat username.bytes query
      strcat (ascii "';") query
  | .insert username password => do
      let query ← strcpy (ascii "INSERT INTO users values('")
      let query ← strcat username.bytes query
      let query ← strcat (ascii "','") query
      let query ← strcat password.bytes query
      strcat (ascii "');") query
  | .delete username => do
      let query ← strcpy (ascii "DELETE FROM users where username='")
      let query ← strcat username.bytes query
      strcat (ascii "';") query

/-- What a name or password prompt reads, and then cuts. -/
def MainState.answerRead (main : MainState) : Bytes := (fgets main.answerBuffer 64 main.stdin).1

/-- What is written lies in its array: the byte the next step cuts, and every
statement put together so far with its NUL. -/
structure InBounds (session : Session) : Prop where
  cut : session.main.prompt ≠ .command →
    0 < strlen session.main.answerRead ∧ strlen session.main.answerRead - 1 < 64
  query : ∀ statement ∈ session.db.issued, ∃ query, statement.assemble = some query

/-- A name or password prompt finds a byte, and not a NUL. -/
def Answered (session : Session) : Prop :=
  session.main.prompt ≠ .command → ∃ byte rest, session.main.stdin = byte :: rest ∧ byte ≠ 0

/-- The arguments of a statement are no longer than a cut line. -/
def Statement.Short : Statement → Prop
  | .select username => username.bytes.length ≤ 62
  | .insert username password => username.bytes.length ≤ 62 ∧ password.bytes.length ≤ 62
  | .delete username => username.bytes.length ≤ 62

/-- What the calls put together is one copy of the text. -/
theorem assemble_eq (statement : Statement) : statement.assemble = strcpy statement.text := by
  have select : (0 : UInt8) ∉ ascii "select * from users where username='" := by decide
  have insert : (0 : UInt8) ∉ ascii "INSERT INTO users values('" := by decide
  have between : (0 : UInt8) ∉ ascii "','" := by decide
  have delete : (0 : UInt8) ∉ ascii "DELETE FROM users where username='" := by decide
  cases statement with
  | select username =>
      simp only [Statement.assemble, Statement.text, Option.bind_eq_bind, ← Option.bind_assoc]
      rw [strcpy_strcat _ _ select, strcpy_strcat]
      simpa using ⟨select, username.noNul⟩
  | insert username password =>
      simp only [Statement.assemble, Statement.text, Option.bind_eq_bind, ← Option.bind_assoc]
      rw [strcpy_strcat _ _ insert, strcpy_strcat, strcpy_strcat, strcpy_strcat]
      · simpa using ⟨insert, username.noNul, between, password.noNul⟩
      · simpa using ⟨insert, username.noNul, between⟩
      · simpa using ⟨insert, username.noNul⟩
  | delete username =>
      simp only [Statement.assemble, Statement.text, Option.bind_eq_bind, ← Option.bind_assoc]
      rw [strcpy_strcat _ _ delete, strcpy_strcat]
      simpa using ⟨delete, username.noNul⟩

/-- The statement and its NUL lie in `query`. -/
def Statement.Fits (statement : Statement) : Prop := statement.text.length < 512

instance (statement : Statement) : Decidable statement.Fits :=
  inferInstanceAs (Decidable (statement.text.length < 512))

theorem text_noNul (statement : Statement) : (0 : UInt8) ∉ statement.text := by
  have select : (0 : UInt8) ∉ ascii "select * from users where username='" := by decide
  have insert : (0 : UInt8) ∉ ascii "INSERT INTO users values('" := by decide
  have between : (0 : UInt8) ∉ ascii "','" := by decide
  have delete : (0 : UInt8) ∉ ascii "DELETE FROM users where username='" := by decide
  have closed : (0 : UInt8) ∉ ascii "';" := by decide
  have ended : (0 : UInt8) ∉ ascii "');" := by decide
  cases statement with
  | select username => simpa [Statement.text] using ⟨select, username.noNul, closed⟩
  | insert username password =>
      simpa [Statement.text] using ⟨insert, username.noNul, between, password.noNul, ended⟩
  | delete username => simpa [Statement.text] using ⟨delete, username.noNul, closed⟩

theorem assemble_of_fits {statement : Statement} (fits : statement.Fits) :
    ∃ query, statement.assemble = some query ∧ query.bytes = statement.text := by
  rw [assemble_eq]
  exact exists_strcpy (text_noNul statement) fits

theorem assemble_bytes {statement : Statement} {query : CharArray 512}
    (assembled : statement.assemble = some query) : query.bytes = statement.text := by
  rw [assemble_eq] at assembled
  rw [strcpy_bytes assembled, cstr_of_noNul _ (text_noNul statement)]

theorem assemble_of_not_fits {statement : Statement} (overflows : ¬ statement.Fits) :
    statement.assemble = none := by
  rw [assemble_eq, strcpy, dif_neg]
  rwa [cstr_of_noNul _ (text_noNul statement)]

theorem text_length (statement : Statement) : statement.text.length = match statement with
    | .select username => username.bytes.length + 38
    | .insert username password => username.bytes.length + password.bytes.length + 32
    | .delete username => username.bytes.length + 36 := by
  have select : (ascii "select * from users where username='").length = 36 := by decide
  have insert : (ascii "INSERT INTO users values('").length = 26 := by decide
  have delete : (ascii "DELETE FROM users where username='").length = 34 := by decide
  have between : (ascii "','").length = 3 := by decide
  have closed : (ascii "';").length = 2 := by decide
  have ended : (ascii "');").length = 3 := by decide
  cases statement <;> simp only [Statement.text, List.length_append] <;> omega

theorem fits_of_short (statement : Statement) (short : statement.Short) : statement.Fits := by
  have length := text_length statement
  cases statement <;> simp only [Statement.Fits, Statement.Short] at length short ⊢ <;> omega

def Call.Fits : Call → Prop
  | .isUserExist username => (Statement.select username).Fits
  | .addUser username password =>
      (Statement.select username).Fits ∧ (Statement.insert username password).Fits
  | .removeUser username => (Statement.select username).Fits ∧ (Statement.delete username).Fits
  | .checkUserCredentials username _ => (Statement.select username).Fits

instance : DecidablePred Call.Fits
  | .isUserExist username => inferInstanceAs (Decidable (Statement.select username).Fits)
  | .addUser username password => inferInstanceAs
      (Decidable ((Statement.select username).Fits ∧ (Statement.insert username password).Fits))
  | .removeUser username => inferInstanceAs
      (Decidable ((Statement.select username).Fits ∧ (Statement.delete username).Fits))
  | .checkUserCredentials username _ =>
      inferInstanceAs (Decidable (Statement.select username).Fits)

/-- Arguments as long as the arrays of `main` are no risk to `query`. -/
theorem fits_of_pasted (call : Call) (sized : ∀ text ∈ call.pasted, text.bytes.length ≤ 64) :
    call.Fits := by
  cases call <;>
    simp only [Call.pasted, List.mem_cons, List.not_mem_nil, or_false, forall_eq_or_imp,
      forall_eq, Call.Fits, Statement.Fits, text_length] at sized ⊢ <;>
    omega

theorem callAnswer_short (server : Server) (call : Call) (db : Db)
    (earlier : ∀ statement ∈ db.issued, statement.Short)
    (arguments : ∀ text ∈ call.pasted, text.bytes.length ≤ 62) :
    ∀ statement ∈ (server.callAnswer call db).2.issued, statement.Short := by
  intro statement sent
  rcases issued_run server call.program db statement sent with before | reached
  · exact earlier statement before
  · have named := (mayCall_program call statement).mp reached
    cases call <;>
      simp only [Call.pasted, List.mem_cons, List.not_mem_nil, or_false, forall_eq_or_imp,
        forall_eq] at arguments named
    · rw [named]
      exact arguments
    · rcases named with rfl | rfl
      · exact arguments.1
      · exact arguments
    · rcases named with rfl | rfl
      · exact arguments
      · exact arguments
    · rw [named]
      exact arguments

/-- Everything sent so far is short, and so is a name that waits for its password. -/
structure Brief (session : Session) : Prop where
  sent : ∀ statement ∈ session.db.issued, statement.Short
  name : session.main.prompt = .addPassword → strlen session.main.username ≤ 62

theorem strlen_cut {buffer stdin text : Bytes} (unread : stdin ≠ [])
    (cut : cutLast (fgets buffer 64 stdin).1 = some text) : strlen text ≤ 62 := by
  obtain ⟨_, _, shorter⟩ := cutLast_eq_some cut
  have visible := cstr_length_le (fgets buffer 64 stdin).1
  have read := takeLine_length_le 63 stdin
  rw [fgets_of_ne_nil buffer 64 unread] at shorter visible
  rw [strlen] at shorter ⊢
  simp only [strlen, Nat.reduceSub] at shorter visible
  omega

theorem exist_short (server : Server) {username : Bytes} {db : Db}
    (earlier : ∀ statement ∈ db.issued, statement.Short) (short : strlen username ≤ 62) :
    ∀ statement ∈ (server.callAnswer (.isUserExist (toStr username)) db).2.issued,
      statement.Short := by
  apply callAnswer_short server _ db earlier
  simpa [Call.pasted, strlen] using short

theorem brief_step (server : Server) (before after : Session) (answered : Answered before)
    (brief : Brief before) (stepped : server.mainStep before = .next after) : Brief after := by
  obtain ⟨main, db⟩ := before
  cases prompt : main.prompt with
  | command =>
      rw [mainStep_command server main db prompt] at stepped
      dsimp only at stepped
      split at stepped
      · cases stepped
      · cases stepped
        refine ⟨brief.sent, ?_⟩
        intro impossible
        simp only [requested] at impossible
        split at impossible
        · cases impossible
        · split at impossible <;> cases impossible
  | addName =>
      obtain ⟨byte, rest, unread, _⟩ := answered (by simp [prompt])
      rw [mainStep_addName server main db prompt] at stepped
      dsimp only at stepped unread
      split at stepped
      · cases stepped
      · rename_i username cut
        cases stepped
        have short : strlen username ≤ 62 := strlen_cut (by simp [unread]) cut
        refine ⟨?_, fun _ => short⟩
        have sent := exist_short server brief.sent short
        rwa [callAnswer_isUserExist] at sent
  | addPassword =>
      obtain ⟨byte, rest, unread, _⟩ := answered (by simp [prompt])
      rw [mainStep_addPassword server main db prompt] at stepped
      dsimp only at stepped unread
      split at stepped
      · cases stepped
      · rename_i password cut
        cases stepped
        have short : strlen password ≤ 62 := strlen_cut (by simp [unread]) cut
        refine ⟨?_, by simp⟩
        apply callAnswer_short server _ db brief.sent
        have named : strlen main.username ≤ 62 := brief.name prompt
        simpa [Call.pasted] using ⟨named, short⟩
  | removeName =>
      obtain ⟨byte, rest, unread, _⟩ := answered (by simp [prompt])
      rw [mainStep_removeName server main db prompt] at stepped
      dsimp only at stepped unread
      split at stepped
      · cases stepped
      · rename_i username cut
        cases stepped
        have short : strlen username ≤ 62 := strlen_cut (by simp [unread]) cut
        have checked := exist_short server brief.sent short
        rw [callAnswer_isUserExist] at checked
        refine ⟨?_, by simp⟩
        dsimp only
        split
        · exact callAnswer_short server _ _ checked (by simpa [Call.pasted, strlen] using short)
        · exact checked

theorem Answered.cut {session : Session} (answered : Answered session)
    (request : session.main.prompt ≠ .command) :
    0 < strlen session.main.answerRead ∧ strlen session.main.answerRead - 1 < 64 := by
  obtain ⟨byte, rest, unread, nonzero⟩ := answered request
  have cut := cutLast_fgets session.main.answerBuffer rest byte
  rw [← unread, cutLast_eq_none] at cut
  have visible := cstr_length_le session.main.answerRead
  have read := takeLine_length_le 63 session.main.stdin
  rw [MainState.answerRead] at visible ⊢
  have positive : strlen (fgets session.main.answerBuffer 64 session.main.stdin).1 ≠ 0 :=
    fun zero => nonzero (cut.mp zero)
  rw [fgets_of_ne_nil _ 64 (by simp [unread])] at positive visible ⊢
  rw [strlen] at positive ⊢
  simp only [Nat.reduceSub] at positive visible ⊢
  omega

def Requesting (session : Session) : Prop :=
  session.main.prompt ≠ .command → requested session.main.command ≠ .command

theorem requesting_step (server : Server) (before after : Session) (inside : Requesting before)
    (stepped : server.mainStep before = .next after) : Requesting after := by
  obtain ⟨main, db⟩ := before
  by_cases prompt : main.prompt = .command
  · rw [mainStep_command server main db prompt] at stepped
    dsimp only at stepped
    split at stepped
    · cases stepped
    · cases stepped
      exact fun request => request
  · rcases mainStep_answer server main db prompt with ⟨broken, _⟩ | ⟨left, again, _, kept, _⟩
    · rw [broken] at stepped
      cases stepped
    · rw [again] at stepped
      cases stepped
      intro _
      rw [kept]
      exact inside prompt

def Spent (session : Session) : Prop :=
  session.main.stdin = [] ∧ requested session.main.command ≠ .command

/-- Bytes and prompts left before a spent `main` has cut its username away. -/
def bytesLeft (session : Session) : Nat :=
  match session.main.prompt with
  | .command => 3 * strlen session.main.username + 1
  | .addName => 3 * strlen session.main.username
  | .addPassword => 3 * strlen session.main.username + 2
  | .removeName => 3 * strlen session.main.username

theorem requested_exit {command : Bytes} (request : requested command ≠ .command) :
    strcmp command (ascii "exit\n") = false := by
  unfold requested at request
  split at request
  · rename_i adds
    exact strcmp_eq_false adds (by decide)
  · split at request
    · rename_i removes
      exact strcmp_eq_false removes (by decide)
    · exact absurd rfl request

theorem requested_cases (command : Bytes) :
    requested command = .command ∨ requested command = .addName ∨
      requested command = .removeName := by
  unfold requested
  split
  · exact Or.inr (Or.inl rfl)
  · split
    · exact Or.inr (Or.inr rfl)
    · exact Or.inl rfl

/-- A spent `main` that cuts within its buffers goes on to fewer bytes. -/
theorem spent_step (server : Server) (session : Session) (spent : Spent session)
    (bounds : InBounds session) :
    ∃ after, server.mainStep session = .next after ∧ Spent after ∧
      bytesLeft after < bytesLeft session := by
  obtain ⟨main, db⟩ := session
  obtain ⟨ended, request⟩ := spent
  dsimp only at ended request
  have cut := bounds.cut
  simp only [MainState.answerRead, MainState.answerBuffer, ended, fgets_eof] at cut
  cases prompt : main.prompt with
  | command =>
      have stepped := mainStep_command server main db prompt
      simp only [ended, fgets_eof, requested_exit request, Bool.false_eq_true, ↓reduceIte]
        at stepped
      refine ⟨_, stepped, ⟨rfl, request⟩, ?_⟩
      rcases requested_cases main.command with none | adds | removes
      · exact absurd none request
      · simp only [bytesLeft, adds, prompt]
        omega
      · simp only [bytesLeft, removes, prompt]
        omega
  | addName =>
      have positive := (cut (by simp [prompt])).1
      simp only [prompt] at positive
      obtain ⟨username, read, shorter⟩ := cutLast_some positive
      have stepped := mainStep_addName server main db prompt
      simp only [ended, fgets_eof, read] at stepped
      refine ⟨_, stepped, ⟨rfl, request⟩, ?_⟩
      by_cases found : server.exist (toStr username) db = 1
      · simp only [bytesLeft, prompt, found, ↓reduceIte]
        omega
      · simp only [bytesLeft, prompt, found, ↓reduceIte]
        omega
  | addPassword =>
      have positive := (cut (by simp [prompt])).1
      simp only [prompt] at positive
      obtain ⟨password, read, _⟩ := cutLast_some positive
      have stepped := mainStep_addPassword server main db prompt
      simp only [ended, fgets_eof, read] at stepped
      refine ⟨_, stepped, ⟨rfl, request⟩, ?_⟩
      simp only [bytesLeft, prompt]
      omega
  | removeName =>
      have positive := (cut (by simp [prompt])).1
      simp only [prompt] at positive
      obtain ⟨username, read, shorter⟩ := cutLast_some positive
      have stepped := mainStep_removeName server main db prompt
      simp only [ended, fgets_eof, read] at stepped
      refine ⟨_, stepped, ⟨rfl, request⟩, ?_⟩
      simp only [bytesLeft, prompt]
      omega

/-- Once spent, `main` cuts a byte from the name in every round, and in the end
from an empty one. -/
theorem not_inBounds_of_spent (server : Server) (session : Session) (spent : Spent session) :
    ¬ AllSteps (fun _ => server.mainStep) session fun _ => InBounds := by
  induction remaining : bytesLeft session using Nat.strongRecOn generalizing session with
  | ind left ih =>
      intro bounds
      obtain ⟨after, stepped, still, fewer⟩ := spent_step server session spent bounds.start
      exact ih (bytesLeft after) (by omega) after still rfl (bounds.tail stepped)

/-- Every index `main` and the builders write to is in range, in every run on
every table, exactly when each name and password prompt finds a byte of input
that is not a NUL. -/
theorem inBounds_iff (server : Server) (stdin command username password : Bytes) (table : Table) :
    let session := Session.start stdin command username password table
    AllSteps (fun _ => server.mainStep) session (fun _ => InBounds) ↔
      AllSteps (fun _ => server.mainStep) session fun _ => Answered := by
  intro session
  constructor
  · intro bounds count state reached request
    have held := bounds count state reached
    have inside := Machine.run_invariant (fun _ => Requesting)
      (fun impossible => absurd rfl impossible)
      (fun _ before after _ held stepped => requesting_step server before after held stepped)
      count state reached
    cases unread : state.main.stdin with
    | nil =>
        have spent : Spent state := ⟨unread, inside request⟩
        exact absurd (bounds.later reached) (not_inBounds_of_spent server state spent)
    | cons byte rest =>
        refine ⟨byte, rest, rfl, ?_⟩
        intro zero
        have cut := (cutLast_fgets state.main.answerBuffer rest byte).mpr zero
        rw [← unread, cutLast_eq_none] at cut
        have positive := (held.cut request).1
        rw [MainState.answerRead, cut] at positive
        cases positive
  · intro answered count state reached
    have brief := Machine.run_invariant (fun _ => Brief)
      ⟨by simp [session, Session.start], by simp [session, Session.start]⟩
      (fun earlier before after found held stepped =>
        brief_step server before after (answered earlier before found) held stepped)
      count state reached
    exact ⟨(answered count state reached).cut,
      fun statement sent => (assemble_of_fits (fits_of_short statement
        (brief.sent statement sent))).imp fun _ assembled => assembled.1⟩

/-- A name that begins with a NUL is cut at an index before its buffer. -/
theorem nul_out_of_bounds :
    ∃ state, Server.ideal.mainRun
        (Session.start (ascii "adduser\n" ++ [0, newline]) [] [] [] []) 1 = .next state ∧
      strlen state.main.answerRead = 0 ∧ ¬ InBounds state ∧
      Server.ideal.mainStep state = .fault := by
  refine ⟨⟨⟨.addName, [0, newline], ascii "adduser\n", [], []⟩, ⟨[], []⟩⟩, by decide, by decide, ?_,
    by decide⟩
  intro bounds
  exact absurd (bounds.cut (by decide)).1 (by decide)

end Scftp.UserMan

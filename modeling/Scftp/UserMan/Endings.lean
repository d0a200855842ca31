import Scftp.UserMan.Buffers

set_option autoImplicit false

/- How a run of `main` ends: by an exit, by a write outside a buffer, or never, with
the same command read again and again. -/
namespace Scftp.UserMan

open CString Machine Stdin

/-- Some steps lead to a fault. -/
def Server.Faults (server : Server) (session : Session) : Prop :=
  ∃ count, server.mainRun session count = .fault

/-- Some steps lead to a state that no step leaves. -/
def Server.Idles (server : Server) (session : Session) : Prop :=
  ∃ count idle, server.mainRun session count = .next idle ∧ server.mainStep idle = .next idle

/-- A username that is no longer than a read. -/
def Named (bound : Nat) (session : Session) : Prop := strlen session.main.username ≤ bound

/-- Reads of stdin still to come, and then rounds that cut the username. -/
def fate (bound : Nat) (session : Session) : Nat :=
  if session.main.stdin = [] then bytesLeft session
  else session.main.stdin.length + 3 * bound + 2

section Steps

variable {session : Session}

theorem bytesLeft_le {bound : Nat} (named : Named bound session) :
    bytesLeft session ≤ 3 * bound + 2 := by
  unfold Named at named
  unfold bytesLeft
  split <;> omega

theorem strlen_cut_le {bound : Nat} (room : 63 ≤ bound) {buffer stdin text : Bytes}
    (within : strlen buffer ≤ bound) (cut : cutLast (fgets buffer 64 stdin).1 = some text) :
    strlen text ≤ bound := by
  have shorter := (cutLast_eq_some cut).2.2
  by_cases ended : stdin = []
  · simp only [ended, fgets_eof] at shorter
    omega
  · have short := strlen_cut ended cut
    omega

theorem named_step {server : Server} {after : Session} {bound : Nat} (room : 63 ≤ bound)
    (named : Named bound session) (stepped : server.mainStep session = .next after) :
    Named bound after := by
  obtain ⟨_, username, _⟩ := mainStep_arrays stepped
  rcases username with same | cut
  · rwa [Named, same]
  · exact strlen_cut_le room named cut

/-- Behind the end of the input a request goes on with less of the name, until there
is nothing to cut. -/
theorem spent_falls (server : Server) (spent : Spent session) :
    server.mainStep session = .fault ∨
      ∃ after, server.mainStep session = .next after ∧ Spent after ∧
        bytesLeft after < bytesLeft session := by
  obtain ⟨main, db⟩ := session
  obtain ⟨ended, request⟩ := spent
  dsimp only at ended request
  cases prompt : main.prompt with
  | command =>
      have stepped := mainStep_command server main db prompt
      simp only [ended, fgets_eof, requested_exit request, Bool.false_eq_true, ↓reduceIte]
        at stepped
      refine Or.inr ⟨_, stepped, ⟨rfl, request⟩, ?_⟩
      rcases requested_cases main.command with none | adds | removes
      · exact absurd none request
      · simp only [bytesLeft, adds, prompt]
        omega
      · simp only [bytesLeft, removes, prompt]
        omega
  | addName =>
      have stepped := mainStep_addName server main db prompt
      simp only [ended, fgets_eof] at stepped
      cases cut : cutLast main.username with
      | none =>
          simp only [cut] at stepped
          exact Or.inl stepped
      | some username =>
          simp only [cut] at stepped
          obtain ⟨positive, _, shorter⟩ := cutLast_eq_some cut
          refine Or.inr ⟨_, stepped, ⟨rfl, request⟩, ?_⟩
          by_cases found : server.exist (toStr username) db = 1
          · simp only [bytesLeft, prompt, found, ↓reduceIte]
            omega
          · simp only [bytesLeft, prompt, found, ↓reduceIte]
            omega
  | addPassword =>
      have stepped := mainStep_addPassword server main db prompt
      simp only [ended, fgets_eof] at stepped
      cases cut : cutLast main.password with
      | none =>
          simp only [cut] at stepped
          exact Or.inl stepped
      | some password =>
          simp only [cut] at stepped
          refine Or.inr ⟨_, stepped, ⟨rfl, request⟩, ?_⟩
          simp only [bytesLeft, prompt]
          omega
  | removeName =>
      have stepped := mainStep_removeName server main db prompt
      simp only [ended, fgets_eof] at stepped
      cases cut : cutLast main.username with
      | none =>
          simp only [cut] at stepped
          exact Or.inl stepped
      | some username =>
          simp only [cut] at stepped
          obtain ⟨positive, _, shorter⟩ := cutLast_eq_some cut
          refine Or.inr ⟨_, stepped, ⟨rfl, request⟩, ?_⟩
          simp only [bytesLeft, prompt]
          omega

theorem faults_of_spent (server : Server) (spent : Spent session) : server.Faults session := by
  induction remaining : bytesLeft session using Nat.strongRecOn generalizing session with
  | ind left ih =>
      rcases spent_falls server spent with broken | ⟨after, goes, still, less⟩
      · exact ⟨1, by rw [Server.mainRun, run_succ_of_next run_zero, broken]⟩
      · obtain ⟨count, broken⟩ := ih (bytesLeft after) (by omega) still rfl
        exact ⟨count + 1, by rw [Server.mainRun, run_tail goes]; exact broken⟩

/-- With the input used up and no request in the buffer, nothing changes any more. -/
theorem mainStep_idle (server : Server) {main : MainState} {db : Db}
    (prompt : main.prompt = .command) (ended : main.stdin = [])
    (other : strcmp main.command (ascii "exit\n") = false)
    (none : requested main.command = .command) :
    server.mainStep ⟨main, db⟩ = .next ⟨main, db⟩ := by
  rw [mainStep_command server main db prompt]
  simp only [ended, fgets_eof, other, Bool.false_eq_true, ↓reduceIte, none, ← prompt]
  rw [← ended]

theorem unattended_faults (server : Server) (inside : Requesting session)
    (unread : session.main.stdin ≠ []) (alone : ¬ Attended session) :
    server.mainStep session = .fault := by
  have request : InRequest session := fun prompt => requested_exit (inside prompt)
  rcases unattended server session request alone with stuck | broken
  · exact absurd stuck.1 unread
  · exact broken

/-- A step ends the run, leaves everything as it is, or brings the end nearer. -/
theorem main_progress (server : Server) {bound : Nat} (room : 63 ≤ bound)
    (inside : Requesting session) (named : Named bound session) :
    (∃ left, server.mainStep session = .exit left) ∨ server.mainStep session = .fault ∨
      server.mainStep session = .next session ∨
      ∃ after, server.mainStep session = .next after ∧ (Requesting after ∧ Named bound after) ∧
        fate bound after < fate bound session := by
  by_cases attended : Attended session
  · rcases attended_progress server session attended with exits | ⟨after, goes, shorter⟩
    · exact Or.inl exits
    · have still := named_step room named goes
      refine Or.inr (Or.inr (Or.inr ⟨after, goes, ⟨requesting_step server _ _ inside goes,
        still⟩, ?_⟩))
      have unread : session.main.stdin ≠ [] := by
        rintro ended
        rw [ended] at shorter
        cases shorter
      have left := bytesLeft_le still
      rw [fate, fate, if_neg unread]
      split <;> omega
  · by_cases ended : session.main.stdin = []
    · by_cases request : requested session.main.command = .command
      · have prompt : session.main.prompt = .command := by
          by_contra other
          exact inside other request
        rw [attended_command session prompt, not_or, Bool.not_eq_true] at attended
        exact Or.inr (Or.inr (Or.inl (mainStep_idle server prompt ended attended.2 request)))
      · rcases spent_falls server ⟨ended, request⟩ with
          broken | ⟨after, goes, spent, less⟩
        · exact Or.inr (Or.inl broken)
        · refine Or.inr (Or.inr (Or.inr ⟨after, goes, ⟨requesting_step server _ _ inside goes,
            named_step room named goes⟩, ?_⟩))
          simpa only [fate, ended, spent.1, ↓reduceIte] using less
    · exact Or.inr (Or.inl (unattended_faults server inside ended attended))

end Steps

/-- `main` faults exactly when some name or password prompt does not find a byte, or
finds a NUL. -/
theorem faults_iff (server : Server) (session : Session) (start : Requesting session) :
    server.Faults session ↔ ¬ AllSteps (fun _ => server.mainStep) session fun _ => Answered := by
  constructor
  · rintro ⟨count, broken⟩ answered
    obtain ⟨earlier, before, reached, falls⟩ := run_fault broken
    have held := answered earlier before reached
    by_cases prompt : before.main.prompt = .command
    · rw [show before = ⟨before.main, before.db⟩ from rfl,
        mainStep_command server before.main before.db prompt] at falls
      dsimp only at falls
      split at falls <;> cases falls
    · rcases mainStep_answer server before.main before.db prompt with
        ⟨_, cut⟩ | ⟨after, goes, _⟩
      · have positive := (held.cut prompt).1
        rw [cutLast_eq_none] at cut
        rw [MainState.answerRead, cut] at positive
        cases positive
      · rw [show before = ⟨before.main, before.db⟩ from rfl, goes] at falls
        cases falls
  · intro unanswered
    simp only [AllSteps, Answered, not_forall] at unanswered
    obtain ⟨count, state, reached, request, missing⟩ := unanswered
    have inside := Machine.run_invariant (fun _ => Requesting) start
      (fun _ before after _ held stepped => requesting_step server before after held stepped)
      count state reached
    by_cases ended : state.main.stdin = []
    · obtain ⟨more, broken⟩ := faults_of_spent server ⟨ended, inside request⟩
      exact ⟨count + more, by rw [Server.mainRun, run_later reached]; exact broken⟩
    · have broken := unattended_faults server inside ended
        (by rwa [attended_answer state request])
      exact ⟨count + 1, by rw [Server.mainRun, run_succ_of_next reached, broken]⟩

/-- Every run ends or comes to rest within as many steps as there are bytes in the
input, and three for every byte of a name. It exits exactly when every read finds what
it needs, faults exactly when a name or password prompt finds no byte or a NUL, and
comes to rest in all other cases. -/
theorem main_settles (server : Server) (stdin command username password : Bytes) (table : Table) :
    let session := Session.start stdin command username password table
    let answered := AllSteps (fun _ => server.mainStep) session fun _ => Answered
    let attended := AllSteps (fun _ => server.mainStep) session fun _ => Attended
    (∃ count ≤ stdin.length + 3 * max 63 (strlen username) + 3,
        (∃ left, server.mainRun session count = .exit left) ∨
          server.mainRun session count = .fault ∨
          ∃ idle, server.mainRun session count = .next idle ∧
            server.mainStep idle = .next idle) ∧
      (Exits (fun _ => server.mainStep) session ↔ attended) ∧
      (server.Faults session ↔ ¬ answered) ∧
      (server.Idles session ↔ answered ∧ ¬ attended) := by
  intro session answered attended
  have asked : Requesting session := fun impossible => absurd rfl impossible
  have exits := exits_iff server session fun impossible => absurd rfl impossible
  have faults := faults_iff server session asked
  have settles := run_settles (fate (max 63 (strlen username)))
    (fun session => Requesting session ∧ Named (max 63 (strlen username)) session)
    (fun before held => main_progress server (Nat.le_max_left _ _) held.1 held.2)
    (show Requesting session ∧ Named _ session from ⟨asked, Nat.le_max_right _ _⟩)
  obtain ⟨count, within, settled⟩ := settles
  refine ⟨⟨count, ?_, settled⟩, exits, faults, ?_⟩
  · have start : fate (max 63 (strlen username)) session ≤
        stdin.length + 3 * max 63 (strlen username) + 2 := by
      have left := bytesLeft_le (show Named (max 63 (strlen username)) session from
        Nat.le_max_right _ _)
      unfold fate
      split
      · omega
      · exact Nat.le_refl _
    omega
  · constructor
    · rintro ⟨moment, idle, reached, rests⟩
      constructor
      · by_contra unanswered
        obtain ⟨later, broken⟩ := faults.mpr unanswered
        have still := run_rest reached rests (Nat.le_max_left moment later)
        rw [run_fault_mono broken (Nat.le_max_right moment later)] at still
        cases still
      · intro all
        obtain ⟨later, left, ended⟩ := exits.mpr all
        have still := run_rest reached rests (Nat.le_max_left moment later)
        rw [run_exit_mono ended (Nat.le_max_right moment later)] at still
        cases still
    · rintro ⟨all, alone⟩
      rcases settled with ⟨left, ended⟩ | broken | ⟨idle, reached, rests⟩
      · exact absurd (exits.mp ⟨count, left, ended⟩) alone
      · exact absurd all (faults.mp ⟨count, broken⟩)
      · exact ⟨count, idle, reached, rests⟩

end Scftp.UserMan

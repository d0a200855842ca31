import Scftp.UserMan.Transcript

set_option autoImplicit false

/- The whole program at the connection. Without quotes and backslashes in what it
reads, it keeps the library's order of calls; with arrays of their size it also does
to the server what its statements do, and its output tells which of them were
executed. -/
namespace Scftp.UserMan.Client

open CString Machine Program Program.Prog SqlText Stdin

theorem plain_of_subset {value text : Bytes} (subset : value ⊆ text) (plain : Plain text) :
    Plain value :=
  ⟨fun member => plain.1 (subset member), fun member => plain.2 (subset member)⟩

theorem plain_cstr {buffer : Bytes} (plain : Plain buffer) : Plain (toStr buffer).bytes :=
  plain_of_subset (List.takeWhile_sublist _).subset plain

theorem plain_cutLast {buffer text : Bytes} (plain : Plain buffer)
    (cut : cutLast buffer = some text) : Plain text := by
  obtain ⟨_, rfl, _⟩ := cutLast_eq_some cut
  exact plain_of_subset (List.dropLast_subset _) (plain_cstr plain)

theorem plain_rest (buffer : Bytes) (size : Nat) {stdin : Bytes} (unread : Plain stdin) :
    Plain (fgets buffer size stdin).2 := by
  by_cases ended : stdin = []
  · subst ended
    exact unread
  · have part := List.subset_append_right (fgets buffer size stdin).1 (fgets buffer size stdin).2
    rw [fgets_append buffer size ended] at part
    exact plain_of_subset part unread

theorem plain_read {buffer stdin : Bytes} (size : Nat) (plain : Plain buffer)
    (unread : Plain stdin) : Plain (fgets buffer size stdin).1 := by
  by_cases ended : stdin = []
  · subst ended
    exact plain
  · have part := List.subset_append_left (fgets buffer size stdin).1 (fgets buffer size stdin).2
    rw [fgets_append buffer size ended] at part
    exact plain_of_subset part unread

/-- What `main` has yet to read, and the names and passwords it holds, have no byte
that means something inside a literal. -/
structure Quoteless (main : MainState) : Prop where
  stdin : Plain main.stdin
  username : Plain main.username
  password : Plain main.password

/-- The name and the password `main` holds are no longer than their arrays. -/
structure Sized (main : MainState) : Prop where
  username : main.username.length ≤ 64
  password : main.password.length ≤ 64

theorem length_read {buffer : Bytes} (stdin : Bytes) (sized : buffer.length ≤ 64) :
    (fgets buffer 64 stdin).1.length ≤ 64 := by
  by_cases ended : stdin = []
  · rwa [ended, fgets_eof]
  · rw [fgets_of_ne_nil buffer 64 ended]
    have read := takeLine_length_le 63 stdin
    simp only [Nat.reduceSub]
    omega

theorem length_cutLast {buffer text : Bytes} (sized : buffer.length ≤ 64)
    (cut : cutLast buffer = some text) : text.length ≤ 64 := by
  obtain ⟨_, rfl, _⟩ := cutLast_eq_some cut
  have visible := cstr_length_le buffer
  rw [List.length_dropLast]
  omega

/-- Strings of arrays as long as those of `main` are no risk to `query`. -/
theorem fits_of_arrays {call : Call} (arrays : List Bytes)
    (pasted : call.pasted = arrays.map toStr) (sized : ∀ array ∈ arrays, array.length ≤ 64) :
    call.Fits := by
  refine fits_of_pasted call fun text member => ?_
  rw [pasted] at member
  obtain ⟨array, among, rfl⟩ := List.mem_map.mp member
  exact (cstr_length_le array).trans (sized array among)

theorem silent_prompt (prompt : Prompt) : Silent (promptText prompt) := by
  cases prompt <;> exact ⟨by decide, by decide⟩

section Steps

variable {wire : Wire} {state : State} {db : Db} {main : MainState}

theorem quoteless_next (server : Server) (db : Db) (quoteless : Quoteless main) {after : Session}
    (stepped : server.mainStep ⟨main, db⟩ = .next after) : Quoteless after.main := by
  obtain ⟨unread, name, word⟩ := quoteless
  obtain ⟨⟨buffer, size, rest⟩, username, password⟩ := mainStep_arrays stepped
  refine ⟨rest ▸ plain_rest buffer size unread, ?_, ?_⟩
  · rcases username with same | cut
    · rwa [same]
    · exact plain_cutLast (plain_read 64 name unread) cut
  · rcases password with same | cut
    · rwa [same]
    · exact plain_cutLast (plain_read 64 word unread) cut

theorem quoteless_run (server : Server) (quoteless : Quoteless main) {steps : Nat}
    {after : Session} (reached : server.mainRun ⟨main, db⟩ steps = .next after) :
    Quoteless after.main :=
  run_invariant (fun _ session => Quoteless session.main) quoteless
    (fun _ before _ _ held stepped => quoteless_next server before.db held stepped)
    steps after reached

theorem sized_next (server : Server) (db : Db) (sized : Sized main) {after : Session}
    (stepped : server.mainStep ⟨main, db⟩ = .next after) : Sized after.main := by
  obtain ⟨_, username, password⟩ := mainStep_arrays stepped
  constructor
  · rcases username with same | cut
    · exact same ▸ sized.username
    · exact length_cutLast (length_read main.stdin sized.username) cut
  · rcases password with same | cut
    · exact same ▸ sized.password
    · exact length_cutLast (length_read main.stdin sized.password) cut

theorem sized_run (server : Server) (sized : Sized main) {steps : Nat} {after : Session}
    (reached : server.mainRun ⟨main, db⟩ steps = .next after) : Sized after.main :=
  run_invariant (fun _ session => Sized session.main) sized
    (fun _ before _ _ held stepped => sized_next server before.db held stepped)
    steps after reached

/-- What was read as a name and cut is no risk to `query`. -/
theorem fits_of_name {call : Call} {username : Bytes}
    (cut : cutLast (fgets main.username 64 main.stdin).1 = some username)
    (pasted : call.pasted = [toStr username]) (sized : Sized main) : call.Fits := by
  have short := length_cutLast (length_read main.stdin sized.username) cut
  exact fits_of_arrays [username] pasted (by simpa using short)

/-- A step at the connection is the step over the queries API, or a write past `query`
where `main` holds more than its arrays do. -/
theorem mainStep_wp (mirrors : Mirrors wire state db) (quoteless : Quoteless main)
    {post : Outcome MainState → State → Prop}
    (overflows : ¬ Sized main → ∀ after, post .fault after)
    (goesOn : ∀ after,
      Mirrors wire after ((UserMan.mainStep main).run wire.server.callAnswer db).2 →
      post ((UserMan.mainStep main).run wire.server.callAnswer db).1 after) :
    (mainStep main).wp wire.answer Allowed post state := by
  have prompted := mirrors.silent (silent_prompt main.prompt)
  rw [mainStep, perform_bind, wp_call]
  refine ⟨trivial, ?_⟩
  change Prog.wp _ _ _ _ { state with output := state.output ++ [promptText main.prompt] }
  generalize { state with output := state.output ++ [promptText main.prompt] } = state at prompted ⊢
  cases prompt : main.prompt with
  | command =>
      simp only [UserMan.mainStep, prompt, pure_eq] at goesOn ⊢
      split
      · rename_i exits
        rw [if_pos exits] at goesOn
        exact goesOn _ prompted
      · rename_i stays
        rw [if_neg stays] at goesOn
        split
        · rename_i adds
          rw [if_pos adds] at goesOn
          exact goesOn _ prompted
        · rename_i other
          rw [if_neg other] at goesOn
          split
          · rename_i removes
            rw [if_pos removes] at goesOn
            exact goesOn _ prompted
          · rename_i unknown
            rw [if_neg unknown] at goesOn
            exact goesOn _ prompted
  | addName =>
      simp only [UserMan.mainStep, prompt, pure_eq, perform_bind] at goesOn ⊢
      cases cut : cutLast (fgets main.username 64 main.stdin).1 with
      | none =>
          simp only [cut, run_done] at goesOn
          exact goesOn _ prompted
      | some username =>
          simp only [cut, run_call, callAnswer_isUserExist] at goesOn
          have plain := plain_cutLast (plain_read 64 quoteless.username quoteless.stdin) cut
          rw [wp_bind]
          refine isUserExist_wp prompted (plain_cstr plain)
            (fun long => overflows fun sized => long (fits_of_name cut rfl sized))
            fun after kept => ?_
          dsimp only
          split
          · rename_i found
            rw [if_pos found] at goesOn
            exact ⟨trivial, goesOn _ (kept.silent ⟨by decide, by decide⟩)⟩
          · rename_i absent
            rw [if_neg absent] at goesOn
            exact goesOn _ kept
  | addPassword =>
      simp only [UserMan.mainStep, prompt, pure_eq, perform_bind] at goesOn ⊢
      cases cut : cutLast (fgets main.password 64 main.stdin).1 with
      | none =>
          simp only [cut, run_done] at goesOn
          exact goesOn _ prompted
      | some password =>
          simp only [cut, run_call] at goesOn
          have plain := plain_cutLast (plain_read 64 quoteless.password quoteless.stdin) cut
          have adds (sized : Sized main) :
              (Call.addUser (toStr main.username) (toStr password)).Fits := by
            have short := length_cutLast (length_read main.stdin sized.password) cut
            exact fits_of_arrays [main.username, password] rfl
              (by simpa using ⟨sized.username, short⟩)
          rw [wp_bind]
          exact addUser_wp prompted (plain_cstr quoteless.username) (plain_cstr plain)
            (fun long => overflows fun sized => long (adds sized)) goesOn
  | removeName =>
      simp only [UserMan.mainStep, prompt, pure_eq, perform_bind] at goesOn ⊢
      cases cut : cutLast (fgets main.username 64 main.stdin).1 with
      | none =>
          simp only [cut, run_done] at goesOn
          exact goesOn _ prompted
      | some username =>
          simp only [cut, run_call, callAnswer_isUserExist] at goesOn
          have plain := plain_cutLast (plain_read 64 quoteless.username quoteless.stdin) cut
          rw [wp_bind]
          refine isUserExist_wp prompted (plain_cstr plain)
            (fun long => overflows fun sized => long (fits_of_name cut rfl sized))
            fun after kept => ?_
          dsimp only
          split
          · rename_i found
            rw [if_pos found] at goesOn
            rw [wp_bind]
            exact removeUser_wp kept (plain_cstr plain)
              (fun long => overflows fun sized => long (fits_of_name cut rfl sized)) goesOn
          · rename_i absent
            rw [if_neg absent] at goesOn
            exact ⟨trivial, goesOn _ (kept.silent ⟨by decide, by decide⟩)⟩

/-- A run of the loop at the connection is the run over the queries API, with the
same exception. -/
theorem mainLoop_wp (mirrors : Mirrors wire state db) (quoteless : Quoteless main) (steps : Nat)
    {post : Outcome MainState → State → Prop}
    (overflows : ¬ Sized main → ∀ after, post .fault after)
    (goesOn : ∀ after,
      Mirrors wire after ((UserMan.mainLoop steps main).run wire.server.callAnswer db).2 →
      post ((UserMan.mainLoop steps main).run wire.server.callAnswer db).1 after) :
    (mainLoop steps main).wp wire.answer Allowed post state := by
  induction steps generalizing post with
  | zero => exact goesOn state mirrors
  | succ steps ih =>
      rw [mainLoop, wp_bind]
      refine ih (fun long after => overflows long after) fun after kept => ?_
      rw [UserMan.mainLoop, run_bind] at goesOn
      have reached := mainRun_eq wire.server ⟨main, db⟩ steps
      cases ran : (UserMan.mainLoop steps main).run wire.server.callAnswer db with
      | mk outcome between =>
          simp only [ran] at goesOn kept reached ⊢
          cases outcome with
          | next loop =>
              exact mainStep_wp kept (quoteless_run wire.server quoteless reached)
                (fun long => overflows fun sized => long (sized_run wire.server sized reached))
                goesOn
          | exit loop => exact goesOn after kept
          | fault => exact goesOn after kept

end Steps

/-- A call whose arguments have no byte that means something inside a literal. -/
def PlainCall : Call → Prop
  | .isUserExist username => Plain username.bytes
  | .addUser username password => Plain username.bytes ∧ Plain password.bytes
  | .removeUser username => Plain username.bytes
  | .checkUserCredentials username _ => Plain username.bytes

instance : DecidablePred PlainCall
  | .isUserExist username => inferInstanceAs (Decidable (Plain username.bytes))
  | .addUser username password =>
      inferInstanceAs (Decidable (Plain username.bytes ∧ Plain password.bytes))
  | .removeUser username => inferInstanceAs (Decidable (Plain username.bytes))
  | .checkUserCredentials username _ => inferInstanceAs (Decidable (Plain username.bytes))

/-- A call at the connection is the call answered by the server. -/
theorem program_wp {wire : Wire} {state : State} {db : Db} (mirrors : Mirrors wire state db)
    (call : Call) (plain : PlainCall call) (fits : call.Fits) {post : Option Int → State → Prop}
    (goesOn : ∀ after, Mirrors wire after (wire.server.callAnswer call db).2 →
      post (some (wire.server.callAnswer call db).1) after) :
    (program call).wp wire.answer Allowed post state := by
  have overflows (long : ¬ call.Fits) (after : State) : post none after := absurd fits long
  cases call with
  | isUserExist username =>
      rw [callAnswer_isUserExist] at goesOn
      exact isUserExist_wp mirrors plain overflows goesOn
  | addUser username password => exact addUser_wp mirrors plain.1 plain.2 overflows goesOn
  | removeUser username => exact removeUser_wp mirrors plain overflows goesOn
  | checkUserCredentials username password =>
      exact checkUserCredentials_wp mirrors plain overflows goesOn

/-- A connection that is open, before any query. -/
def State.opened (table : Table) : State := ⟨.connected, table, [], none, [], []⟩

theorem mirrors_opened (wire : Wire) (table : Table) :
    Mirrors wire (.opened table) ⟨table, []⟩ where
  connected := rfl
  idle := rfl
  table := rfl
  sent := rfl
  held := rfl
  drained _ member := absurd member List.not_mem_nil
  added := rfl
  removed := rfl

/-- A server that starts, connects and never fails. -/
def steadyWire : Wire := ⟨true, true, Server.ideal, id, fun _ _ => none, fun _ => []⟩

/-- Any program over the queries API, whatever the failures, does at the connection
what its calls do on the table, as long as no argument has a quote or a backslash and
every statement fits into `query`: the same value, the same table and the statements'
own texts, every call of the library in its order. -/
theorem queries_refine {α : Type} (wire : Wire) (prog : Prog Call Int α) (table : Table)
    (plain : ∀ record ∈ prog.records wire.server.callAnswer ⟨table, []⟩, PlainCall record.op)
    (fits : ∀ record ∈ prog.records wire.server.callAnswer ⟨table, []⟩, record.op.Fits) :
    let low := (prog.attempt program).run wire.answer (.opened table)
    let high := prog.run wire.server.callAnswer ⟨table, []⟩
    low.1 = some high.1 ∧ low.2.table = high.2.table ∧
      low.2.sent = high.2.issued.map Statement.text ∧
      ∀ record ∈ (prog.attempt program).records wire.answer (.opened table),
        Allowed record.op record.before := by
  have whole := (wp_iff _ _).mp (attempt_wp wire.server.callAnswer (Mirrors wire)
    (fun call => PlainCall call ∧ call.Fits)
    (fun call _ _ asked kept _ goesOn => program_wp kept call asked.1 asked.2 goesOn) prog
    (mirrors_opened wire table) (fun record member => ⟨plain record member, fits record member⟩)
    (fun value after => value = some (prog.run wire.server.callAnswer ⟨table, []⟩).1 ∧
      Mirrors wire after (prog.run wire.server.callAnswer ⟨table, []⟩).2)
    fun after kept => ⟨rfl, kept⟩)
  exact ⟨whole.2.1, whole.2.2.table, whole.2.2.sent, whole.1⟩

/-- A name is added, and its password is accepted. -/
theorem adding_refines :
    (((Prog.sequence [.addUser bob secret, .checkUserCredentials bob secret]).attempt program).run
      steadyWire.answer (.opened [])).1 = some [1, 1] :=
  (queries_refine steadyWire
    (Prog.sequence [.addUser bob secret, .checkUserCredentials bob secret]) [] (by decide)
    (by decide)).1

/-- Whether `main` comes to its loop. -/
def Wire.Opens (wire : Wire) (argc : Nat) : Prop :=
  3 ≤ argc ∧ wire.inits = true ∧ wire.connects = true

instance (wire : Wire) (argc : Nat) : Decidable (wire.Opens argc) :=
  inferInstanceAs (Decidable (_ ∧ _ ∧ _))

/-- Before any call of the library. -/
def State.fresh (table : Table) : State := ⟨.null, table, [], none, [], []⟩

def Progress.ofLoop : Outcome MainState → Progress
  | .next main => .looping main
  | .exit _ => .returned 0
  | .fault => .fault

/-- `main` over the queries API, from a table. -/
def Wire.loopRun (wire : Wire) (steps : Nat) (main : MainState) (table : Table) :
    Outcome MainState × Db :=
  (UserMan.mainLoop steps main).run wire.server.callAnswer ⟨table, []⟩

/-- What `main` has done when it does not come to its loop. -/
structure Refused (table : Table) (progress : Progress) (after : State) : Prop where
  refused : progress = .returned (-1)
  handle : after.handle = .null ∨ after.handle = .closed
  table : after.table = table
  sent : after.sent = []

/-- What `main` has done when it does: the loop's run, with the connection closed
once it has returned. -/
structure Looped (wire : Wire) (loop : Outcome MainState × Db) (progress : Progress)
    (after : State) : Prop where
  reached : progress = .ofLoop loop.1
  handle : ∀ status, progress = .returned status → after.handle = .closed
  mirrors : Mirrors wire { after with handle := .connected } loop.2

theorem afterLoop_wp {wire : Wire} {state : State} {db : Db} (mirrors : Mirrors wire state db)
    (outcome : Outcome MainState) {post : Progress → State → Prop}
    (goesOn : ∀ progress after, Looped wire (outcome, db) progress after → post progress after) :
    (afterLoop outcome).wp wire.answer Allowed post state := by
  have connected : { state with handle := .connected } = state := by rw [← mirrors.connected]
  cases outcome with
  | next main => exact goesOn _ _ ⟨rfl, fun _ returned => (by cases returned), connected ▸ mirrors⟩
  | exit main =>
      exact ⟨Or.inr mirrors.connected, goesOn _ _ ⟨rfl, fun _ _ => rfl, connected ▸ mirrors⟩⟩
  | fault => exact goesOn _ _ ⟨rfl, fun _ returned => (by cases returned), connected ▸ mirrors⟩

/-- `main` at the connection, from its first call on. -/
theorem main_wp (wire : Wire) (argc steps : Nat) {main : MainState} (quoteless : Quoteless main)
    (table : Table) :
    (Client.main argc steps main).wp wire.answer Allowed
      (fun progress after =>
        if wire.Opens argc then
          Looped wire (wire.loopRun steps main table) progress after ∨
            progress = .fault ∧ ¬ Sized main
        else Refused table progress after) (.fresh table) := by
  by_cases few : argc < 3
  · have closed : ¬ wire.Opens argc := fun opens => by
      have := opens.1
      omega
    simp only [Client.main, few, ↓reduceIte, closed]
    exact ⟨trivial, trivial, rfl, Or.inl rfl, rfl, rfl⟩
  · simp only [Client.main, few, ↓reduceIte, perform_bind, wp_call]
    refine ⟨rfl, ?_⟩
    cases inits : wire.inits with
    | false =>
        have closed : ¬ wire.Opens argc := fun opens => by simp [opens.2.1] at inits
        simp only [Wire.answer, inits, closed, ↓reduceIte]
        exact ⟨trivial, trivial, rfl, Or.inl rfl, rfl, rfl⟩
    | true =>
        simp only [Wire.answer, inits, ↓reduceIte, Bool.true_eq_false]
        refine ⟨rfl, ?_⟩
        cases connects : wire.connects with
        | false =>
            have closed : ¬ wire.Opens argc := fun opens => by simp [opens.2.2] at connects
            simp only [Wire.answer, connects, closed, ↓reduceIte]
            exact ⟨trivial, trivial, Or.inl rfl, rfl, Or.inr rfl, rfl, rfl⟩
        | true =>
            have opens : wire.Opens argc := ⟨by omega, inits, connects⟩
            simp only [Wire.answer, connects, opens, ↓reduceIte, Bool.true_eq_false]
            refine ⟨trivial, ?_⟩
            rw [wp_bind]
            have opened := (mirrors_opened wire table).silent
              (show Silent (ascii "Connected to database successfully\n") from
                ⟨by decide, by decide⟩)
            exact mainLoop_wp opened quoteless steps (fun long _ => Or.inr ⟨rfl, long⟩)
              fun after kept => afterLoop_wp kept _ fun _ _ looped => Or.inl looped

/-- With arrays of their size nothing is written past `query`. -/
theorem main_looped (wire : Wire) (argc steps : Nat) {main : MainState}
    (quoteless : Quoteless main) (sized : Sized main) (opens : wire.Opens argc) (table : Table) :
    Looped wire (wire.loopRun steps main table)
      ((Client.main argc steps main).run wire.answer (.fresh table)).1
      ((Client.main argc steps main).run wire.answer (.fresh table)).2 := by
  obtain ⟨_, ran⟩ := (wp_iff _ _).mp (main_wp wire argc steps quoteless table)
  rw [if_pos opens] at ran
  rcases ran with looped | ⟨_, long⟩
  · exact looped
  · exact absurd sized long

/-- A name is added and removed again. -/
def removingBob : MainState :=
  ⟨.command, ascii "adduser\nbob\npw\nremoveuser\nbob\n", [], [], []⟩

theorem removing_quoteless : Quoteless removingBob := ⟨by decide, by decide, by decide⟩

theorem removing_sized : Sized removingBob := ⟨by decide, by decide⟩

section Results

variable (wire : Wire) (argc steps : Nat) {main : MainState}

/-- The library is called in its order over the whole run, on every input without
quotes and backslashes and whatever fails, and the connection is not open once `main`
has returned. -/
theorem main_conforms (quoteless : Quoteless main) (table : Table) :
    (∀ record ∈ (Client.main argc steps main).records wire.answer (.fresh table),
      Allowed record.op record.before) ∧
      ∀ status, ((Client.main argc steps main).run wire.answer (.fresh table)).1 =
          .returned status →
        ((Client.main argc steps main).run wire.answer (.fresh table)).2.handle = .null ∨
          ((Client.main argc steps main).run wire.answer (.fresh table)).2.handle = .closed := by
  obtain ⟨allowed, ran⟩ := (wp_iff _ _).mp (main_wp wire argc steps quoteless table)
  refine ⟨allowed, fun status returned => ?_⟩
  split at ran
  · rcases ran with looped | ⟨fault, _⟩
    · exact Or.inr (looped.handle status returned)
    · rw [fault] at returned
      cases returned
  · exact ran.handle

/-- A name is added, and `main` is left. -/
def leavingBob : MainState := ⟨.command, ascii "adduser\nbob\npw\nexit\n", [], [], []⟩

theorem leaving_conforms :
    let prog := Client.main 3 4 leavingBob
    (prog.records steadyWire.answer (.fresh [])).Forall
        (fun record => Allowed record.op record.before) ∧
      ((prog.run steadyWire.answer (.fresh [])).2.handle = .null ∨
        (prog.run steadyWire.answer (.fresh [])).2.handle = .closed) := by
  have conforms := main_conforms steadyWire 3 4
    (show Quoteless leavingBob from ⟨by decide, by decide, by decide⟩) []
  exact ⟨List.forall_iff_forall_mem.mpr conforms.1, conforms.2 0 (by decide +kernel)⟩

/-- `main` at the connection does what its loop over the queries API does, statement
for statement, once it is connected, and nothing before. -/
theorem main_refines (quoteless : Quoteless main) (sized : Sized main) (table : Table) :
    let ran := (Client.main argc steps main).run wire.answer (.fresh table)
    let loop := wire.loopRun steps main table
    (wire.Opens argc → ran.1 = .ofLoop loop.1 ∧ ran.2.table = loop.2.table ∧
      ran.2.sent = loop.2.issued.map Statement.text) ∧
      (¬ wire.Opens argc → ran.1 = .returned (-1) ∧ ran.2.table = table ∧ ran.2.sent = []) := by
  constructor
  · intro opens
    have looped := main_looped wire argc steps quoteless sized opens table
    exact ⟨looped.reached, looped.mirrors.table, looped.mirrors.sent⟩
  · intro closed
    obtain ⟨_, ran⟩ := (wp_iff _ _).mp (main_wp wire argc steps quoteless table)
    rw [if_neg closed] at ran
    exact ⟨ran.refused, ran.table, ran.sent⟩

theorem removing_refines :
    ((Client.main 3 5 removingBob).run steadyWire.answer (.fresh [])).2.table = [] :=
  ((main_refines steadyWire 3 5 removing_quoteless removing_sized []).1 (by decide)).2.1

/-- Every result that was stored is fetched to its end and stays allocated: `main`
holds one for each SELECT whose rows came back. -/
theorem main_holds (quoteless : Quoteless main) (sized : Sized main)
    (opens : wire.Opens argc) (table : Table) :
    let ran := (Client.main argc steps main).run wire.answer (.fresh table)
    ran.2.results.length = stored wire.server (wire.loopRun steps main table).2.issued ∧
      ∀ rows ∈ ran.2.results, rows = [] := by
  have looped := main_looped wire argc steps quoteless sized opens table
  exact ⟨looped.mirrors.held, looped.mirrors.drained⟩

/-- Each command asks once, or twice where it then changes the table. -/
theorem removing_holds :
    ((Client.main 3 5 removingBob).run steadyWire.answer (.fresh [])).2.results.length = 4 :=
  (main_holds steadyWire 3 5 removing_quoteless removing_sized (by decide) []).1

end Results

end Scftp.UserMan.Client

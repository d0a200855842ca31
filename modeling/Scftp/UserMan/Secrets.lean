import Scftp.UserMan.Whole

set_option autoImplicit false

/- What the program shows of the passwords in the table: nothing. Two tables with
the same names are one to it, down to the calls of the library and every line it
prints. -/
namespace Scftp.UserMan.Client

open CString Machine Program Program.Prog SqlText Stdin

def names (rows : List Row) : List Str := rows.map Row.username

/-- Results that tell the same of names. -/
structure Returned.Alike (returned twin : Returned) : Prop where
  handle : returned.handle = twin.handle
  status : returned.status = twin.status
  res : returned.res = twin.res
  rows : returned.rows = twin.rows
  row : returned.row.map Row.username = twin.row.map Row.username
  message : returned.message = twin.message

/-- States that differ in passwords at most. -/
structure State.Alike (state twin : State) : Prop where
  handle : state.handle = twin.handle
  table : names state.table = names twin.table
  sent : state.sent = twin.sent
  pending : state.pending.map names = twin.pending.map names
  results : state.results.map names = twin.results.map names
  output : state.output = twin.output

/-- Queries that are read as a statement. -/
def Meant (wire : Wire) : Api → Prop
  | .mysqlQuery query =>
      ∃ statement : Statement, query = statement.text ∧ statement.ReadAsMeant wire.unescape
  | _ => True

section Answers

variable {wire : Wire} {state twin : State}

theorem Returned.Alike.refl (returned : Returned) : returned.Alike returned :=
  ⟨rfl, rfl, rfl, rfl, rfl, rfl⟩

theorem names_filter (keep : Str → Bool) (rows : List Row) :
    names (rows.filter fun row => keep row.username) = (names rows).filter keep := by
  rw [names, names, List.filter_map]
  rfl

/-- A statement goes by names alone. -/
theorem execute_names (server : Server) (statement : Statement) {table other : Table}
    (same : names table = names other) :
    names (server.execute statement table).1 = names (server.execute statement other).1 ∧
      names (server.execute statement table).2 = names (server.execute statement other).2 := by
  cases statement with
  | select username =>
      refine ⟨same, ?_⟩
      change names (table.filter fun row => server.sameName row.username username) =
        names (other.filter fun row => server.sameName row.username username)
      rw [names_filter (server.sameName · username), names_filter (server.sameName · username),
        same]
  | insert username password =>
      refine ⟨?_, rfl⟩
      change names (table ++ [⟨username, password⟩]) = names (other ++ [⟨username, password⟩])
      simp only [names, List.map_append] at same ⊢
      rw [same]
  | delete username =>
      refine ⟨?_, rfl⟩
      change names (table.filter fun row => !server.sameName row.username username) =
        names (other.filter fun row => !server.sameName row.username username)
      rw [names_filter (!server.sameName · username), names_filter (!server.sameName · username),
        same]

theorem answer_query (alike : state.Alike twin) {statement : Statement}
    (meant : statement.ReadAsMeant wire.unescape) :
    (wire.answer (.mysqlQuery statement.text) state).1.Alike
        (wire.answer (.mysqlQuery statement.text) twin).1 ∧
      (wire.answer (.mysqlQuery statement.text) state).2.Alike
        (wire.answer (.mysqlQuery statement.text) twin).2 := by
  have same := execute_names wire.server statement alike.table
  simp only [Wire.answer, alike.sent]
  cases fails : wire.server.queryFails twin.sent.length with
  | true =>
      exact ⟨.refl _, alike.handle, alike.table, rfl, alike.pending, alike.results, alike.output⟩
  | false =>
      cases statement with
      | select username =>
          simp only [execute_select wire meant]
          exact ⟨.refl _, alike.handle, alike.table, rfl, congrArg some same.2, alike.results,
            alike.output⟩
      | insert username password =>
          simp only [execute_change wire meant (by simp)]
          exact ⟨.refl _, alike.handle, same.1, rfl, rfl, alike.results, alike.output⟩
      | delete username =>
          simp only [execute_change wire meant (by simp)]
          exact ⟨.refl _, alike.handle, same.1, rfl, rfl, alike.results, alike.output⟩

theorem answer_store (alike : state.Alike twin) :
    (wire.answer .mysqlStoreResult state).1.Alike (wire.answer .mysqlStoreResult twin).1 ∧
      (wire.answer .mysqlStoreResult state).2.Alike (wire.answer .mysqlStoreResult twin).2 := by
  have pending := alike.pending
  have count : state.results.length = twin.results.length := by
    simpa using congrArg List.length alike.results
  simp only [Wire.answer, alike.sent]
  cases first : state.pending with
  | none =>
      rw [first] at pending
      have second := Option.map_eq_none_iff.mp pending.symm
      simp only [second]
      exact ⟨.refl _, alike⟩
  | some rows =>
      rw [first] at pending
      obtain ⟨others, second, same⟩ := Option.map_eq_some_iff.mp pending.symm
      simp only [second]
      split
      · exact ⟨.refl _, alike.handle, alike.table, rfl, rfl, alike.results, alike.output⟩
      · have fetched : rows.length = others.length := by
          simpa [names] using congrArg List.length same.symm
        refine ⟨⟨rfl, rfl, congrArg some count, fetched, rfl, rfl⟩, alike.handle, alike.table,
          rfl, rfl, ?_, alike.output⟩
        simp only [List.map_append, alike.results, List.map_cons, same]

theorem answer_fetch (alike : state.Alike twin) (res : Nat) :
    (wire.answer (.mysqlFetchRow res) state).1.Alike (wire.answer (.mysqlFetchRow res) twin).1 ∧
      (wire.answer (.mysqlFetchRow res) state).2.Alike
        (wire.answer (.mysqlFetchRow res) twin).2 := by
  have left : (state.results[res]?).map names = (twin.results[res]?).map names := by
    rw [← List.getElem?_map, ← List.getElem?_map, alike.results]
  simp only [Wire.answer]
  cases first : state.results[res]? with
  | none =>
      rw [first] at left
      simp only [Option.map_eq_none_iff.mp left.symm]
      exact ⟨.refl _, alike⟩
  | some rows =>
      rw [first] at left
      obtain ⟨others, second, same⟩ := Option.map_eq_some_iff.mp left.symm
      simp only [second]
      cases rows with
      | nil =>
          rw [List.map_eq_nil_iff.mp same]
          exact ⟨.refl _, alike⟩
      | cons row rest =>
          obtain ⟨other, more, rfl, named, others⟩ := List.map_eq_cons_iff.mp same
          refine ⟨⟨rfl, rfl, rfl, rfl, congrArg some named.symm, rfl⟩, alike.handle, alike.table,
            alike.sent, alike.pending, ?_, alike.output⟩
          simp only [List.map_set, alike.results]
          exact congrArg _ others.symm

/-- Calls that are answered alike from states that are alike. -/
theorem answer_alike (op : Api) (meant : Meant wire op) (alike : state.Alike twin) :
    (wire.answer op state).1.Alike (wire.answer op twin).1 ∧
      (wire.answer op state).2.Alike (wire.answer op twin).2 := by
  have whole := alike
  obtain ⟨handle, table, sent, pending, results, output⟩ := alike
  cases op with
  | mysqlInit =>
      simp only [Wire.answer]
      cases wire.inits with
      | false => exact ⟨.refl _, whole⟩
      | true => exact ⟨.refl _, rfl, table, sent, pending, results, output⟩
  | mysqlRealConnect =>
      simp only [Wire.answer]
      cases wire.connects with
      | false => exact ⟨.refl _, whole⟩
      | true => exact ⟨.refl _, rfl, table, sent, pending, results, output⟩
  | mysqlQuery query =>
      obtain ⟨statement, rfl, read⟩ := meant
      exact answer_query whole read
  | mysqlStoreResult => exact answer_store whole
  | mysqlFetchRow res => exact answer_fetch whole res
  | mysqlError =>
      simp only [Wire.answer, sent]
      exact ⟨.refl _, handle, table, sent, pending, results, output⟩
  | mysqlClose => exact ⟨.refl _, rfl, table, sent, pending, results, output⟩
  | printf text =>
      exact ⟨.refl _, handle, table, sent, pending, results, congrArg (· ++ [text]) output⟩
  | fprintfStderr text => exact ⟨.refl _, handle, table, sent, pending, results, output⟩

end Answers

section Programs

variable {wire : Wire}

/-- A program that goes by names alone and sends statements that are read as meant. -/
abbrev GoesByNames {α : Type} (wire : Wire) (returns : α → Prop) (prog : Prog Api Returned α) :
    Prop :=
  prog.Agree Returned.Alike (Meant wire) returns prog

theorem fetchLoop_byNames (res : Nat) {hit : Row → Bool}
    (named : ∀ row other : Row, row.username = other.username → hit row = hit other) :
    ∀ (rows : Nat) (flag : Int),
      GoesByNames wire (fun _ => True) (fetchLoop res hit rows flag) := by
  intro rows
  induction rows with
  | zero => exact fun flag => agree_done trivial
  | succ rows ih =>
      intro flag
      rw [fetchLoop]
      refine agree_perform trivial fun fetched twin alike => ?_
      have row := alike.row
      cases first : fetched.row with
      | none =>
          rw [first] at row
          rw [Option.map_eq_none_iff.mp row.symm]
          exact agree_done trivial
      | some found =>
          rw [first] at row
          obtain ⟨other, second, same⟩ := Option.map_eq_some_iff.mp row.symm
          simp only [second, named found other same.symm]
          exact ih _

theorem reportError_byNames : GoesByNames wire (fun _ => True) reportError := by
  refine agree_perform trivial fun error twin alike => ?_
  rw [alike.message]
  exact agree_perform trivial fun _ _ _ => agree_done trivial

theorem isUserExist_byNames {username : Str} (plain : Plain username.bytes) :
    GoesByNames wire (fun _ => True) (isUserExist username) := by
  have meant := (select_readAsMeant wire.unescape username).mpr plain
  unfold isUserExist selectUsers
  split
  · rename_i query assembled
    refine agree_perform ⟨_, assemble_bytes assembled, meant⟩ fun sent twin alike => ?_
    rw [alike.status]
    split
    · exact reportError_byNames.bind fun _ _ => agree_done trivial
    · refine agree_perform trivial fun stored other alike => ?_
      rw [alike.res, alike.rows]
      split
      · exact reportError_byNames.bind fun _ _ => agree_done trivial
      · exact (fetchLoop_byNames _ (fun row other same => by rw [same]) _ _).bind
          fun _ _ => agree_done trivial
  · exact agree_done trivial

theorem changeUsers_byNames {statement : Statement} (meant : statement.ReadAsMeant wire.unescape)
    (success : Bytes) : GoesByNames wire (fun _ => True) (changeUsers statement success) := by
  unfold changeUsers
  split
  · rename_i query assembled
    refine agree_perform ⟨statement, assemble_bytes assembled, meant⟩ fun sent twin alike => ?_
    rw [alike.status]
    split
    · refine agree_perform trivial fun error twin alike => ?_
      rw [alike.message]
      exact agree_perform trivial fun _ _ _ => agree_done trivial
    · exact agree_perform trivial fun _ _ _ => agree_done trivial
  · exact agree_done trivial

theorem addUser_byNames {username password : Str} (plain : Plain username.bytes)
    (plainPassword : Plain password.bytes) :
    GoesByNames wire (fun _ => True) (addUser username password) := by
  refine (isUserExist_byNames plain).bind fun exist _ => ?_
  split
  · split
    · exact agree_done trivial
    · exact changeUsers_byNames
        ((insert_readAsMeant wire.unescape username password).mpr ⟨plain, plainPassword⟩) _
  · exact agree_done trivial

theorem removeUser_byNames {username : Str} (plain : Plain username.bytes) :
    GoesByNames wire (fun _ => True) (removeUser username) := by
  refine (isUserExist_byNames plain).bind fun exist _ => ?_
  split
  · split
    · exact agree_done trivial
    · exact changeUsers_byNames ((delete_readAsMeant wire.unescape username).mpr plain) _
  · exact agree_done trivial

/-- The loop goes on with an input that is still plain. -/
def StaysQuoteless (outcome : Outcome MainState) : Prop :=
  ∀ main, outcome = .next main → Quoteless main

theorem mainStep_byNames {main : MainState} (quoteless : Quoteless main) :
    GoesByNames wire StaysQuoteless (mainStep main) := by
  obtain ⟨unread, username, password⟩ := quoteless
  refine agree_perform trivial fun _ _ _ => ?_
  cases prompt : main.prompt with
  | command =>
      have rest := plain_rest main.command 512 unread
      dsimp only
      split
      · exact agree_done fun next same => by cases same
      · split
        · exact agree_done fun next same => by cases same; exact ⟨rest, username, password⟩
        · split
          · exact agree_done fun next same => by cases same; exact ⟨rest, username, password⟩
          · exact agree_done fun next same => by cases same; exact ⟨rest, username, password⟩
  | addName =>
      have rest := plain_rest main.username 64 unread
      dsimp only
      split
      · exact agree_done fun next same => by cases same
      · rename_i name cut
        have plain := plain_cutLast (plain_read 64 username unread) cut
        refine (isUserExist_byNames (plain_cstr plain)).bind fun exist _ => ?_
        cases exist with
        | none => exact agree_done fun next same => by cases same
        | some exist =>
            dsimp only
            split
            · exact agree_perform trivial fun _ _ _ =>
                agree_done fun next same => by cases same; exact ⟨rest, plain, password⟩
            · exact agree_done fun next same => by cases same; exact ⟨rest, plain, password⟩
  | addPassword =>
      have rest := plain_rest main.password 64 unread
      dsimp only
      split
      · exact agree_done fun next same => by cases same
      · rename_i word cut
        have plain := plain_cutLast (plain_read 64 password unread) cut
        refine (addUser_byNames (plain_cstr username) (plain_cstr plain)).bind fun added _ => ?_
        cases added with
        | none => exact agree_done fun next same => by cases same
        | some added =>
            exact agree_done fun next same => by cases same; exact ⟨rest, username, plain⟩
  | removeName =>
      have rest := plain_rest main.username 64 unread
      dsimp only
      split
      · exact agree_done fun next same => by cases same
      · rename_i name cut
        have plain := plain_cutLast (plain_read 64 username unread) cut
        refine (isUserExist_byNames (plain_cstr plain)).bind fun exist _ => ?_
        cases exist with
        | none => exact agree_done fun next same => by cases same
        | some exist =>
            dsimp only
            split
            · refine (removeUser_byNames (plain_cstr plain)).bind fun removed _ => ?_
              cases removed with
              | none => exact agree_done fun next same => by cases same
              | some removed =>
                  exact agree_done fun next same => by cases same; exact ⟨rest, plain, password⟩
            · exact agree_perform trivial fun _ _ _ =>
                agree_done fun next same => by cases same; exact ⟨rest, plain, password⟩

theorem mainLoop_byNames {main : MainState} (quoteless : Quoteless main) (steps : Nat) :
    GoesByNames wire StaysQuoteless (mainLoop steps main) := by
  induction steps with
  | zero => exact agree_done fun next same => by cases same; exact quoteless
  | succ steps ih =>
      refine ih.bind fun outcome stays => ?_
      cases outcome with
      | next next => exact mainStep_byNames (stays next rfl)
      | exit left => exact agree_done stays
      | fault => exact agree_done stays

theorem main_byNames {main : MainState} (quoteless : Quoteless main) (argc steps : Nat) :
    GoesByNames wire (fun _ => True) (Client.main argc steps main) := by
  unfold Client.main
  split
  · exact agree_perform trivial fun _ _ _ => agree_perform trivial fun _ _ _ => agree_done trivial
  · refine agree_perform trivial fun conn twin alike => ?_
    rw [alike.handle]
    split
    · refine agree_perform trivial fun error twin alike => ?_
      rw [alike.message]
      exact agree_perform trivial fun _ _ _ => agree_done trivial
    · refine agree_perform trivial fun connected twin alike => ?_
      rw [alike.handle]
      split
      · refine agree_perform trivial fun error twin alike => ?_
        rw [alike.message]
        exact agree_perform trivial fun _ _ _ => agree_perform trivial fun _ _ _ =>
          agree_done trivial
      · refine agree_perform trivial fun _ _ _ => ?_
        refine (mainLoop_byNames quoteless steps).bind fun outcome _ => ?_
        cases outcome with
        | next main => exact agree_done trivial
        | exit main => exact agree_perform trivial fun _ _ _ => agree_done trivial
        | fault => exact agree_done trivial

/-- On tables with the same names, whatever their passwords, `main` makes the same
calls with the same texts, its prints among them, comes as far, and leaves the same
names. -/
theorem main_hides (wire : Wire) (argc steps : Nat) {main : MainState} (quoteless : Quoteless main)
    (table other : Table) (same : names table = names other) :
    let prog := Client.main argc steps main
    (prog.run wire.answer (.fresh table)).1 = (prog.run wire.answer (.fresh other)).1 ∧
      (prog.records wire.answer (.fresh table)).map Record.op =
        (prog.records wire.answer (.fresh other)).map Record.op ∧
      names (prog.run wire.answer (.fresh table)).2.table =
        names (prog.run wire.answer (.fresh other)).2.table := by
  obtain ⟨returned, calls, alike⟩ := (main_byNames quoteless argc steps).run
    (fun op _ _ meant alike => answer_alike op meant alike)
    (show State.Alike (.fresh table) (.fresh other) from ⟨rfl, same, rfl, rfl, rfl, rfl⟩)
  exact ⟨returned, calls, alike.table⟩

/-- Another password for bob changes nothing that is sent or printed. -/
theorem removing_hides :
    let prog := Client.main 3 5 removingBob
    (prog.records steadyWire.answer (.fresh [⟨bob, secret⟩])).map Record.op =
      (prog.records steadyWire.answer (.fresh [⟨bob, bob⟩])).map Record.op :=
  (main_hides steadyWire 3 5 removing_quoteless [⟨bob, secret⟩] [⟨bob, bob⟩] rfl).2.1

end Programs

end Scftp.UserMan.Client

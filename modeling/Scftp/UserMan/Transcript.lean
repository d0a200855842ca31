import Scftp.UserMan.Wire

set_option autoImplicit false

/- What stays true call by call: the texts sent, the table, the results that are
held and the lines that are printed follow the statements. -/
namespace Scftp.UserMan.Client

open CString Machine Program Program.Prog SqlText Stdin

/-- The statements the server has executed. -/
def executed (server : Server) (issued : List Statement) : List Statement :=
  (issued.zipIdx.filter fun numbered => !server.queryFails numbered.2).map Prod.fst

/-- The SELECTs whose rows have come back. -/
def stored (server : Server) (issued : List Statement) : Nat :=
  issued.zipIdx.countP fun numbered =>
    (match numbered.1 with | .select _ => true | _ => false) && !server.selectFails numbered.2

def addedText : Bytes := ascii "Added user successfully\n"

def removedText (username : Bytes) : Bytes := ascii "Removed user " ++ username ++ ascii "\n"

/-- The name in a line about a removal. -/
def removedName (text : Bytes) : Option Bytes :=
  if text.take 13 = ascii "Removed user " then some (text.drop 13).dropLast else none

def isInsert : Statement → Bool
  | .insert _ _ => true
  | _ => false

def deletedName : Statement → Option Bytes
  | .delete username => some username.bytes
  | _ => none

/-- The library's side of a database that is told of by its statements. -/
structure Mirrors (wire : Wire) (state : State) (db : Db) : Prop where
  connected : state.handle = .connected
  idle : state.pending = none
  table : state.table = db.table
  sent : state.sent = db.issued.map Statement.text
  held : state.results.length = stored wire.server db.issued
  drained : ∀ rows ∈ state.results, rows = []
  added : state.output.count addedText = (executed wire.server db.issued).countP isInsert
  removed : state.output.filterMap removedName =
    (executed wire.server db.issued).filterMap deletedName

/-- A line that tells of no change. -/
def Silent (text : Bytes) : Prop := text ≠ addedText ∧ removedName text = none

section Accounts

variable (server : Server) (issued : List Statement)

theorem executed_snoc (statement : Statement) :
    executed server (issued ++ [statement]) =
      executed server issued ++ if server.queryFails issued.length then [] else [statement] := by
  simp only [executed, List.zipIdx_append, List.filter_append, List.map_append, List.zipIdx_cons,
    List.zipIdx_nil, Nat.zero_add]
  cases fails : server.queryFails issued.length <;> simp [fails]

theorem stored_select (username : Str) :
    stored server (issued ++ [.select username]) =
      stored server issued + if server.selectFails issued.length then 0 else 1 := by
  simp only [stored, List.zipIdx_append, List.countP_append, List.zipIdx_cons, List.zipIdx_nil,
    Nat.zero_add]
  cases fails : server.selectFails issued.length <;> simp [fails]

theorem stored_change {statement : Statement} (changes : ∀ username, statement ≠ .select username) :
    stored server (issued ++ [statement]) = stored server issued := by
  simp only [stored, List.zipIdx_append, List.countP_append, List.zipIdx_cons, List.zipIdx_nil,
    Nat.zero_add]
  cases statement with
  | select username => exact absurd rfl (changes username)
  | insert username password => simp
  | delete username => simp

end Accounts

section Lines

theorem removedName_removedText (username : Bytes) :
    removedName (removedText username) = some username := by
  have long : (ascii "Removed user ").length = 13 := by decide
  have first : (removedText username).take 13 = ascii "Removed user " := by
    rw [removedText, List.append_assoc, ← long, List.take_left]
  have rest : (removedText username).drop 13 = username ++ ascii "\n" := by
    rw [removedText, List.append_assoc, ← long, List.drop_left]
  rw [removedName, if_pos first, rest]
  exact congrArg some List.dropLast_concat

theorem removedName_added : removedName addedText = none := by decide

theorem removedText_ne (username : Bytes) : removedText username ≠ addedText := by
  intro same
  have heads := congrArg List.head? same
  revert heads
  change some (82 : UInt8) ≠ some 65
  decide

theorem silent_error (message : Bytes) :
    Silent (ascii "Error executing query " ++ message ++ ascii "\n") := by
  constructor
  · intro same
    have heads := congrArg List.head? same
    revert heads
    change some (69 : UInt8) ≠ some 65
    decide
  · rw [removedName, if_neg]
    intro same
    have heads := congrArg List.head? same
    revert heads
    change some (69 : UInt8) ≠ some 82
    decide

end Lines

section Calls

variable {wire : Wire} {state : State} {db : Db}

theorem Mirrors.silent (mirrors : Mirrors wire state db) {text : Bytes} (silent : Silent text) :
    Mirrors wire { state with output := state.output ++ [text] } db where
  connected := mirrors.connected
  idle := mirrors.idle
  table := mirrors.table
  sent := mirrors.sent
  held := mirrors.held
  drained := mirrors.drained
  added := by
    rw [← mirrors.added, List.count_append, List.count_singleton]
    simp [silent.1]
  removed := by
    rw [← mirrors.removed, List.filterMap_append]
    simp [silent.2]

/-- The loop fetches all rows of a stored result, and ends with the NULL behind them. -/
theorem fetchLoop_wp (res : Nat) (hit : Row → Bool) (post : Int → State → Prop) :
    ∀ (rows : List Row) (flag : Int) (state : State), state.handle = .connected →
      state.results[res]? = some rows →
      post (fetchFlag hit flag rows) { state with results := state.results.set res [] } →
      (fetchLoop res hit (rows.length + 1) flag).wp wire.answer Allowed post state := by
  intro rows
  induction rows with
  | nil =>
      intro flag state connected found holds
      have inside : res < state.results.length := (List.getElem?_eq_some_iff.mp found).1
      have same : state.results.set res [] = state.results := by
        rw [← (List.getElem?_eq_some_iff.mp found).2, List.set_getElem_self]
      rw [same] at holds
      rw [List.length_nil, fetchLoop, perform_bind, wp_call]
      refine ⟨⟨connected, inside⟩, ?_⟩
      simp only [Wire.answer, found]
      exact holds
  | cons row rest ih =>
      intro flag state connected found holds
      have inside : res < state.results.length := (List.getElem?_eq_some_iff.mp found).1
      rw [List.length_cons, fetchLoop, perform_bind, wp_call]
      refine ⟨⟨connected, inside⟩, ?_⟩
      simp only [Wire.answer, found]
      refine ih _ _ connected ?_ ?_
      · simp [inside]
      · simpa [List.set_set, fetchFlag] using holds

/-- What a scan makes of one reply. -/
def scanFlag (hit : Row → Bool) (reply : Reply) : Int :=
  if reply.status ≠ 0 then -1
  else match reply.stored with
    | none => -1
    | some rows => fetchFlag hit 0 rows

theorem mirrors_sent (mirrors : Mirrors wire state db) (statement : Statement)
    (fails : wire.server.queryFails db.issued.length = true) :
    Mirrors wire { state with sent := state.sent ++ [statement.text] } (db.sent statement) where
  connected := mirrors.connected
  idle := mirrors.idle
  table := mirrors.table
  sent := by rw [sent_issued, List.map_append, mirrors.sent]; rfl
  held := by
    rw [sent_issued, mirrors.held]
    cases statement with
    | select username => simp [stored_select, Server.selectFails, fails]
    | insert username password => rw [stored_change _ _ (by simp)]
    | delete username => rw [stored_change _ _ (by simp)]
  drained := mirrors.drained
  added := by rw [sent_issued, executed_snoc, fails, if_pos rfl, List.append_nil, mirrors.added]
  removed := by rw [sent_issued, executed_snoc, fails, if_pos rfl, List.append_nil, mirrors.removed]

theorem mirrors_selected (mirrors : Mirrors wire state db) (username : Str)
    (goes : wire.server.queryFails db.issued.length = false) (results : List (List Row))
    (held : results.length =
      state.results.length + if wire.server.storeFails db.issued.length then 0 else 1)
    (drained : ∀ rows ∈ results, rows = []) :
    Mirrors wire
      { state with
        sent := state.sent ++ [(Statement.select username).text], pending := none, results }
      (db.sent (.select username)) where
  connected := mirrors.connected
  idle := rfl
  table := mirrors.table
  sent := by rw [sent_issued, List.map_append, mirrors.sent]; rfl
  held := by
    rw [sent_issued, stored_select, Server.selectFails, goes, Bool.false_or, ← mirrors.held]
    exact held
  drained := drained
  added := by
    rw [sent_issued, executed_snoc, goes, mirrors.added]
    simp [isInsert]
  removed := by
    rw [sent_issued, executed_snoc, goes, mirrors.removed]
    simp [deletedName]

theorem reportError_wp {post : Int → State → Prop}
    (holds : post (-1) state) : reportError.wp wire.answer Allowed post state :=
  ⟨trivial, trivial, holds⟩

/-- A query by name, its store and its loop are one reply of the server. -/
theorem selectUsers_wp (mirrors : Mirrors wire state db) {username : Str}
    (plain : Plain username.bytes) (hit : Row → Bool) {post : Option Int → State → Prop}
    (overflows : ¬ (Statement.select username).Fits → post none state)
    (goesOn : ∀ after, Mirrors wire after (db.sent (.select username)) →
      post (some (scanFlag hit (wire.server.answer (.select username) db).1)) after) :
    (selectUsers username hit).wp wire.answer Allowed post state := by
  have meant := (select_readAsMeant wire.unescape username).mpr plain
  have count : state.sent.length = db.issued.length := by rw [mirrors.sent, List.length_map]
  by_cases fits : (Statement.select username).Fits
  swap
  · rw [selectUsers, assemble_of_not_fits fits]
    exact overflows fits
  obtain ⟨query, assembled, bytes⟩ := assemble_of_fits fits
  simp only [selectUsers, assembled, bytes, perform_bind, wp_call]
  refine ⟨⟨mirrors.connected, mirrors.idle⟩, ?_⟩
  simp only [Wire.answer, count]
  cases fails : wire.server.queryFails db.issued.length with
  | true =>
      have kept := mirrors_sent mirrors (.select username) fails
      have result := goesOn _ kept
      simp only [Server.answer, fails, ↓reduceIte, scanFlag] at result
      exact (wp_bind _ _ _ _).mpr (reportError_wp result)
  | false =>
      simp only [execute_select wire meant, Bool.false_eq_true, ↓reduceIte, Returned.nothing,
        ne_eq, not_true_eq_false, wp_call]
      refine ⟨⟨mirrors.connected, rfl⟩, ?_⟩
      simp only [Wire.answer, List.length_append, List.length_singleton, Nat.add_sub_cancel, count]
      cases lost : wire.server.storeFails db.issued.length with
      | true =>
          have result := goesOn _ (mirrors_selected mirrors username fails state.results
            (by simp [lost]) mirrors.drained)
          simp only [Server.answer, fails, lost, Bool.false_eq_true, ↓reduceIte, scanFlag, ne_eq,
            not_true_eq_false] at result
          exact (wp_bind _ _ _ _).mpr (reportError_wp result)
      | false =>
          have drained : (state.results ++ [(wire.server.execute (.select username)
              state.table).2]).set state.results.length [] = state.results ++ [[]] := by simp
          have result := goesOn _ (mirrors_selected mirrors username fails (state.results ++ [[]])
            (by simp [lost]) fun rows member => by
              rcases List.mem_append.mp member with earlier | last
              · exact mirrors.drained rows earlier
              · exact List.mem_singleton.mp last)
          rw [← drained] at result
          simp only [Server.answer, fails, lost, Bool.false_eq_true, ↓reduceIte, scanFlag, ne_eq,
            not_true_eq_false, ← mirrors.table] at result
          exact (wp_bind _ _ _ _).mpr
            (fetchLoop_wp _ hit _ _ 0 _ mirrors.connected (by simp) result)

theorem mirrors_changed (mirrors : Mirrors wire state db) {statement : Statement}
    (changes : ∀ username, statement ≠ .select username) {success : Bytes}
    (added : success = addedText ↔ isInsert statement = true)
    (removed : removedName success = deletedName statement)
    (goes : wire.server.queryFails db.issued.length = false) :
    Mirrors wire
      { state with
        sent := state.sent ++ [statement.text], pending := none
        table := (wire.server.execute statement state.table).1
        output := state.output ++ [success] }
      { db.sent statement with table := (wire.server.execute statement db.table).1 } where
  connected := mirrors.connected
  idle := rfl
  table := by rw [mirrors.table]
  sent := by rw [sent_issued, List.map_append, mirrors.sent]; rfl
  held := by rw [sent_issued, stored_change _ _ changes, mirrors.held]
  drained := mirrors.drained
  added := by
    rw [sent_issued, executed_snoc, goes, List.count_append, List.countP_append, mirrors.added]
    simp [List.count_singleton, List.countP_singleton, added]
  removed := by
    rw [sent_issued, executed_snoc, goes, List.filterMap_append, List.filterMap_append,
      mirrors.removed]
    simp only [Bool.false_eq_true, ↓reduceIte, List.filterMap_cons, List.filterMap_nil, removed]

/-- A query that changes the table, and its report, are one reply of the server. -/
theorem changeUsers_wp (mirrors : Mirrors wire state db) {statement : Statement}
    (changes : ∀ username, statement ≠ .select username)
    (meant : statement.ReadAsMeant wire.unescape) {success : Bytes}
    (added : success = addedText ↔ isInsert statement = true)
    (removed : removedName success = deletedName statement) {post : Option Int → State → Prop}
    (overflows : ¬ statement.Fits → post none state)
    (goesOn : ∀ after, Mirrors wire after (wire.server.answer statement db).2 →
      post (some (if (wire.server.answer statement db).1.status ≠ 0 then -1 else 1)) after) :
    (changeUsers statement success).wp wire.answer Allowed post state := by
  have count : state.sent.length = db.issued.length := by rw [mirrors.sent, List.length_map]
  by_cases fits : statement.Fits
  swap
  · rw [changeUsers, assemble_of_not_fits fits]
    exact overflows fits
  obtain ⟨query, assembled, bytes⟩ := assemble_of_fits fits
  simp only [changeUsers, assembled, bytes, perform_bind, wp_call]
  refine ⟨⟨mirrors.connected, mirrors.idle⟩, ?_⟩
  simp only [Wire.answer, count]
  cases fails : wire.server.queryFails db.issued.length with
  | true =>
      simp only [Server.answer, fails, ↓reduceIte] at goesOn
      exact ⟨trivial, trivial, goesOn _ ((mirrors_sent mirrors statement fails).silent
        (silent_error _))⟩
  | false =>
      simp only [Server.answer, fails, Bool.false_eq_true, ↓reduceIte] at goesOn
      have result := goesOn _ (mirrors_changed mirrors changes added removed fails)
      rw [execute_change wire meant changes]
      exact ⟨trivial, result⟩

theorem scanFlag_exist (username : Str) (reply : Reply) :
    scanFlag (fun row => strcmp username.bytes row.username.bytes) reply =
      existFlag username reply := by
  unfold scanFlag existFlag
  cases reply.stored with
  | none => rfl
  | some rows => simp only [fetchFlag_eq, strcmp_str, eq_comm (a := username)]

theorem scanFlag_valid (password : Str) (reply : Reply) :
    scanFlag (fun row => strcmp password.bytes row.password.bytes) reply =
      validFlag password reply := by
  unfold scanFlag validFlag
  cases reply.stored with
  | none => rfl
  | some rows => simp only [fetchFlag_eq, strcmp_str, eq_comm (a := password)]

/-- The calls of the queries API: each is answered as by the server, or has written
past `query`. -/
theorem isUserExist_wp (mirrors : Mirrors wire state db) {username : Str}
    (plain : Plain username.bytes) {post : Option Int → State → Prop}
    (overflows : ¬ (Call.isUserExist username).Fits → ∀ after, post none after)
    (goesOn : ∀ after, Mirrors wire after (db.sent (.select username)) →
      post (some (wire.server.exist username db)) after) :
    (isUserExist username).wp wire.answer Allowed post state := by
  refine selectUsers_wp mirrors plain _ (fun long => overflows long _) fun after kept => ?_
  rw [scanFlag_exist]
  exact goesOn after kept

theorem addUser_wp (mirrors : Mirrors wire state db) {username password : Str}
    (plain : Plain username.bytes) (plainPassword : Plain password.bytes)
    {post : Option Int → State → Prop}
    (overflows : ¬ (Call.addUser username password).Fits → ∀ after, post none after)
    (goesOn : ∀ after, Mirrors wire after
        (wire.server.callAnswer (.addUser username password) db).2 →
      post (some (wire.server.callAnswer (.addUser username password) db).1) after) :
    (addUser username password).wp wire.answer Allowed post state := by
  rw [callAnswer_addUser] at goesOn
  rw [addUser, wp_bind]
  refine isUserExist_wp mirrors plain (fun long => overflows fun fits => long fits.1)
    fun after kept => ?_
  dsimp only
  split
  · rename_i found
    rw [if_pos found] at goesOn
    exact goesOn after kept
  · rename_i absent
    rw [if_neg absent] at goesOn
    exact changeUsers_wp kept (by simp)
      ((insert_readAsMeant wire.unescape username password).mpr ⟨plain, plainPassword⟩)
      (iff_of_true rfl rfl) removedName_added
      (fun long => overflows (fun fits => long fits.2) after) goesOn

theorem removeUser_wp (mirrors : Mirrors wire state db) {username : Str}
    (plain : Plain username.bytes) {post : Option Int → State → Prop}
    (overflows : ¬ (Call.removeUser username).Fits → ∀ after, post none after)
    (goesOn : ∀ after, Mirrors wire after (wire.server.callAnswer (.removeUser username) db).2 →
      post (some (wire.server.callAnswer (.removeUser username) db).1) after) :
    (removeUser username).wp wire.answer Allowed post state := by
  rw [callAnswer_removeUser] at goesOn
  rw [removeUser, wp_bind]
  refine isUserExist_wp mirrors plain (fun long => overflows fun fits => long fits.1)
    fun after kept => ?_
  dsimp only
  split
  · rename_i absent
    rw [if_pos absent] at goesOn
    exact goesOn after kept
  · rename_i found
    rw [if_neg found] at goesOn
    exact changeUsers_wp kept (by simp) ((delete_readAsMeant wire.unescape username).mpr plain)
      (iff_of_false (removedText_ne username.bytes) (by simp [isInsert]))
      (removedName_removedText username.bytes)
      (fun long => overflows (fun fits => long fits.2) after) goesOn

theorem checkUserCredentials_wp (mirrors : Mirrors wire state db) {username password : Str}
    (plain : Plain username.bytes) {post : Option Int → State → Prop}
    (overflows : ¬ (Call.checkUserCredentials username password).Fits →
      ∀ after, post none after)
    (goesOn : ∀ after, Mirrors wire after
        (wire.server.callAnswer (.checkUserCredentials username password) db).2 →
      post (some (wire.server.callAnswer (.checkUserCredentials username password) db).1) after) :
    (checkUserCredentials username password).wp wire.answer Allowed post state := by
  rw [callAnswer_checkUserCredentials] at goesOn
  rw [checkUserCredentials, wp_bind]
  refine isUserExist_wp mirrors plain overflows fun after kept => ?_
  dsimp only
  split
  · rename_i absent
    rw [if_pos absent] at goesOn
    exact goesOn after kept
  · rename_i found
    rw [if_neg found, run_select] at goesOn
    refine selectUsers_wp kept plain _ (fun long => overflows long after) fun last still => ?_
    rw [scanFlag_valid]
    exact goesOn last still

end Calls

end Scftp.UserMan.Client

import Scftp.UserMan.Client

set_option autoImplicit false

/- The library and the server behind the calls: texts are read by the lexical rules
of SQL, and executed as the statement they are. -/
namespace Scftp.UserMan.Client

open CString Machine Program Program.Prog SqlText Stdin

/-- The tokens behind some bytes outside literals. -/
def afterRaw (text : Bytes) (tokens : List Token) : Option (List Token) :=
  if tokens.take text.length = text.map .raw then some (tokens.drop text.length) else none

/-- The statement some tokens are, if they are one of the three. -/
def ofTokens (tokens : List Token) : Option Statement :=
  match afterRaw (ascii "select * from users where username=") tokens with
  | some (.literal username :: rest) =>
      if rest = (ascii ";").map .raw then some (.select (toStr username)) else none
  | _ =>
      match afterRaw (ascii "DELETE FROM users where username=") tokens with
      | some (.literal username :: rest) =>
          if rest = (ascii ";").map .raw then some (.delete (toStr username)) else none
      | _ =>
          match afterRaw (ascii "INSERT INTO users values(") tokens with
          | some (.literal username :: rest) =>
              match afterRaw (ascii ",") rest with
              | some (.literal password :: last) =>
                  if last = (ascii ");").map .raw then
                    some (.insert (toStr username) (toStr password))
                  else none
              | _ => none
          | _ => none

/-- What the program is not told: whether the library starts and connects, the
server with its failures, how it reads escapes, what it makes of any other text
(`none` for an error), and its messages. -/
structure Wire where
  inits : Bool
  connects : Bool
  server : Server
  unescape : UInt8 → UInt8
  other : Bytes → Table → Option (Table × Option (List Row))
  message : List Bytes → Bytes

inductive Handle where
  | null
  | initialized
  | connected
  | closed
deriving DecidableEq

/-- The connection, the table, the texts sent, a result that waits to be stored, what
stored results have left to hand over, and what was printed. No result is freed. -/
structure State where
  handle : Handle
  table : Table
  sent : List Bytes
  pending : Option (List Row)
  results : List (List Row)
  output : List Bytes
deriving DecidableEq

/-- What the server makes of a text: an error, or a table and perhaps rows. -/
def Wire.execute (wire : Wire) (query : Bytes) (table : Table) :
    Option (Table × Option (List Row)) :=
  match (lex wire.unescape query).bind ofTokens with
  | some (.select username) => some (table, some (wire.server.execute (.select username) table).2)
  | some statement => some ((wire.server.execute statement table).1, none)
  | none => wire.other query table

def Wire.answer (wire : Wire) : Api → State → Returned × State
  | .mysqlInit, state =>
      ({ Returned.nothing with handle := wire.inits },
        if wire.inits then { state with handle := .initialized } else state)
  | .mysqlRealConnect, state =>
      ({ Returned.nothing with handle := wire.connects },
        if wire.connects then { state with handle := .connected } else state)
  | .mysqlQuery query, state =>
      let sent := { state with sent := state.sent ++ [query] }
      if wire.server.queryFails state.sent.length then
        ({ Returned.nothing with status := 1 }, sent)
      else
        match wire.execute query state.table with
        | none => ({ Returned.nothing with status := 1 }, sent)
        | some (table, rows) => (Returned.nothing, { sent with table, pending := rows })
  | .mysqlStoreResult, state =>
      match state.pending with
      | none => (Returned.nothing, state)
      | some rows =>
          if wire.server.storeFails (state.sent.length - 1) then
            (Returned.nothing, { state with pending := none })
          else
            ({ Returned.nothing with res := some state.results.length, rows := rows.length },
              { state with pending := none, results := state.results ++ [rows] })
  | .mysqlFetchRow res, state =>
      match state.results[res]? with
      | some (row :: rest) =>
          ({ Returned.nothing with row := some row },
            { state with results := state.results.set res rest })
      | _ => (Returned.nothing, state)
  | .mysqlError, state => ({ Returned.nothing with message := wire.message state.sent }, state)
  | .mysqlClose, state => (Returned.nothing, { state with handle := .closed })
  | .printf text, state => (Returned.nothing, { state with output := state.output ++ [text] })
  | .fprintfStderr _, state => (Returned.nothing, state)

/-- The order of calls the library asks for: a connection is opened once and closed
once, a query waits for the rows of the one before it to be stored, rows are
fetched from a result that was stored, and nothing is sent but over an open
connection. `mysql_error` takes any handle. -/
def Allowed : Api → State → Prop
  | .mysqlInit, state => state.handle = .null
  | .mysqlRealConnect, state => state.handle = .initialized
  | .mysqlQuery _, state => state.handle = .connected ∧ state.pending = none
  | .mysqlStoreResult, state => state.handle = .connected ∧ state.pending.isSome
  | .mysqlFetchRow res, state => state.handle = .connected ∧ res < state.results.length
  | .mysqlClose, state => state.handle = .initialized ∨ state.handle = .connected
  | .mysqlError, _ => True
  | .printf _, _ => True
  | .fprintfStderr _, _ => True

theorem afterRaw_map (text : Bytes) (rest : List Token) :
    afterRaw text (text.map .raw ++ rest) = some rest := by
  have length : text.length = (text.map Token.raw).length := (List.length_map _).symm
  rw [afterRaw, length, List.take_left, List.drop_left, if_pos rfl]

/-- A text with another first byte is not there. -/
theorem afterRaw_other {text head : Bytes} (rest : List Token) (begins : head ≠ [])
    (awaits : text ≠ []) (apart : head.head? ≠ text.head?) :
    afterRaw text (head.map .raw ++ rest) = none := by
  obtain ⟨first, more, rfl⟩ := List.exists_cons_of_ne_nil begins
  obtain ⟨byte, others, rfl⟩ := List.exists_cons_of_ne_nil awaits
  rw [afterRaw, if_neg]
  intro same
  have heads := congrArg List.head? same
  simp only [List.length_cons, List.map_cons, List.cons_append, List.take_succ_cons,
    List.head?_cons, Option.some.injEq, Token.raw.injEq] at heads
  exact apart (congrArg some heads)

/-- A template's tokens are the statement's, and no other's. -/
theorem ofTokens_template (statement : Statement) :
    ofTokens statement.template.tokens = some statement := by
  cases statement with
  | select username =>
      simp only [ofTokens, Statement.template, Template.tokens, afterRaw_map, Template.fieldTokens,
        List.append_nil, ↓reduceIte, toStr_of_noNul]
  | insert username password =>
      have noSelect (rest : List Token) : afterRaw (ascii "select * from users where username=")
          ((ascii "INSERT INTO users values(").map .raw ++ rest) = none :=
        afterRaw_other rest (by decide) (by decide) (by decide)
      have noDelete (rest : List Token) : afterRaw (ascii "DELETE FROM users where username=")
          ((ascii "INSERT INTO users values(").map .raw ++ rest) = none :=
        afterRaw_other rest (by decide) (by decide) (by decide)
      simp only [ofTokens, Statement.template, Template.tokens, noSelect, noDelete, afterRaw_map,
        Template.fieldTokens, List.append_nil, ↓reduceIte, toStr_of_noNul]
  | delete username =>
      have noSelect (rest : List Token) : afterRaw (ascii "select * from users where username=")
          ((ascii "DELETE FROM users where username=").map .raw ++ rest) = none :=
        afterRaw_other rest (by decide) (by decide) (by decide)
      simp only [ofTokens, Statement.template, Template.tokens, noSelect, afterRaw_map,
        Template.fieldTokens, List.append_nil, ↓reduceIte, toStr_of_noNul]

section Meant

variable (wire : Wire) {statement : Statement}

theorem ofTokens_meant (meant : statement.ReadAsMeant wire.unescape) :
    (lex wire.unescape statement.text).bind ofTokens = some statement := by
  rw [show lex wire.unescape statement.text = some statement.template.tokens from meant,
    Option.bind_some, ofTokens_template]

theorem execute_select {username : Str}
    (meant : (Statement.select username).ReadAsMeant wire.unescape) (table : Table) :
    wire.execute (Statement.select username).text table =
      some (table, some (wire.server.execute (.select username) table).2) := by
  rw [Wire.execute, ofTokens_meant wire meant]

theorem execute_change (meant : statement.ReadAsMeant wire.unescape)
    (changes : ∀ username, statement ≠ .select username) (table : Table) :
    wire.execute statement.text table = some ((wire.server.execute statement table).1, none) := by
  rw [Wire.execute, ofTokens_meant wire meant]
  cases statement with
  | select username => exact absurd rfl (changes username)
  | insert username password => rfl
  | delete username => rfl

end Meant

end Scftp.UserMan.Client

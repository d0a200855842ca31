import Scftp.Lib.SqlText
import Scftp.UserMan.Queries

set_option autoImplicit false

/- What the server reads in the query texts that queries.cpp pastes together. -/
namespace Scftp.UserMan

open CString Program.Prog SqlText

/-- The statement as its author means it: one literal for each argument. -/
def Statement.template : Statement → Template
  | .select username =>
      ⟨ascii "select * from users where username=", [(username.bytes, ascii ";")]⟩
  | .insert username password =>
      ⟨ascii "INSERT INTO users values(",
        [(username.bytes, ascii ","), (password.bytes, ascii ");")]⟩
  | .delete username =>
      ⟨ascii "DELETE FROM users where username=", [(username.bytes, ascii ";")]⟩

/-- The server reads the statement that was meant, with the values that were passed. -/
def Statement.ReadAsMeant (unescape : UInt8 → UInt8) (statement : Statement) : Prop :=
  lex unescape statement.text = some statement.template.tokens

/-- The arguments a call pastes into its statements. A password that is only
compared is not among them. -/
def Call.pasted : Call → List Str
  | .isUserExist username => [username]
  | .addUser username password => [username, password]
  | .removeUser username => [username]
  | .checkUserCredentials username _ => [username]

theorem text_eq_build (statement : Statement) : statement.text = statement.template.build := by
  cases statement with
  | select username =>
      have opened : ascii "select * from users where username='" =
        ascii "select * from users where username=" ++ [quote] := by decide
      have closed : ascii "';" = quote :: ascii ";" := by decide
      simp [Statement.text, Statement.template, Template.build, Template.buildFields, opened,
        closed]
  | insert username password =>
      have opened : ascii "INSERT INTO users values('" =
        ascii "INSERT INTO users values(" ++ [quote] := by decide
      have between : ascii "','" = quote :: (ascii "," ++ [quote]) := by decide
      have closed : ascii "');" = quote :: ascii ");" := by decide
      simp [Statement.text, Statement.template, Template.build, Template.buildFields, opened,
        between, closed]
  | delete username =>
      have opened : ascii "DELETE FROM users where username='" =
        ascii "DELETE FROM users where username=" ++ [quote] := by decide
      have closed : ascii "';" = quote :: ascii ";" := by decide
      simp [Statement.text, Statement.template, Template.build, Template.buildFields, opened,
        closed]

theorem template_wellFormed (statement : Statement) : statement.template.WellFormed := by
  cases statement <;>
    refine ⟨by simp only [Statement.template]; decide, ?_, ?_⟩ <;>
    simp only [Statement.template, List.mem_cons, List.not_mem_nil, or_false, forall_eq,
      forall_eq_or_imp] <;>
    decide

theorem select_readAsMeant (unescape : UInt8 → UInt8) (username : Str) :
    (Statement.select username).ReadAsMeant unescape ↔ Plain username.bytes := by
  rw [Statement.ReadAsMeant, text_eq_build, lex_build_iff unescape _ (template_wellFormed _)]
  simp [Statement.template]

theorem insert_readAsMeant (unescape : UInt8 → UInt8) (username password : Str) :
    (Statement.insert username password).ReadAsMeant unescape ↔
      Plain username.bytes ∧ Plain password.bytes := by
  rw [Statement.ReadAsMeant, text_eq_build, lex_build_iff unescape _ (template_wellFormed _)]
  simp [Statement.template]

theorem delete_readAsMeant (unescape : UInt8 → UInt8) (username : Str) :
    (Statement.delete username).ReadAsMeant unescape ↔ Plain username.bytes := by
  rw [Statement.ReadAsMeant, text_eq_build, lex_build_iff unescape _ (template_wellFormed _)]
  simp [Statement.template]

/-- Every statement a call may send is read as it was meant exactly when the
arguments it pastes hold no quote and no backslash. -/
theorem statements_readAsMeant_iff (unescape : UInt8 → UInt8) (call : Call) :
    (∀ statement, call.program.MayCall statement → statement.ReadAsMeant unescape) ↔
      ∀ argument ∈ call.pasted, Plain argument.bytes := by
  cases call <;>
    simp [mayCall_program, Call.pasted, or_imp, forall_and, select_readAsMeant,
      insert_readAsMeant, delete_readAsMeant]

/-- A name that ends its literal early. -/
def quotedName : Str := ⟨ascii "x' or '1'='1", by decide⟩

/-- `removeUser` on this name, short enough for `main`, deletes by another
condition than the equality that was meant. -/
theorem delete_not_readAsMeant :
    quotedName.bytes.length ≤ 62 ∧ CString.newline ∉ quotedName.bytes ∧
      (removeUser quotedName).MayCall (.delete quotedName) ∧
      ¬ (Statement.delete quotedName).ReadAsMeant id := by
  refine ⟨by decide, by decide, ?_, ?_⟩
  · exact (mayCall_program (.removeUser quotedName) _).mpr (Or.inr rfl)
  · rw [delete_readAsMeant]
    decide

end Scftp.UserMan

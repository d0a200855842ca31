import Mathlib.Algebra.Ring.Nat
import Scftp.Lib.CString

set_option autoImplicit false

/- The lexical rules of SQL string literals, and statements built by pasting
values between quotes. Which byte a backslash escape stands for is a parameter,
since servers map some letters to control bytes. -/
namespace SqlText

open CString (Bytes)

abbrev quote : UInt8 := 39
abbrev backslash : UInt8 := 92

inductive Token where
  | raw (byte : UInt8)
  | literal (value : Bytes)
deriving DecidableEq

/-- Where the lexer stands. A quote inside a literal either closes it or is the
first half of a doubled quote; `closing` waits for the byte that decides. -/
inductive Mode where
  | outside
  | inside (value : Bytes)
  | closing (value : Bytes)
  | escaped (value : Bytes)

def lexFrom (unescape : UInt8 → UInt8) : Mode → Bytes → Option (List Token)
  | .outside, [] => some []
  | .closing value, [] => some [.literal value]
  | .inside _, [] => none
  | .escaped _, [] => none
  | .outside, byte :: rest =>
      if byte = quote then lexFrom unescape (.inside []) rest
      else (lexFrom unescape .outside rest).map (.raw byte :: ·)
  | .inside value, byte :: rest =>
      if byte = quote then lexFrom unescape (.closing value) rest
      else if byte = backslash then lexFrom unescape (.escaped value) rest
      else lexFrom unescape (.inside (value ++ [byte])) rest
  | .closing value, byte :: rest =>
      if byte = quote then lexFrom unescape (.inside (value ++ [quote])) rest
      else (lexFrom unescape .outside rest).map ([.literal value, .raw byte] ++ ·)
  | .escaped value, byte :: rest => lexFrom unescape (.inside (value ++ [unescape byte])) rest

/-- The tokens of a query text; `none` when a literal is never closed. -/
def lex (unescape : UInt8 → UInt8) (text : Bytes) : Option (List Token) :=
  lexFrom unescape .outside text

/-- A value without the two bytes that mean something inside a literal. -/
def Plain (value : Bytes) : Prop := quote ∉ value ∧ backslash ∉ value

instance (value : Bytes) : Decidable (Plain value) := inferInstanceAs (Decidable (_ ∧ _))

@[simp] theorem plain_nil : Plain [] := ⟨List.not_mem_nil, List.not_mem_nil⟩

theorem Plain.snoc {value : Bytes} {byte : UInt8} (plain : Plain value) (unquoted : byte ≠ quote)
    (unescaped : byte ≠ backslash) : Plain (value ++ [byte]) := by
  simp only [Plain, List.mem_append, List.mem_singleton, not_or]
  exact ⟨⟨plain.1, unquoted.symm⟩, plain.2, unescaped.symm⟩

/-- A statement as pieces of its own text with values pasted between them, each
value followed by the text after its closing quote. -/
structure Template where
  head : Bytes
  fields : List (Bytes × Bytes)

namespace Template

/-- The bytes after the head: each value between quotes, then its text. -/
def buildFields : List (Bytes × Bytes) → Bytes
  | [] => []
  | (value, text) :: rest => quote :: (value ++ quote :: (text ++ buildFields rest))

def build (template : Template) : Bytes := template.head ++ buildFields template.fields

/-- The tokens of the fields when each value is one literal. -/
def fieldTokens : List (Bytes × Bytes) → List Token
  | [] => []
  | (value, text) :: rest => .literal value :: (text.map Token.raw ++ fieldTokens rest)

/-- The tokens the statement is meant to have. -/
def tokens (template : Template) : List Token :=
  template.head.map Token.raw ++ fieldTokens template.fields

/-- The statement's own text has no quotes, and separates its literals. -/
structure WellFormed (template : Template) : Prop where
  head : quote ∉ template.head
  texts : ∀ field ∈ template.fields, quote ∉ field.2
  separated : ∀ field ∈ template.fields, field.2 ≠ []

end Template

open Template

variable (unescape : UInt8 → UInt8)

theorem lexFrom_outside_append (text rest : Bytes) (unquoted : quote ∉ text) :
    lexFrom unescape .outside (text ++ rest) =
      (lexFrom unescape .outside rest).map (text.map Token.raw ++ ·) := by
  induction text with
  | nil => simp
  | cons byte text ih =>
      simp only [List.mem_cons, not_or] at unquoted
      simp only [List.cons_append, lexFrom, Ne.symm unquoted.1, ↓reduceIte, ih unquoted.2,
        Option.map_map, List.map_cons]
      rfl

theorem lexFrom_inside_append (value text rest : Bytes) (plain : Plain text) :
    lexFrom unescape (.inside value) (text ++ rest) =
      lexFrom unescape (.inside (value ++ text)) rest := by
  induction text generalizing value with
  | nil => simp
  | cons byte text ih =>
      simp only [Plain, List.mem_cons, not_or] at plain
      simp only [List.cons_append, lexFrom, Ne.symm plain.1.1, Ne.symm plain.2.1, ↓reduceIte,
        ih (value ++ [byte]) ⟨plain.1.2, plain.2.2⟩, List.append_assoc, List.nil_append]

/-- Plain values are read back, whatever the number of fields. -/
theorem lexFrom_fields (fields : List (Bytes × Bytes))
    (unquoted : ∀ field ∈ fields, quote ∉ field.2) (separated : ∀ field ∈ fields, field.2 ≠ [])
    (plain : ∀ field ∈ fields, Plain field.1) :
    lexFrom unescape .outside (buildFields fields) = some (fieldTokens fields) := by
  induction fields with
  | nil => rfl
  | cons field rest ih =>
      obtain ⟨value, text⟩ := field
      obtain ⟨first, after, rfl⟩ :=
        List.exists_cons_of_ne_nil (separated (value, text) List.mem_cons_self)
      have textUnquoted : quote ∉ first :: after :=
        unquoted (value, first :: after) List.mem_cons_self
      simp only [List.mem_cons, not_or] at textUnquoted
      have remaining := ih (fun field member => unquoted field (List.mem_cons_of_mem _ member))
        (fun field member => separated field (List.mem_cons_of_mem _ member))
        (fun field member => plain field (List.mem_cons_of_mem _ member))
      rw [buildFields, lexFrom, if_pos rfl,
        lexFrom_inside_append unescape [] value _
          (plain (value, first :: after) List.mem_cons_self)]
      simp only [List.nil_append, lexFrom, ↓reduceIte, List.cons_append, Ne.symm textUnquoted.1,
        lexFrom_outside_append unescape after _ textUnquoted.2, remaining, Option.map_some,
        fieldTokens, List.map_cons]

theorem lex_build (template : Template) (wellFormed : template.WellFormed)
    (plain : ∀ field ∈ template.fields, Plain field.1) :
    lex unescape template.build = some template.tokens := by
  rw [lex, build, lexFrom_outside_append unescape _ _ wellFormed.head,
    lexFrom_fields unescape _ wellFormed.texts wellFormed.separated plain]
  rfl

/-- The bytes a token stands for at least: a literal needs its two quotes. -/
def Token.weight : Token → Nat
  | .raw _ => 1
  | .literal value => value.length + 2

def weight (tokens : List Token) : Nat := (tokens.map Token.weight).sum

@[simp] theorem weight_nil : weight [] = 0 := rfl

@[simp] theorem weight_cons (token : Token) (rest : List Token) :
    weight (token :: rest) = token.weight + weight rest := by
  simp only [weight, List.map_cons, List.sum_cons]

@[simp] theorem weight_append (first second : List Token) :
    weight (first ++ second) = weight first + weight second := by
  simp only [weight, List.map_append, List.sum_append]

@[simp] theorem weight_raw (text : Bytes) : weight (text.map Token.raw) = text.length := by
  induction text with
  | nil => rfl
  | cons byte text ih =>
      simp only [List.map_cons, weight_cons, Token.weight, ih, List.length_cons]
      omega

/-- The bytes already read of the literal in progress. -/
def Mode.pending : Mode → Nat
  | .outside => 0
  | .inside value => value.length + 1
  | .closing value => value.length + 2
  | .escaped value => value.length + 2

def Mode.Plain : Mode → Prop
  | .outside => True
  | .inside value => SqlText.Plain value
  | .closing value => SqlText.Plain value
  | .escaped _ => True

/-- Every escape spends a byte that no token keeps: tokens weigh at most the
text, and when they weigh all of it every literal is plain. -/
theorem lexFrom_weight (mode : Mode) (text : Bytes) (tokens : List Token)
    (lexed : lexFrom unescape mode text = some tokens) :
    weight tokens ≤ mode.pending + text.length ∧
      (weight tokens = mode.pending + text.length → mode.Plain →
        ∀ value, .literal value ∈ tokens → Plain value) := by
  induction text generalizing mode tokens with
  | nil =>
      cases mode with
      | outside =>
          cases lexed
          exact ⟨Nat.le_refl _, fun _ _ value member => by cases member⟩
      | closing value =>
          cases lexed
          refine ⟨Nat.le_refl _, fun _ plain found member => ?_⟩
          cases List.mem_singleton.mp member
          exact plain
      | inside value => cases lexed
      | escaped value => cases lexed
  | cons byte rest ih =>
      cases mode with
      | outside =>
          rw [lexFrom] at lexed
          split at lexed
          · obtain ⟨bound, sharp⟩ := ih _ _ lexed
            simp only [Mode.pending, List.length_nil, List.length_cons] at bound ⊢
            refine ⟨by omega, fun full _ => sharp ?_ plain_nil⟩
            simp only [Mode.pending, List.length_nil]
            omega
          · obtain ⟨others, after, rfl⟩ := Option.map_eq_some_iff.mp lexed
            obtain ⟨bound, sharp⟩ := ih _ _ after
            simp only [Mode.pending, List.length_cons, weight_cons, Token.weight] at bound sharp ⊢
            refine ⟨by omega, fun full _ value member => ?_⟩
            rcases List.mem_cons.mp member with impossible | member
            · cases impossible
            · exact sharp (by omega) trivial value member
      | inside value =>
          rw [lexFrom] at lexed
          split at lexed
          · obtain ⟨bound, sharp⟩ := ih _ _ lexed
            simp only [Mode.pending, List.length_cons] at bound sharp ⊢
            exact ⟨by omega, fun full plain => sharp (by omega) plain⟩
          · split at lexed
            · obtain ⟨bound, sharp⟩ := ih _ _ lexed
              simp only [Mode.pending, List.length_cons] at bound sharp ⊢
              exact ⟨by omega, fun full _ => sharp (by omega) trivial⟩
            · rename_i unquoted unescaped
              obtain ⟨bound, sharp⟩ := ih _ _ lexed
              simp only [Mode.pending, List.length_append, List.length_cons,
                List.length_nil] at bound sharp ⊢
              exact ⟨by omega, fun full plain => sharp (by omega) (plain.snoc unquoted unescaped)⟩
      | closing value =>
          rw [lexFrom] at lexed
          split at lexed
          · -- a doubled quote: two bytes of text for one of the value
            obtain ⟨bound, _⟩ := ih _ _ lexed
            simp only [Mode.pending, List.length_append, List.length_cons,
              List.length_nil] at bound ⊢
            exact ⟨by omega, fun full => by omega⟩
          · obtain ⟨others, after, rfl⟩ := Option.map_eq_some_iff.mp lexed
            obtain ⟨bound, sharp⟩ := ih _ _ after
            simp only [Mode.pending, List.length_cons, List.cons_append, List.nil_append,
              weight_cons, Token.weight] at bound sharp ⊢
            refine ⟨by omega, fun full plain found member => ?_⟩
            simp only [List.mem_cons, Token.literal.injEq, reduceCtorEq, false_or] at member
            rcases member with rfl | member
            · exact plain
            · exact sharp (by omega) trivial found member
      | escaped value =>
          rw [lexFrom] at lexed
          obtain ⟨bound, _⟩ := ih _ _ lexed
          simp only [Mode.pending, List.length_append, List.length_cons, List.length_nil] at bound ⊢
          exact ⟨by omega, fun full => by omega⟩

theorem weight_fieldTokens (fields : List (Bytes × Bytes)) :
    weight (fieldTokens fields) = (buildFields fields).length := by
  induction fields with
  | nil => rfl
  | cons field rest ih =>
      simp only [fieldTokens, buildFields, weight_cons, weight_append, weight_raw, Token.weight, ih,
        List.length_cons, List.length_append]
      omega

theorem mem_fieldTokens {fields : List (Bytes × Bytes)} {field : Bytes × Bytes}
    (member : field ∈ fields) : .literal field.1 ∈ fieldTokens fields := by
  induction fields with
  | nil => cases member
  | cons first rest ih =>
      rcases List.mem_cons.mp member with rfl | member
      · exact List.mem_cons_self
      · exact List.mem_cons_of_mem _ (List.mem_append_right _ (ih member))

/-- A pasted statement is read as it was meant exactly when no value holds a
quote or a backslash. -/
theorem lex_build_iff (template : Template) (wellFormed : template.WellFormed) :
    lex unescape template.build = some template.tokens ↔
      ∀ field ∈ template.fields, Plain field.1 := by
  constructor
  · intro lexed field member
    refine (lexFrom_weight unescape .outside _ _ lexed).2 ?_ trivial field.1
      (List.mem_append_right _ (mem_fieldTokens member))
    simp only [Template.tokens, Template.build, weight_append, weight_raw, weight_fieldTokens,
      Mode.pending, List.length_append, Nat.zero_add]
  · exact lex_build unescape template wellFormed

end SqlText

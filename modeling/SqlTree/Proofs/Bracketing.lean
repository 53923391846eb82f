import SqlTree.Proofs.Likeness.Diagonal
import SqlTree.Proofs.Outcome

/-!
# What is read is well bracketed

Among the tokens of a statement round and square brackets enclose and follow each other, and no
brace stands there, whatever the tokens and the settings are.  The same is true of the tokens that
an expression, a query or a list of sources takes, wherever it starts and whatever comes after it.

The walk through the grammar follows the brackets that are open from left to right
(`Bracket.WellNested`).  Here that is turned into what brackets look like from outside (`Paired`).
-/

namespace SqlTree

def Bracket.left : Bracket → TokenType
  | .round => .lparen
  | .square => .lbracket

def Bracket.right : Bracket → TokenType
  | .round => .rparen
  | .square => .rbracket

/-- Whether tokens of a type open or close a bracket that can be part of a statement. -/
def TokenType.isPairing : TokenType → Bool
  | .lparen | .rparen | .lbracket | .rbracket => true
  | _ => false

/-- Brackets that enclose and follow each other. -/
inductive Paired : List TokenType → Prop where
  | nil : Paired []
  | enclose (bracket : Bracket) {inside after : List TokenType} (hinside : Paired inside)
      (hafter : Paired after) : Paired (bracket.left :: inside ++ bracket.right :: after)

def brackets (tokens : List Token) : List TokenType :=
  (tokens.map Token.type).filter TokenType.isPairing

/-- Tokens whose brackets enclose and follow each other, with no brace among them. -/
structure Bracketed (tokens : List Token) : Prop where
  paired : Paired (brackets tokens)
  noBrace : ∀ token ∈ tokens, token.type ≠ .lbrace ∧ token.type ≠ .rbrace

/-! ## Closing what is open -/

namespace Bracket

@[simp] theorem isPairing_left (bracket : Bracket) : bracket.left.isPairing = true := by
  cases bracket <;> rfl

@[simp] theorem isPairing_right (bracket : Bracket) : bracket.right.isPairing = true := by
  cases bracket <;> rfl

/-- What one token can do to the brackets that are open. -/
theorem step_cases {opened next : List Bracket} {type : TokenType}
    (hstep : step opened type = some next) :
    (∃ bracket, type = Bracket.left bracket ∧ next = bracket :: opened) ∨
      (∃ bracket, type = Bracket.right bracket ∧ opened = bracket :: next) ∨
        (type.isBracket = false ∧ next = opened) := by
  cases type
  case lparen => exact .inl ⟨.round, rfl, (Option.some.inj hstep).symm⟩
  case lbracket => exact .inl ⟨.square, rfl, (Option.some.inj hstep).symm⟩
  case rparen => exact .inr (.inl ⟨.round, rfl, close_eq_some.1 hstep⟩)
  case rbracket => exact .inr (.inl ⟨.square, rfl, close_eq_some.1 hstep⟩)
  case lbrace | rbrace => cases hstep
  all_goals exact .inr (.inr ⟨rfl, (Option.some.inj hstep).symm⟩)

/-- Brackets that close all that is open, from the innermost on, with pairs before and between. -/
def Closes : List Bracket → List TokenType → Prop
  | [], types => Paired types
  | bracket :: opened, types =>
    ∃ inside rest, Paired inside ∧ types = inside ++ bracket.right :: rest ∧ Closes opened rest

/-- A pair in front closes nothing more. -/
theorem Closes.enclose {opened : List Bracket} {inside rest : List TokenType} {bracket : Bracket}
    (hinside : Paired inside) (hrest : Closes opened rest) :
    Closes opened (bracket.left :: inside ++ bracket.right :: rest) := by
  cases opened with
  | nil => exact Paired.enclose bracket hinside hrest
  | cons outer opened =>
      obtain ⟨middle, rest, hmiddle, rfl, hrest⟩ := hrest
      refine ⟨_, rest, .enclose bracket hinside hmiddle, ?_, hrest⟩
      simp

/-- Tokens after which nothing is open close what was open before them. -/
theorem closes_of_after {opened : List Bracket} {tokens : List Token}
    (hafter : after opened tokens = some []) : Closes opened (brackets tokens) := by
  induction tokens generalizing opened with
  | nil =>
      cases hafter
      exact .nil
  | cons token tokens ih =>
      obtain ⟨next, hstep, hrest⟩ := Option.bind_eq_some_iff.1 hafter
      have hcloses := ih hrest
      obtain ⟨bracket, htype, rfl⟩ | ⟨bracket, htype, rfl⟩ | ⟨hplain, rfl⟩ := step_cases hstep
      · obtain ⟨inside, rest, hinside, hrest, hcloses⟩ := hcloses
        have hfront :
            brackets (token :: tokens) = bracket.left :: inside ++ bracket.right :: rest := by
          simpa [brackets, htype] using hrest
        exact hfront ▸ .enclose hinside hcloses
      · refine ⟨[], brackets tokens, .nil, ?_, hcloses⟩
        simp [brackets, htype]
      · have hnot : token.type.isPairing = false := by
          revert hplain
          cases token.type <;> simp [TokenType.isBracket, TokenType.isPairing]
        have hsame : brackets (token :: tokens) = brackets tokens := by
          simp [brackets, hnot]
        exact hsame ▸ hcloses

/-- No brace is among tokens that are followed through to their end. -/
theorem noBrace_of_after {opened rest : List Bracket} {tokens : List Token}
    (hafter : after opened tokens = some rest) :
    ∀ token ∈ tokens, token.type ≠ .lbrace ∧ token.type ≠ .rbrace := by
  induction tokens generalizing opened with
  | nil => exact List.forall_mem_nil _
  | cons token tokens ih =>
      obtain ⟨next, hstep, hrest⟩ := Option.bind_eq_some_iff.1 hafter
      refine List.forall_mem_cons.2 ⟨⟨?_, ?_⟩, ih hrest⟩
      · rintro htype
        rw [htype] at hstep
        cases hstep
      · rintro htype
        rw [htype] at hstep
        cases hstep

/-- Tokens that close every bracket they open, and no other, are bracketed. -/
theorem WellNested.bracketed {tokens : List Token} (h : WellNested tokens) : Bracketed tokens :=
  ⟨closes_of_after h, noBrace_of_after h⟩

end Bracket

/-! ## What the rules take -/

def Settings.query (settings : Settings) : Parser Expr :=
  fun c => (Level.atDepth settings c.depth).below .query c

def Settings.sources (settings : Settings) : Parser Expr :=
  fun c => (Level.atDepth settings c.depth).sources c

/-- Wherever it starts, the parser takes tokens that are bracketed. -/
def Parser.TakesBracketed {α : Type} (p : Parser α) : Prop :=
  ∀ c a d, p c = .ok a d → ∃ passed, c.Passes passed d ∧ Bracketed passed

open Likeness in
/-- A parser that is kept alike with itself on the level where it starts takes bracketed tokens. -/
theorem Likeness.Kept.takesBracketed {settings : Settings} {α : Type} {V : α → α → Prop}
    {read : Level → Parser α}
    (hread : ∀ g, (diagonal settings).Levels g g → (diagonal settings).Kept V (read g) (read g)) :
    Parser.TakesBracketed fun c => read (Level.atDepth settings c.depth) c := by
  intro c a d hok
  have hlevels := levels_atDepth (lawful_diagonal settings) c.depth
  obtain ⟨passed, hpasses, hnested⟩ := (hread _ hlevels).passes hok
  exact ⟨passed, hpasses, hnested.bracketed⟩

namespace Settings

/-- The brackets of a statement enclose and follow each other, with no brace among its tokens.  The
same is true of what an expression, a query or a list of sources takes. -/
theorem reads_bracketed (settings : Settings) :
    (∀ tokens e d, settings.statement (Cursor.start tokens) = .ok e d → Bracketed tokens) ∧
      settings.expression.TakesBracketed ∧ settings.query.TakesBracketed ∧
        settings.sources.TakesBracketed := by
  refine ⟨fun tokens e d hread => ?_, ?_, ?_, ?_⟩
  · have hstatement : settings.statement.TakesBracketed :=
      Likeness.Kept.takesBracketed fun _ hlevels => hlevels.statement
    obtain ⟨passed, hpasses, hbracketed⟩ := hstatement _ e d hread
    have hahead : d.ahead = [] := Level.leads_statement _ (.start tokens) e d trivial hread
    have htokens : tokens = passed := by simpa [hahead, Cursor.start] using hpasses.ahead
    exact htokens ▸ hbracketed
  · exact Likeness.Kept.takesBracketed fun _ hlevels => hlevels.expression
  · exact Likeness.Kept.takesBracketed fun _ hlevels => hlevels.below .query
  · exact Likeness.Kept.takesBracketed fun _ hlevels => hlevels.sources

/-- The tokens of `SELECT f ( a [ 1 ] ) FROM ( b )`. -/
def subscripted : List Token :=
  [.unplaced (.keyword .SELECT) "SELECT", .unplaced .identifier "f", .unplaced .lparen "(",
    .unplaced .identifier "a", .unplaced .lbracket "[", .unplaced .number "1",
    .unplaced .rbracket "]", .unplaced .rparen ")", .unplaced (.keyword .FROM) "FROM",
    .unplaced .lparen "(", .unplaced .identifier "b", .unplaced .rparen ")"]

/-- The statement, the query that it consists of, and the column and the source of that query. -/
theorem reads_bracketed_subscripted :
    (∃ e d, Dialect.postgreSql.settings.statement (.start subscripted) = .ok e d ∧
      Bracketed subscripted) ∧
    (∃ e d passed, Dialect.postgreSql.settings.expression (.start (subscripted.drop 1)) = .ok e d ∧
      (Cursor.start (subscripted.drop 1)).Passes passed d ∧ Bracketed passed) ∧
    (∃ e d passed, Dialect.postgreSql.settings.query (.start subscripted) = .ok e d ∧
      (Cursor.start subscripted).Passes passed d ∧ Bracketed passed) ∧
    ∃ e d passed, Dialect.postgreSql.settings.sources (.start (subscripted.drop 9)) = .ok e d ∧
      (Cursor.start (subscripted.drop 9)).Passes passed d ∧ Bracketed passed := by
  obtain ⟨hstatement, hexpression, hquery, hsources⟩ := reads_bracketed Dialect.postgreSql.settings
  refine ⟨?_, ?_, ?_, ?_⟩
  · obtain ⟨e, d, hread⟩ : ∃ e d,
        Dialect.postgreSql.settings.statement (.start subscripted) = .ok e d := ⟨_, _, rfl⟩
    exact ⟨e, d, hread, hstatement _ e d hread⟩
  · obtain ⟨e, d, hread⟩ : ∃ e d,
        Dialect.postgreSql.settings.expression (.start (subscripted.drop 1)) = .ok e d :=
          ⟨_, _, rfl⟩
    obtain ⟨passed, htaken⟩ := hexpression _ e d hread
    exact ⟨e, d, passed, hread, htaken⟩
  · obtain ⟨e, d, hread⟩ : ∃ e d,
        Dialect.postgreSql.settings.query (.start subscripted) = .ok e d := ⟨_, _, rfl⟩
    obtain ⟨passed, htaken⟩ := hquery _ e d hread
    exact ⟨e, d, passed, hread, htaken⟩
  · obtain ⟨e, d, hread⟩ : ∃ e d,
        Dialect.postgreSql.settings.sources (.start (subscripted.drop 9)) = .ok e d := ⟨_, _, rfl⟩
    obtain ⟨passed, htaken⟩ := hsources _ e d hread
    exact ⟨e, d, passed, hread, htaken⟩

end Settings

end SqlTree

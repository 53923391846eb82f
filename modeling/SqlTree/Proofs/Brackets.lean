import SqlTree.Grammar.Cursor

/-!
# Brackets among tokens

Reading tokens from the left leaves some brackets open.  Tokens are well nested when each closing
bracket closes the innermost open one and none stays open at the end.  A brace is never part of well
nested tokens.  Main statement: what tokens do to the open brackets does not depend on those that
were open before them (`Bracket.after_append_below`).
-/

namespace SqlTree

/-- A bracket that can be open. -/
inductive Bracket where
  | round
  | square
  deriving DecidableEq, Repr

/-- Whether tokens of a type open or close a bracket, or are a brace. -/
def TokenType.isBracket : TokenType → Bool
  | .lparen | .rparen | .lbracket | .rbracket | .lbrace | .rbrace => true
  | _ => false

namespace Bracket

/-- Closes the innermost bracket, which has to be the given one. -/
def close (bracket : Bracket) : List Bracket → Option (List Bracket)
  | [] => none
  | innermost :: opened => if innermost = bracket then some opened else none

/-- The brackets that are open after one more token, the innermost first. -/
def step (opened : List Bracket) : TokenType → Option (List Bracket)
  | .lparen => some (.round :: opened)
  | .lbracket => some (.square :: opened)
  | .rparen => close .round opened
  | .rbracket => close .square opened
  | .lbrace | .rbrace => none
  | _ => some opened

/-- The brackets that are open after some tokens, the innermost first. -/
def after : List Bracket → List Token → Option (List Bracket)
  | opened, [] => some opened
  | opened, token :: tokens => (step opened token.type).bind fun opened => after opened tokens

/-- Tokens that close every bracket they open, and no other. -/
def WellNested (tokens : List Token) : Prop :=
  after [] tokens = some []

@[simp] theorem after_nil (opened : List Bracket) : after opened [] = some opened :=
  rfl

theorem after_cons
    (opened : List Bracket) (token : Token) (tokens : List Token) :
    after opened (token :: tokens) =
      (step opened token.type).bind fun opened => after opened tokens :=
  rfl

theorem after_append
    (opened : List Bracket) (xs ys : List Token) :
    after opened (xs ++ ys) = (after opened xs).bind fun opened => after opened ys := by
  induction xs generalizing opened with
  | nil => rfl
  | cons x xs ih =>
      rw [List.cons_append, after_cons, after_cons, Option.bind_assoc]
      exact Option.bind_congr fun opened _ => ih opened

/-- Tokens that are no brackets leave the open brackets alone. -/
theorem step_of_not_isBracket
    {type : TokenType} (htype : type.isBracket = false) (opened : List Bracket) :
    step opened type = some opened := by
  cases type <;> first | rfl | cases htype

theorem close_eq_some {bracket : Bracket} {opened rest : List Bracket} :
    close bracket opened = some rest ↔ opened = bracket :: rest := by
  cases opened with
  | nil => exact ⟨nofun, nofun⟩
  | cons innermost opened =>
      by_cases heq : innermost = bracket
      · simp [close, heq]
      · simp [close, heq]

theorem close_append_below
    {bracket : Bracket} {opened rest : List Bracket}
    (hclose : close bracket opened = some rest) (below : List Bracket) :
    close bracket (opened ++ below) = some (rest ++ below) := by
  rw [close_eq_some] at hclose ⊢
  rw [hclose, List.cons_append]

theorem step_append_below
    {type : TokenType} {opened rest : List Bracket}
    (hstep : step opened type = some rest) (below : List Bracket) :
    step (opened ++ below) type = some (rest ++ below) := by
  cases type
  case rparen | rbracket => exact close_append_below hstep below
  case lbrace | rbrace => cases hstep
  all_goals
    rw [← Option.some.inj hstep]
    rfl

/-- Brackets that were open before do not matter. -/
theorem after_append_below
    {opened rest : List Bracket} {tokens : List Token}
    (hafter : after opened tokens = some rest) (below : List Bracket) :
    after (opened ++ below) tokens = some (rest ++ below) := by
  induction tokens generalizing opened with
  | nil => simpa using hafter
  | cons token tokens ih =>
      obtain ⟨next, hnext, hrest⟩ := Option.bind_eq_some_iff.1 hafter
      rw [after_cons, step_append_below hnext below]
      exact ih hrest

end Bracket

/-- A cursor moved over some tokens, on the same nesting level. -/
structure Cursor.Passes (c : Cursor) (tokens : List Token) (d : Cursor) : Prop where
  ahead : c.ahead = tokens ++ d.ahead
  behind : d.behind = tokens.reverse ++ c.behind
  depth : d.depth = c.depth

namespace Cursor.Passes

theorem refl (c : Cursor) : c.Passes [] c :=
  ⟨rfl, rfl, rfl⟩

theorem trans
    {c d e : Cursor} {xs ys : List Token}
    (hfirst : c.Passes xs d) (hsecond : d.Passes ys e) :
    c.Passes (xs ++ ys) e where
  ahead := by rw [hfirst.ahead, hsecond.ahead, List.append_assoc]
  behind := by
    rw [hsecond.behind, hfirst.behind, List.reverse_append, List.append_assoc]
  depth := hsecond.depth.trans hfirst.depth

/-- Passing tokens leaves the tokens as a whole alone. -/
theorem tokens_eq {c d : Cursor} {tokens : List Token} (h : c.Passes tokens d) :
    d.tokens = c.tokens := by
  simp [Cursor.tokens, h.behind, h.ahead]

/-- The tokens that are passed are ahead no more. -/
theorem length_ahead {c d : Cursor} {tokens : List Token} (h : c.Passes tokens d) :
    c.ahead.length = tokens.length + d.ahead.length := by
  rw [h.ahead, List.length_append]

/-- One step passes the next token. -/
theorem step
    {c : Cursor} {token : Token} {tokens : List Token} (hahead : c.ahead = token :: tokens) :
    c.Passes [token] c.step := by
  obtain ⟨behind, ahead, depth⟩ := c
  cases hahead
  exact ⟨rfl, rfl, rfl⟩

end Cursor.Passes

end SqlTree

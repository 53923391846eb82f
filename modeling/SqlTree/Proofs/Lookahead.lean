import SqlTree.Grammar.Cursor
import SqlTree.Proofs.Brackets

/-!
# Looking ahead for a query

The look ahead counts the parentheses that tokens start with and then follows them until all are
closed.  Read token by token, it asks the same question behind each opening parenthesis
(`Lookahead.queryAfter`).  It passes over well nested tokens without noticing them, and what it
accepts with one parenthesis more it accepts with one less.
-/

namespace SqlTree

namespace Lookahead

/-- Whether a query starts at the front of the tokens, behind a number of parentheses that have been
opened before. -/
def queryAfter (leading : Nat) : List Token → Bool
  | [] => false
  | token :: rest =>
    if token.type = .lparen then queryAfter (leading + 1) rest
    else (token.type == .keyword .SELECT || token.type == .keyword .WITH) &&
      leadingClose leading leading rest

theorem queryAfter_eq (leading : Nat) (tokens : List Token) :
    queryAfter leading tokens =
      match tokens.dropWhile fun token => token.type == .lparen with
      | [] => false
      | token :: rest =>
        (token.type == .keyword .SELECT || token.type == .keyword .WITH) &&
          leadingClose (leading + (tokens.takeWhile fun token => token.type == .lparen).length)
            (leading + (tokens.takeWhile fun token => token.type == .lparen).length) rest := by
  induction tokens generalizing leading with
  | nil => rfl
  | cons token tokens ih =>
      unfold queryAfter
      by_cases hparen : token.type = .lparen
      · simp [hparen, ih, Nat.add_assoc, Nat.add_comm 1]
      · simp [hparen]

theorem queryAfter_lparen
    {token : Token} (htype : token.type = .lparen) (leading : Nat) (tokens : List Token) :
    queryAfter leading (token :: tokens) = queryAfter (leading + 1) tokens := by
  rw [queryAfter, if_pos htype]

theorem queryAfter_start
    {token : Token} (htype : token.type = .keyword .SELECT ∨ token.type = .keyword .WITH)
    (leading : Nat) (tokens : List Token) :
    queryAfter leading (token :: tokens) = leadingClose leading leading tokens := by
  rcases htype with htype | htype <;> simp [queryAfter, htype]

@[simp] theorem leadingClose_zero (lowest : Nat) (tokens : List Token) :
    leadingClose 0 lowest tokens = true := by
  cases tokens <;> rfl

/-- Where the innermost of the leading parentheses closes, an operand has to end. -/
theorem leadingClose_rparen
    {token : Token} (htype : token.type = .rparen) (isOpen : Nat) (tokens : List Token) :
    leadingClose (isOpen + 1) (isOpen + 1) (token :: tokens) =
      (endsOperand tokens && leadingClose isOpen isOpen tokens) := by
  simp [leadingClose, htype]

/-- How many of the open brackets are parentheses. -/
def rounds (opened : List Bracket) : Nat :=
  opened.count .round

theorem rounds_of_lparen
    {opened rest : List Bracket} (hstep : Bracket.step opened .lparen = some rest) :
    rounds rest = rounds opened + 1 := by
  cases hstep
  exact List.count_cons_self

theorem rounds_of_rparen
    {opened rest : List Bracket} (hstep : Bracket.step opened .rparen = some rest) :
    rounds opened = rounds rest + 1 := by
  match opened, hstep with
  | .round :: _, rfl => exact List.count_cons_self

theorem rounds_of_other
    {type : TokenType} {opened rest : List Bracket} (hstep : Bracket.step opened type = some rest)
    (hleft : type ≠ .lparen) (hright : type ≠ .rparen) : rounds rest = rounds opened := by
  cases type
  case lparen => exact (hleft rfl).elim
  case rparen => exact (hright rfl).elim
  case rbracket =>
      match opened, hstep with
      | .square :: _, rfl => rfl
  case lbrace | rbrace => cases hstep
  all_goals
    cases hstep
    rfl

/-- Tokens that open and close brackets move the count of parentheses and nothing else, as long as
no leading one closes. -/
theorem leadingClose_append
    {opened rest : List Bracket} {tokens : List Token}
    (hafter : Bracket.after opened tokens = some rest) {isOpen lowest : Nat}
    (hlowest : lowest ≤ isOpen) (hopen : 0 < isOpen) (behind : List Token) :
    leadingClose (isOpen + rounds opened) lowest (tokens ++ behind) =
      leadingClose (isOpen + rounds rest) lowest behind := by
  induction tokens generalizing opened with
  | nil =>
      cases hafter
      rfl
  | cons token tokens ih =>
      obtain ⟨next, hnext, hrest⟩ := Option.bind_eq_some_iff.1 hafter
      have hcount : isOpen + rounds opened ≠ 0 := by omega
      rw [← ih hrest, List.cons_append, leadingClose, if_neg hcount]
      by_cases hleft : token.type = .lparen
      · rw [hleft] at hnext
        rw [if_pos hleft, rounds_of_lparen hnext, Nat.add_assoc]
      by_cases hright : token.type = .rparen
      · rw [hright] at hnext
        have hround := rounds_of_rparen hnext
        have hlow : ¬isOpen + rounds opened - 1 < lowest := by omega
        rw [if_neg hleft, if_pos hright, if_neg hlow, hround]
        rfl
      · rw [if_neg hleft, if_neg hright, rounds_of_other hnext hleft hright]

/-- Well nested tokens are passed over unnoticed. -/
theorem leadingClose_wellNested
    {tokens : List Token} (hnested : Bracket.WellNested tokens) (isOpen : Nat)
    (behind : List Token) :
    leadingClose isOpen isOpen (tokens ++ behind) = leadingClose isOpen isOpen behind := by
  cases isOpen with
  | zero => rw [leadingClose_zero, leadingClose_zero]
  | succ isOpen => exact leadingClose_append hnested (Nat.le_refl _) (Nat.succ_pos _) behind

/-- One parenthesis less is easier to close. -/
theorem leadingClose_pred
    {isOpen lowest : Nat} {tokens : List Token}
    (hclose : leadingClose (isOpen + 1) (lowest + 1) tokens = true) :
    leadingClose isOpen lowest tokens = true := by
  induction tokens generalizing isOpen lowest with
  | nil => cases hclose
  | cons token tokens ih =>
      cases isOpen with
      | zero => exact leadingClose_zero lowest _
      | succ isOpen =>
          unfold leadingClose at hclose ⊢
          rw [if_neg (Nat.succ_ne_zero _)] at hclose ⊢
          by_cases hleft : token.type = .lparen
          · rw [if_pos hleft] at hclose ⊢
            exact ih hclose
          by_cases hright : token.type = .rparen
          · rw [if_neg hleft, if_pos hright] at hclose ⊢
            by_cases hlow : isOpen < lowest
            · have hlow' : isOpen + 1 < lowest + 1 := by omega
              simp only [Nat.add_sub_cancel, if_pos hlow, if_pos hlow',
                Bool.and_eq_true] at hclose ⊢
              exact ⟨hclose.1, ih hclose.2⟩
            · have hlow' : ¬isOpen + 1 < lowest + 1 := by omega
              simp only [Nat.add_sub_cancel, if_neg hlow, if_neg hlow'] at hclose ⊢
              exact ih hclose
          · rw [if_neg hleft, if_neg hright] at hclose ⊢
            exact ih hclose

/-- What starts a query behind an opening parenthesis starts one without it. -/
theorem queryAfter_pred
    {leading : Nat} {tokens : List Token} (hquery : queryAfter (leading + 1) tokens = true) :
    queryAfter leading tokens = true := by
  induction tokens generalizing leading with
  | nil => cases hquery
  | cons token tokens ih =>
      unfold queryAfter at hquery ⊢
      by_cases hparen : token.type = .lparen
      · rw [if_pos hparen] at hquery ⊢
        exact ih hquery
      · rw [if_neg hparen, Bool.and_eq_true] at hquery ⊢
        exact ⟨hquery.1, leadingClose_pred hquery.2⟩

end Lookahead

theorem startsQuery_eq (tokens : List Token) :
    startsQuery tokens = Lookahead.queryAfter 0 tokens := by
  simp only [Lookahead.queryAfter_eq, Nat.zero_add]
  rfl

end SqlTree

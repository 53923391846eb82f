import Mathlib.Data.List.Chain
import SqlTree.Proofs.Likeness.Diagonal
import SqlTree.Proofs.Stop

/-!
# What stands in parentheses

Behind an opening parenthesis the grammar reads a query or an expression, and decides which by
looking ahead.  The decision is exact: where a query can be read up to the closing parenthesis,
the look ahead says so, and where an expression can be read up to it, reading a query in its place
gives the same tree.  The reason is that a query starts with parentheses each of which closes
before a set operator or another closing parenthesis (`queryAfter_of_produce`).
-/

namespace SqlTree

open SqlTree.Parser

namespace Level

variable {g : Level} {c d : Cursor}

/-! ## Queries in parentheses -/

theorem parenthesizedQuery_eq_ok {e : Expr} :
    g.parenthesizedQuery c = .ok e d ↔
      c.nextType = some .lparen ∧
        ∃ query d', g.below .query c.step = .ok query d' ∧ d'.nextType = some .rparen ∧
          e = g.subquery query ∧ d = d'.step := by
  unfold parenthesizedQuery
  constructor
  · intro hread
    obtain ⟨_, _, hopen, hread⟩ := bind_eq_ok.1 hread
    obtain ⟨query, d', hquery, hread⟩ := bind_eq_ok.1 hread
    obtain ⟨_, _, hclose, hread⟩ := bind_eq_ok.1 hread
    obtain ⟨tokens, hahead, htype, rfl⟩ := expect_eq_ok.1 hopen
    obtain ⟨tokens', hahead', htype', rfl⟩ := expect_eq_ok.1 hclose
    obtain ⟨rfl, rfl⟩ := pure_eq_ok.1 hread
    refine ⟨?_, query, d', hquery, ?_, rfl, rfl⟩
    · rw [Cursor.nextType_of_ahead hahead, htype]
    · rw [Cursor.nextType_of_ahead hahead', htype']
  · rintro ⟨hopen, query, d', hquery, hclose, rfl, rfl⟩
    obtain ⟨_, hopen⟩ := expect_of_next hopen
    obtain ⟨_, hclose⟩ := expect_of_next hclose
    rw [bind_of_ok hopen, bind_of_ok hquery, bind_of_ok hclose]
    rfl

theorem parenthesized_of_startsQuery
    (hopen : c.nextType = some .lparen) (hquery : startsQuery c.step.ahead = true) :
    g.parenthesized c = g.parenthesizedQuery c := by
  obtain ⟨token, hopen⟩ := expect_of_next hopen
  unfold parenthesized parenthesizedQuery
  rw [bind_of_ok hopen, bind_of_ok hopen]
  have htest : test (fun c => startsQuery c.ahead) c.step = .ok true c.step := by
    rw [test, hquery]
  rw [branch_of_true htest]

theorem unit_of_lparen (hopen : c.nextType = some .lparen) : g.unit c = g.parenthesized c := by
  have hpeek : peekType c = .ok (some .lparen) c := by rw [peekType, hopen]
  unfold unit
  rw [bind_of_ok hpeek]

/-! ## The start of a query -/

theorem endsOperand_of_nextType
    {type : TokenType} (hnext : c.nextType = some type)
    (htype : type = .keyword .UNION ∨ type = .keyword .INTERSECT ∨ type = .keyword .EXCEPT ∨
      type = .keyword .MINUS ∨ type = .rparen) :
    Lookahead.endsOperand c.ahead = true := by
  obtain ⟨token, tokens, hahead, rfl⟩ := Cursor.exists_ahead_of_nextType hnext
  rw [hahead, Lookahead.endsOperand]
  rcases htype with htype | htype | htype | htype | htype <;> rw [htype]

theorem setOp_of_not_next (hunion : c.nextType ≠ some (.keyword .UNION))
    (hintersect : c.nextType ≠ some (.keyword .INTERSECT))
    (hexcept : c.nextType ≠ some (.keyword .EXCEPT))
    (hminus : c.nextType ≠ some (.keyword .MINUS)) :
    setOp c = .ok none c := by
  unfold setOp acceptKeyword
  rw [branch_of_false (accept_of_not_next hunion), branch_of_false (accept_of_not_next hintersect),
    branch_of_false (accept_of_not_next hexcept), branch_of_false (accept_of_not_next hminus)]
  rfl

/-- A set operator ends the operand before it. -/
theorem setOp_eq_none_or_endsOperand (c : Cursor) :
    setOp c = .ok none c ∨ Lookahead.endsOperand c.ahead = true := by
  by_cases hunion : c.nextType = some (.keyword .UNION)
  · exact .inr (endsOperand_of_nextType hunion (.inl rfl))
  by_cases hintersect : c.nextType = some (.keyword .INTERSECT)
  · exact .inr (endsOperand_of_nextType hintersect (.inr (.inl rfl)))
  by_cases hexcept : c.nextType = some (.keyword .EXCEPT)
  · exact .inr (endsOperand_of_nextType hexcept (.inr (.inr (.inl rfl))))
  by_cases hminus : c.nextType = some (.keyword .MINUS)
  · exact .inr (endsOperand_of_nextType hminus (.inr (.inr (.inr (.inl rfl)))))
  exact .inl (setOp_of_not_next hunion hintersect hexcept hminus)

/-- Where no operand ends, no set operator follows. -/
theorem loop_unionTurn_or_endsOperand (left : Expr) (c : Cursor) :
    loop g.unionTurn left c = .ok left c ∨ Lookahead.endsOperand c.ahead = true := by
  rcases setOp_eq_none_or_endsOperand c with hnone | hends
  · refine .inl (loop_of_done ?_)
    unfold unionTurn
    rw [bind_of_ok hnone]
    rfl
  · exact .inr hends

theorem nextType_of_selectQuery {e : Expr} (hread : g.selectQuery c = .ok e d) :
    c.nextType = some (.keyword .SELECT) := by
  obtain ⟨_, _, hselect, -⟩ := bind_eq_ok.1 hread
  obtain ⟨tokens, hahead, htype, -⟩ := expect_eq_ok.1 hselect
  rw [Cursor.nextType_of_ahead hahead, htype]

theorem queryOperand_of_lparen (hopen : c.nextType = some .lparen) :
    g.queryOperand c = g.parenthesizedQuery c := by
  have hnext : isNext .lparen c = .ok true c := by rw [isNext, test, hopen, beq_self_eq_true]
  unfold queryOperand
  rw [branch_of_true hnext]

theorem queryOperand_of_not_lparen (hopen : c.nextType ≠ some .lparen) :
    g.queryOperand c = g.selectQuery c := by
  have hnext : isNext .lparen c = .ok false c := by rw [isNext, test, beq_eq_false_iff_ne.2 hopen]
  unfold queryOperand
  rw [branch_of_false hnext]

/-- A query without named queries is a chain; what its parentheses leave is its value. -/
theorem queryChain_of_query
    {e : Expr} (hwith : c.nextType ≠ some (.keyword .WITH)) (hread : g.query c = .ok e d) :
    ∃ chain, g.queryChain c = .ok chain d ∧ e = unwrap chain := by
  unfold query afterKeyword acceptKeyword at hread
  obtain ⟨ws, c', hnone, hread⟩ := bind_eq_ok.1 hread
  rw [branch_of_false (accept_of_not_next hwith)] at hnone
  obtain ⟨rfl, rfl⟩ := pure_eq_ok.1 hnone
  obtain ⟨chain, d', hchain, hread⟩ := bind_eq_ok.1 hread
  obtain ⟨rfl, rfl⟩ := pure_eq_ok.1 hread
  exact ⟨chain, hchain, rfl⟩

/-- A chain of queries that starts with a parenthesis starts with a query in parentheses, and where
that ends an operand ends or the whole chain does. -/
theorem exists_of_queryChain
    {e : Expr} (hselect : c.nextType ≠ some (.keyword .SELECT))
    (hread : g.queryChain c = .ok e d) :
    c.nextType = some .lparen ∧
      ∃ query d', g.below .query c.step = .ok query d' ∧ d'.nextType = some .rparen ∧
        loop g.unionTurn (g.subquery query) d'.step = .ok e d := by
  obtain ⟨left, c', hoperand, hloop⟩ := bind_eq_ok.1 hread
  by_cases hopen : c.nextType = some .lparen
  · rw [queryOperand_of_lparen hopen] at hoperand
    obtain ⟨-, query, d', hquery, hclose, rfl, rfl⟩ := parenthesizedQuery_eq_ok.1 hoperand
    exact ⟨hopen, query, d', hquery, hclose, hloop⟩
  · rw [queryOperand_of_not_lparen hopen] at hoperand
    exact (hselect (nextType_of_selectQuery hoperand)).elim

/-! ## The look ahead finds a query -/

/-- Behind a query that starts with a keyword, the look ahead is where the query ends. -/
theorem queryAfter_of_start
    {tokens : List Token} (hpasses : c.Passes tokens d) (hnested : Bracket.WellNested tokens)
    (hstart : c.nextType = some (.keyword .SELECT) ∨ c.nextType = some (.keyword .WITH))
    (hends : Lookahead.endsOperand d.ahead = true) (leading : Nat) :
    Lookahead.queryAfter leading c.ahead = Lookahead.leadingClose leading leading d.ahead := by
  obtain ⟨token, rest, hahead, htype⟩ : ∃ token rest, c.ahead = token :: rest ∧
      (token.type = .keyword .SELECT ∨ token.type = .keyword .WITH) := by
    rcases hstart with hstart | hstart
    · obtain ⟨token, rest, hahead, htype⟩ := Cursor.exists_ahead_of_nextType hstart
      exact ⟨token, rest, hahead, .inl htype⟩
    · obtain ⟨token, rest, hahead, htype⟩ := Cursor.exists_ahead_of_nextType hstart
      exact ⟨token, rest, hahead, .inr htype⟩
  have hsplit := hpasses.ahead
  rw [hahead] at hsplit
  cases tokens with
  | nil =>
      rw [List.nil_append] at hsplit
      rw [← hsplit, Lookahead.endsOperand] at hends
      rcases htype with htype | htype <;> rw [htype] at hends <;> cases hends
  | cons first tokens =>
      rw [List.cons_append] at hsplit
      obtain ⟨rfl, rfl⟩ := List.cons.inj hsplit
      have hplain : token.type.isBracket = false := by
        rcases htype with htype | htype <;> rw [htype] <;> rfl
      have htokens : Bracket.WellNested tokens := by
        rw [Bracket.WellNested, Bracket.after_cons, Bracket.step_of_not_isBracket hplain] at hnested
        exact hnested
      rw [hahead, Lookahead.queryAfter_start htype, Lookahead.leadingClose_wellNested htokens]

/-- One level of `queryAfter_of_produce`. -/
theorem queryAfter_of_query
    {settings : Settings} (hg : (Likeness.diagonal settings).Levels g g)
    (hbelow : ∀ {c d : Cursor} {e : Expr} (leading : Nat), g.below .query c = .ok e d →
      Lookahead.endsOperand d.ahead = true →
        Lookahead.queryAfter leading c.ahead = Lookahead.leadingClose leading leading d.ahead)
    {e : Expr} (hread : g.query c = .ok e d) (hends : Lookahead.endsOperand d.ahead = true)
    (leading : Nat) :
    Lookahead.queryAfter leading c.ahead = Lookahead.leadingClose leading leading d.ahead := by
  obtain ⟨tokens, hpasses, hnested⟩ := hg.query.passes hread
  by_cases hwith : c.nextType = some (.keyword .WITH)
  · exact queryAfter_of_start hpasses hnested (.inr hwith) hends leading
  by_cases hselect : c.nextType = some (.keyword .SELECT)
  · exact queryAfter_of_start hpasses hnested (.inl hselect) hends leading
  obtain ⟨chain, hchain, -⟩ := queryChain_of_query hwith hread
  obtain ⟨hopen, query, d', hquery, hclose, hloop⟩ := exists_of_queryChain hselect hchain
  -- Where the first operand ends, a set operator follows or the query ends.
  have hends' : Lookahead.endsOperand d'.step.ahead = true := by
    rcases loop_unionTurn_or_endsOperand (g := g) (g.subquery query) d'.step with hdone | hmore
    · rw [hloop, EStateM.Result.ok.injEq] at hdone
      exact hdone.2 ▸ hends
    · exact hmore
  have hrest : Lookahead.leadingClose leading leading d'.step.ahead =
      Lookahead.leadingClose leading leading d.ahead := by
    obtain ⟨tokens', hpasses', hnested'⟩ :=
      (Likeness.Kept.loop (fun _ _ hleft => hg.unionTurn hleft)
        (Likeness.Like.refl rfl (g.subquery query))).passes hloop
    rw [hpasses'.ahead, Lookahead.leadingClose_wellNested hnested']
  obtain ⟨token, tokens₁, hahead, htype⟩ := Cursor.exists_ahead_of_nextType hopen
  obtain ⟨token', tokens₂, hahead', htype'⟩ := Cursor.exists_ahead_of_nextType hclose
  have hinner := hbelow (leading + 1) hquery
    (endsOperand_of_nextType hclose (.inr (.inr (.inr (.inr rfl)))))
  rw [Cursor.step_ahead hahead, hahead', Lookahead.leadingClose_rparen htype',
    ← Cursor.step_ahead hahead', hends', Bool.true_and, hrest] at hinner
  rw [hahead, Lookahead.queryAfter_lparen htype, hinner]

/-- Where a query can be read up to the end of an operand, the look ahead goes on as from that
end. -/
theorem queryAfter_of_produce
    {settings : Settings} {levels : Nat} {e : Expr}
    (hread : produce settings levels .query c = .ok e d)
    (hends : Lookahead.endsOperand d.ahead = true) (leading : Nat) :
    Lookahead.queryAfter leading c.ahead = Lookahead.leadingClose leading leading d.ahead := by
  induction levels generalizing c d e leading with
  | zero => cases hread
  | succ levels ih =>
      obtain ⟨d', hrule, rfl⟩ := nested_eq_ok.1 hread
      exact queryAfter_of_query (Likeness.levels_diagonal settings levels)
        (fun leading hread hends => ih hread hends leading) hrule hends leading

/-- A query that can be read up to a closing parenthesis is found by the look ahead. -/
theorem startsQuery_of_produce
    {settings : Settings} {levels : Nat} {e : Expr}
    (hread : produce settings levels .query c = .ok e d) (hclose : d.nextType = some .rparen) :
    startsQuery c.ahead = true := by
  have hends := endsOperand_of_nextType hclose (.inr (.inr (.inr (.inr rfl))))
  rw [startsQuery_eq, queryAfter_of_produce hread hends, Lookahead.leadingClose_zero]

/-! ## Expressions in parentheses -/

theorem nextType_of_endsOperand (hends : Lookahead.endsOperand c.ahead = true) :
    ∃ type, c.nextType = some type ∧
      (type = .keyword .UNION ∨ type = .keyword .INTERSECT ∨ type = .keyword .EXCEPT ∨
        type = .keyword .MINUS ∨ type = .rparen) := by
  obtain ⟨behind, _ | ⟨token, ahead⟩, depth⟩ := c
  · cases hends
  refine ⟨token.type, rfl, ?_⟩
  simp only [Lookahead.endsOperand] at hends
  revert hends
  split <;> simp_all

theorem parenthesized_of_not_startsQuery
    {e : Expr} (hopen : c.nextType = some .lparen) (hquery : startsQuery c.step.ahead = false)
    (hread : g.expression c.step = .ok e d) (hclose : d.nextType = some .rparen) :
    g.parenthesized c = .ok e d.step := by
  obtain ⟨_, hopen⟩ := expect_of_next hopen
  obtain ⟨_, hclose⟩ := expect_of_next hclose
  have htest : test (fun c => startsQuery c.ahead) c.step = .ok false c.step := by
    rw [test, hquery]
  unfold parenthesized
  rw [bind_of_ok hopen, branch_of_false htest, bind_of_ok hread, bind_of_ok hclose]
  rfl

/-- Where a set operator or a closing parenthesis follows an operand, the operand is the whole
expression. -/
theorem expression_of_operand
    {e : Expr} (hnot : c.nextType ≠ some (.keyword .NOT)) (hread : g.below .operand c = .ok e d)
    (hends : Lookahead.endsOperand d.ahead = true) : g.expression c = .ok e d := by
  obtain ⟨type, hnext, htype⟩ := nextType_of_endsOperand hends
  have hstop : d.continuesPredicate = false := by
    rw [Cursor.continuesPredicate, Cursor.isNegatedPredicate, hnext]
    rcases htype with rfl | rfl | rfl | rfl | rfl <;> rfl
  have hmultiplicative : g.multiplicative c = .ok e d := chain_of_stop hread (by
    rw [hnext]
    rcases htype with rfl | rfl | rfl | rfl | rfl <;> rfl)
  have hadditive : g.additive c = .ok e d := chain_of_stop hmultiplicative (by
    rw [hnext]
    rcases htype with rfl | rfl | rfl | rfl | rfl <;> rfl)
  have hrelational : g.relational c = .ok e d := by
    unfold relational
    rw [bind_of_ok hadditive]
    exact loop_of_done (predicate_stop hstop)
  have hnegation : g.negation c = .ok e d := (negation_of_no_not hnot).trans hrelational
  refine chain_of_stop (chain_of_stop (chain_of_stop hnegation ?_) ?_) ?_
  all_goals
    rw [hnext]
    rcases htype with rfl | rfl | rfl | rfl | rfl <;> rfl

theorem exists_of_chain
    {operator? : TokenType → Option BinaryOp} {operand : Parser Expr} {e : Expr}
    (hread : g.chain operator? operand c = .ok e d) : ∃ left d', operand c = .ok left d' := by
  obtain ⟨left, d', hoperand, -⟩ := bind_eq_ok.1 hread
  exact ⟨left, d', hoperand⟩

theorem exists_negation_of_expression {e : Expr} (hread : g.expression c = .ok e d) :
    ∃ e' d', g.negation c = .ok e' d' := by
  obtain ⟨_, _, hread⟩ := exists_of_chain hread
  obtain ⟨_, _, hread⟩ := exists_of_chain hread
  exact exists_of_chain hread

/-- An expression that does not start with `NOT` starts with an operand. -/
theorem exists_operand_of_expression
    {e : Expr} (hnot : c.nextType ≠ some (.keyword .NOT)) (hread : g.expression c = .ok e d) :
    ∃ operand d', g.below .operand c = .ok operand d' := by
  obtain ⟨_, _, hread⟩ := exists_negation_of_expression hread
  rw [negation_of_no_not hnot] at hread
  obtain ⟨_, _, hread, -⟩ := bind_eq_ok.1 hread
  obtain ⟨_, _, hread⟩ := exists_of_chain hread
  exact exists_of_chain hread

/-- No expression starts like a query. -/
theorem not_unit_of_start {e : Expr}
    (hstart : c.nextType = some (.keyword .SELECT) ∨ c.nextType = some (.keyword .WITH)) :
    g.unit c ≠ .ok e d := by
  intro hread
  rcases hstart with hnext | hnext
  all_goals
    have hpeek : peekType c = .ok c.nextType c := rfl
    have htest : test (fun c => c.startsName || c.startsKeywordCall) c = .ok false c := by
      rw [test, Cursor.startsName, Cursor.startsKeywordCall, hnext]
      rfl
    unfold unit keywordUnit at hread
    rw [bind_of_ok hpeek, hnext] at hread
    dsimp only at hread
    rw [branch_of_false htest] at hread
    cases hread

/-- No set operator is spelled `AT` with a word `TIME` behind it. -/
def NoSetOperatorAtTime (tokens : List Token) : Prop :=
  tokens.IsChain fun a b =>
    Lookahead.endsOperand [a] = true → a.isThisWord "AT" = true → b.isThisWord "TIME" = false

theorem not_continuesOperand_of_endsOperand
    (hends : Lookahead.endsOperand c.ahead = true) (hwords : NoSetOperatorAtTime c.ahead) :
    c.continuesOperand = false := by
  obtain ⟨type, hnext, htype⟩ := nextType_of_endsOperand hends
  have hbracket : (c.nextType == some .lbracket) = false := by
    rw [hnext]
    rcases htype with rfl | rfl | rfl | rfl | rfl <;> rfl
  have hcollate : (c.nextType == some (.keyword .COLLATE)) = false := by
    rw [hnext]
    rcases htype with rfl | rfl | rfl | rfl | rfl <;> rfl
  rw [Cursor.continuesOperand, hbracket, hcollate]
  rcases hahead : c.ahead with _ | ⟨a, _ | ⟨b, tail⟩⟩
  · rfl
  · rfl
  · rw [hahead] at hends hwords
    cases hat : a.isThisWord "AT" with
    | false => simp [hat]
    | true => simp [hat, (List.isChain_cons_cons.1 hwords).1 hends hat]

/-- A query starts with a parenthesis or with one of two keywords. -/
theorem nextType_of_queryAfter
    {leading : Nat} (hquery : Lookahead.queryAfter leading c.ahead = true) :
    c.nextType = some .lparen ∨ c.nextType = some (.keyword .SELECT) ∨
      c.nextType = some (.keyword .WITH) := by
  cases hahead : c.ahead with
  | nil =>
      rw [hahead] at hquery
      cases hquery
  | cons token tokens =>
      rw [Cursor.nextType_of_ahead hahead]
      rw [hahead, Lookahead.queryAfter] at hquery
      by_cases hparen : token.type = .lparen
      · exact .inl (congrArg some hparen)
      · rw [if_neg hparen, Bool.and_eq_true, Bool.or_eq_true, beq_iff_eq, beq_iff_eq] at hquery
        rcases hquery.1 with htype | htype
        · exact .inr (.inl (congrArg some htype))
        · exact .inr (.inr (congrArg some htype))

/-- A query in parentheses that an operand consists of can also be read as a query, with its
parentheses. -/
theorem query_of_parenthesizedQuery
    {e : Expr} (hopen : c.nextType = some .lparen) (hread : g.parenthesizedQuery c = .ok e d)
    (hclose : d.nextType = some .rparen) :
    ∃ query, g.query c = .ok query d ∧ e = g.subquery query := by
  obtain ⟨-, query, d', hquery, hinner, rfl, rfl⟩ := parenthesizedQuery_eq_ok.1 hread
  refine ⟨query, ?_, rfl⟩
  have hwith : acceptKeyword .WITH c = .ok false c := accept_of_not_next (by simp [hopen])
  have hoperand : g.queryOperand c = .ok (g.subquery query) d'.step :=
    (queryOperand_of_lparen hopen).trans hread
  have hsetOp : setOp d'.step = .ok none d'.step :=
    setOp_of_not_next (by simp [hclose]) (by simp [hclose]) (by simp [hclose]) (by simp [hclose])
  have hchain : g.queryChain c = .ok (g.subquery query) d'.step := by
    unfold queryChain
    rw [bind_of_ok hoperand]
    refine loop_of_done ?_
    unfold unionTurn
    rw [bind_of_ok hsetOp]
    rfl
  unfold Level.query afterKeyword
  rw [bind_of_ok (show _ = EStateM.Result.ok none c by
    rw [bind_of_ok hwith, if_neg Bool.false_ne_true]; rfl), bind_of_ok hchain]
  rfl

/-- What an operand that starts like a query in parentheses is. -/
theorem operand_of_startsQuery
    {settings : Settings} {levels : Nat} {e : Expr} (hquery : startsQuery c.ahead = true)
    (hwords : NoSetOperatorAtTime c.ahead)
    (hread : (Level.mk settings (produce settings levels)).operand c = .ok e d) :
    c.nextType = some .lparen ∧ Lookahead.endsOperand d.ahead = true ∧
      (Level.mk settings (produce settings levels)).parenthesizedQuery c = .ok e d := by
  rw [startsQuery_eq] at hquery
  have hfirst := nextType_of_queryAfter hquery
  have hsign : ∀ type, type = .plus ∨ type = .dash → c.nextType ≠ some type := by
    rintro type htype hnext
    rw [hnext] at hfirst
    rcases htype with rfl | rfl <;> simp at hfirst
  rw [operand_of_no_sign (hsign _ (.inl rfl)) (hsign _ (.inr rfl))] at hread
  obtain ⟨unit, d₁, hunit, hloop⟩ := bind_eq_ok.1 hread
  have hopen : c.nextType = some .lparen := by
    rcases hfirst with hopen | hstart
    · exact hopen
    · exact (not_unit_of_start hstart hunit).elim
  obtain ⟨token, tokens, hahead, htype⟩ := Cursor.exists_ahead_of_nextType hopen
  have hinner : Lookahead.queryAfter 1 c.step.ahead = true := by
    rwa [hahead, Lookahead.queryAfter_lparen htype, ← Cursor.step_ahead hahead] at hquery
  have hparen := hunit
  rw [unit_of_lparen hopen, parenthesized_of_startsQuery hopen (by
    rw [startsQuery_eq]
    exact Lookahead.queryAfter_pred hinner)] at hparen
  obtain ⟨-, query, d₂, hread₂, hclose, -, rfl⟩ := parenthesizedQuery_eq_ok.1 hparen
  have hends : Lookahead.endsOperand d₂.step.ahead = true := by
    obtain ⟨token', tokens', hahead', htype'⟩ := Cursor.exists_ahead_of_nextType hclose
    have hends₂ := endsOperand_of_nextType hclose (.inr (.inr (.inr (.inr rfl))))
    rw [queryAfter_of_produce hread₂ hends₂, hahead', Lookahead.leadingClose_rparen htype',
      Bool.and_eq_true] at hinner
    rw [Cursor.step_ahead hahead']
    exact hinner.1
  have hstop : d₂.step.continuesOperand = false := by
    obtain ⟨passed, hpasses, -⟩ := (Likeness.levels_diagonal settings levels).unit.passes hunit
    rw [NoSetOperatorAtTime, hpasses.ahead] at hwords
    exact not_continuesOperand_of_endsOperand hends hwords.right_of_append
  rw [loop_of_done (suffix_stop hstop)] at hloop
  obtain ⟨rfl, rfl⟩ := pure_eq_ok.1 hloop
  exact ⟨hopen, hends, hparen⟩

/-- Where an expression can be read that starts like a query in parentheses, it is that query, and
reading a query in its place takes the same tokens. -/
theorem query_of_expression
    {settings : Settings} {levels : Nat} {e : Expr}
    (hquery : startsQuery c.ahead = true) (hwords : NoSetOperatorAtTime c.ahead)
    (hread : (Level.mk settings (produce settings levels)).expression c = .ok e d)
    (hclose : d.nextType = some .rparen) :
    ∃ query, produce settings levels .query c = .ok query d ∧
      e = (Level.mk settings (produce settings levels)).subquery query := by
  rw [startsQuery_eq] at hquery
  have hfirst := nextType_of_queryAfter hquery
  have hother : ∀ type, type ≠ .lparen → type ≠ .keyword .SELECT → type ≠ .keyword .WITH →
      c.nextType ≠ some type := by
    intro type hlparen hselect hwith hnext
    rcases hfirst with h | h | h <;> rw [hnext, Option.some.injEq] at h
    exacts [hlparen h, hselect h, hwith h]
  have hnot : c.nextType ≠ some (.keyword .NOT) := hother _ nofun nofun nofun
  obtain ⟨operand, d', hoperand⟩ := exists_operand_of_expression hnot hread
  cases levels with
  | zero => cases hoperand
  | succ levels =>
      obtain ⟨d₁, hrule, rfl⟩ := nested_eq_ok.1 hoperand
      obtain ⟨hopen, hends, hparen⟩ := operand_of_startsQuery
        (c := { c with depth := c.depth + 1 }) (by rwa [startsQuery_eq]) hwords hrule
      rw [expression_of_operand hnot hoperand hends] at hread
      obtain ⟨rfl, rfl⟩ := pure_eq_ok.1 hread
      obtain ⟨query, hquery, rfl⟩ := query_of_parenthesizedQuery hopen hparen hclose
      exact ⟨query, nested_of_ok hquery, rfl⟩

/-! ## The decision -/

section Decision

variable {settings : Settings} {levels : Nat} {query : Expr}

theorem unit_of_query
    (hopen : c.nextType = some .lparen)
    (hread : produce settings levels .query c.step = .ok query d)
    (hclose : d.nextType = some .rparen) :
    (Level.mk settings (produce settings levels)).unit c =
      .ok ((Level.mk settings (produce settings levels)).subquery query) d.step := by
  rw [unit_of_lparen hopen,
    parenthesized_of_startsQuery hopen (startsQuery_of_produce hread hclose)]
  exact parenthesizedQuery_eq_ok.2 ⟨hopen, query, d, hread, hclose, rfl, rfl⟩

theorem membership_of_query
    (hopen : c.nextType = some .lparen)
    (hread : produce settings levels .query c.step = .ok query d)
    (hclose : d.nextType = some .rparen) (left : Expr) (negated : Bool) :
    (Level.mk settings (produce settings levels)).membership left negated c =
      .ok (.node (.membership left []
        (some ((Level.mk settings (produce settings levels)).subquery query)) negated settings.tag))
        d.step := by
  have hstarts := startsQuery_of_produce hread hclose
  obtain ⟨_, hopen⟩ := expect_of_next hopen
  obtain ⟨_, hclose⟩ := expect_of_next hclose
  have htest : test (fun c => startsQuery c.ahead) c.step = .ok true c.step := by
    rw [test, hstarts]
  have htargets : (Level.mk settings (produce settings levels)).targets c.step =
      .ok ([], some ((Level.mk settings (produce settings levels)).subquery query)) d := by
    unfold targets
    rw [branch_of_true htest, bind_of_ok hread]
    rfl
  unfold membership
  rw [bind_of_ok hopen, bind_of_ok htargets]
  dsimp only
  rw [bind_of_ok hclose]
  rfl

theorem startsQuery_tail_of_query
    (hopen : c.nextType = some .lparen)
    (hread : produce settings levels .query c.step = .ok query d)
    (hclose : d.nextType = some .rparen) :
    test (fun c => startsQuery c.ahead.tail) c = .ok true c := by
  have hstarts := startsQuery_of_produce hread hclose
  obtain ⟨token, tokens, hahead, -⟩ := Cursor.exists_ahead_of_nextType hopen
  rw [Cursor.step_ahead hahead] at hstarts
  rw [test, hahead, List.tail_cons, hstarts]

theorem quantified_of_query
    (hopen : c.nextType = some .lparen)
    (hread : produce settings levels .query c.step = .ok query d)
    (hclose : d.nextType = some .rparen) :
    (Level.mk settings (produce settings levels)).quantified c =
      .ok ((Level.mk settings (produce settings levels)).subquery query) d.step := by
  unfold quantified
  rw [branch_of_true (startsQuery_tail_of_query hopen hread hclose)]
  exact parenthesizedQuery_eq_ok.2 ⟨hopen, query, d, hread, hclose, rfl, rfl⟩

theorem plainSource_of_query
    (hopen : c.nextType = some .lparen)
    (hread : produce settings levels .query c.step = .ok query d)
    (hclose : d.nextType = some .rparen) :
    (Level.mk settings (produce settings levels)).plainSource c =
      ((Level.mk settings (produce settings levels)).aliasName >>= fun aliasName =>
        return .node (.select query aliasName settings.tag)) d.step := by
  have hstarts := startsQuery_tail_of_query hopen hread hclose
  have hnext : isNext .lparen c = .ok true c := by
    rw [isNext, test, hopen]
    rfl
  obtain ⟨token, tokens, hahead, -⟩ := Cursor.exists_ahead_of_nextType hopen
  obtain ⟨_, hclose⟩ := expect_of_next hclose
  unfold plainSource
  rw [branch_of_true hnext, branch_of_true hstarts, bind_of_ok (take_of_ahead hahead),
    bind_of_ok hread, bind_of_ok hclose]
  rfl

/-- Parentheses around an expression leave no trace. -/
theorem unit_of_expression
    {e : Expr} (hopen : c.nextType = some .lparen)
    (hread : (Level.mk settings (produce settings levels)).expression c.step = .ok e d)
    (hclose : d.nextType = some .rparen) (hwords : NoSetOperatorAtTime c.ahead) :
    (Level.mk settings (produce settings levels)).unit c = .ok e d.step := by
  cases hquery : startsQuery c.step.ahead with
  | false =>
      rw [unit_of_lparen hopen]
      exact parenthesized_of_not_startsQuery hopen hquery hread hclose
  | true =>
      obtain ⟨token, tokens, hahead, -⟩ := Cursor.exists_ahead_of_nextType hopen
      have hwords : NoSetOperatorAtTime c.step.ahead := by
        rw [Cursor.step_ahead hahead]
        rw [hahead] at hwords
        exact hwords.tail
      obtain ⟨query, hbelow, rfl⟩ := query_of_expression hquery hwords hread hclose
      exact unit_of_query hopen hbelow hclose

end Decision

/-- The decision between a query and an expression behind an opening parenthesis is exact: where
either can be read up to a closing parenthesis, it is what is read, and every rule that makes the
decision makes it for the query. -/
theorem parenthesis_decision_exact
    (settings : Settings) (c : Cursor) (hopen : c.nextType = some .lparen) :
    (∀ query d, (atDepth settings c.depth).below .query c.step = .ok query d →
      d.nextType = some .rparen →
        (atDepth settings c.depth).unit c = .ok (.node (.select query none settings.tag)) d.step ∧
        (∀ left negated, (atDepth settings c.depth).membership left negated c =
          .ok (.node (.membership left [] (some (.node (.select query none settings.tag))) negated
            settings.tag)) d.step) ∧
        (atDepth settings c.depth).quantified c =
          .ok (.node (.select query none settings.tag)) d.step ∧
        (atDepth settings c.depth).plainSource c =
          ((atDepth settings c.depth).aliasName >>= fun aliasName =>
            return .node (.select query aliasName settings.tag)) d.step) ∧
    (NoSetOperatorAtTime c.ahead → ∀ e d, (atDepth settings c.depth).expression c.step = .ok e d →
      d.nextType = some .rparen → (atDepth settings c.depth).unit c = .ok e d.step) := by
  unfold atDepth
  refine ⟨fun query d hread hclose => ⟨?_, fun left negated => ?_, ?_, ?_⟩,
    fun hwords e d hread hclose => ?_⟩
  · exact unit_of_query hopen hread hclose
  · exact membership_of_query hopen hread hclose left negated
  · exact quantified_of_query hopen hread hclose
  · exact plainSource_of_query hopen hread hclose
  · exact unit_of_expression hopen hread hclose hwords

/-- The tokens of a query in two pairs of parentheses. -/
def doublyParenthesized : Cursor :=
  .start [.unplaced .lparen "(", .unplaced .lparen "(", .unplaced (.keyword .SELECT) "SELECT",
    .unplaced .number "1", .unplaced .rparen ")", .unplaced .rparen ")"]

/-- Both a query and an expression can be read between the outer parentheses. -/
theorem parenthesis_decision_doublyParenthesized :
    let g := atDepth Dialect.postgreSql.settings doublyParenthesized.depth
    doublyParenthesized.nextType = some .lparen ∧
      (∃ query d, g.below .query doublyParenthesized.step = .ok query d ∧
        d.nextType = some .rparen ∧
        g.unit doublyParenthesized =
          .ok (.node (.select query none Dialect.postgreSql.settings.tag)) d.step) ∧
      NoSetOperatorAtTime doublyParenthesized.ahead ∧
      ∃ e d, g.expression doublyParenthesized.step = .ok e d ∧ d.nextType = some .rparen ∧
        g.unit doublyParenthesized = .ok e d.step := by
  intro g
  have hexact := parenthesis_decision_exact Dialect.postgreSql.settings doublyParenthesized rfl
  have hwords : NoSetOperatorAtTime doublyParenthesized.ahead := by
    unfold NoSetOperatorAtTime
    decide +kernel
  have hquery : stopsAt .rparen (g.below .query) doublyParenthesized.step = true := by
    decide +kernel
  have hexpression : stopsAt .rparen g.expression doublyParenthesized.step = true := by
    decide +kernel
  obtain ⟨query, d, hread, hclose⟩ := exists_of_stopsAt hquery
  obtain ⟨e, d', hread', hclose'⟩ := exists_of_stopsAt hexpression
  exact ⟨rfl, ⟨query, d, hread, hclose, (hexact.1 query d hread hclose).1⟩, hwords, e, d', hread',
    hclose', hexact.2 hwords e d' hread' hclose'⟩

/-- A query in parentheses, and a set operator spelled `AT` before the words of a time zone. -/
def setOperatorSpelledAt : Cursor :=
  .start [.unplaced .lparen "(", .unplaced .lparen "(", .unplaced (.keyword .SELECT) "SELECT",
    .unplaced .number "1", .unplaced .rparen ")", .unplaced (.keyword .UNION) "AT",
    .unplaced .identifier "TIME", .unplaced .identifier "ZONE", .unplaced .string "UTC",
    .unplaced .rparen ")"]

/-- Without the condition on the spelling of set operators there are parentheses around an
expression that are refused. -/
theorem parenthesis_decision_setOperatorSpelledAt :
    ¬∀ (settings : Settings) (c : Cursor), c.nextType = some .lparen →
      ∀ e d, (atDepth settings c.depth).expression c.step = .ok e d →
        d.nextType = some .rparen → (atDepth settings c.depth).unit c = .ok e d.step := by
  intro hall
  have hexpression : stopsAt .rparen (atDepth Dialect.postgreSql.settings 0).expression
      setOperatorSpelledAt.step = true := by
    decide +kernel
  have hunit :
      fails ((atDepth Dialect.postgreSql.settings 0).unit) setOperatorSpelledAt = true := by
    decide +kernel
  obtain ⟨e, d, hread, hclose⟩ := exists_of_stopsAt hexpression
  have hok : (atDepth Dialect.postgreSql.settings 0).unit setOperatorSpelledAt = .ok e d.step :=
    hall Dialect.postgreSql.settings setOperatorSpelledAt rfl e d hread hclose
  rw [fails, hok] at hunit
  cases hunit

end Level

end SqlTree

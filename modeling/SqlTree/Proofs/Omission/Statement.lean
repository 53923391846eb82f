import SqlTree.Proofs.Omission.Source

/-!
# Queries and statements without `AS`

The remaining rules, and the productions tied together.  Behind `TOP` the name may be taken for
`PERCENT` or for the end of `WITH TIES`; the items of the list cannot start where the first
reading then stands.  Main statement: what is read with the word is read without it
(`Settings.follows_statement`).
-/

namespace SqlTree

open SqlTree.Parser SqlTree.Omission

namespace Omission

/-- The cursor stands before `AS` or `WITH`, where no expression can start. -/
def Unfit (c : Cursor) : Prop :=
  c.nextType = some (.keyword .AS) ∨ c.nextType = some (.keyword .WITH)

theorem Unfit.nextType_ne {c : Cursor} (hunfit : Unfit c) {type : TokenType}
    (has : type ≠ .keyword .AS) (hwith : type ≠ .keyword .WITH) : c.nextType ≠ some type := by
  rcases hunfit with hnext | hnext
  · exact fun htype => has (Option.some.inj (htype.symm.trans hnext))
  · exact fun htype => hwith (Option.some.inj (htype.symm.trans hnext))

end Omission

namespace Level.Omits

open SqlTree.Omission.Follows

variable {o : Omission} {φ S : Cursor → Prop} {c d : Cursor} {g : Level}

/-! ## Where no item can start -/

theorem bind_ne_ok {α β : Type} {p : Parser α} {f : α → Parser β} (hp : ∀ a d, p c ≠ .ok a d)
    (b : β) (d : Cursor) : (p >>= f) c ≠ .ok b d := by
  intro hbind
  obtain ⟨a, c', ha, -⟩ := bind_eq_ok.1 hbind
  exact hp a c' ha

theorem commaList_ne_ok {α : Type} {construct : Construct} {cap : Nat} {item : Parser α}
    (hitem : ∀ a d, item c ≠ .ok a d) (items : List α) (d : Cursor) :
    Parser.commaList construct cap item c ≠ .ok items d := by
  unfold Parser.commaList
  cases cap with
  | zero => exact nofun
  | succ cap => exact bind_ne_ok hitem items d

theorem operand_ne_ok (hunfit : Unfit c) (a : Expr) (d : Cursor) : g.operand c ≠ .ok a d := by
  have hplus : c.nextType ≠ some .plus := hunfit.nextType_ne nofun nofun
  have hdash : c.nextType ≠ some .dash := hunfit.nextType_ne nofun nofun
  rw [Level.operand_of_no_sign hplus hdash]
  exact bind_ne_ok (fun a d => unit_ne_ok hunfit) a d

theorem expression_ne_ok (h : g.Omits o) (hunfit : Unfit c) (a : Expr) (d : Cursor) :
    g.expression c ≠ .ok a d := by
  have hnot : c.nextType ≠ some (.keyword .NOT) := hunfit.nextType_ne nofun nofun
  have hsum : ∀ a d, g.additive c ≠ .ok a d :=
    bind_ne_ok (bind_ne_ok fun a d => h.unfit c a d hunfit)
  have hnegation : ∀ a d, g.negation c ≠ .ok a d := by
    intro a d
    rw [Level.negation_of_no_not hnot]
    exact bind_ne_ok hsum a d
  exact bind_ne_ok (bind_ne_ok (bind_ne_ok hnegation)) a d

/-! ## Queries -/

theorem commentHints (g : Level) : o.Follows φ Never Never g.commentHints := by
  refine (Follows.loop (fun _ => ?_) fun _ => ?_).returns
  · refine isNextThen rfl ?_ .pure
    exact takeOf rfl fun _ => .pure
  · refine .testThen ?_ .done
    exact .take fun _ => .pure

theorem rowOption : o.Follows φ Never Never Level.rowOption := by
  refine acceptThen rfl .pure ?_
  refine acceptThen rfl .pure ?_
  exact acceptThen rfl .pure .pure

/-- Without `AS` the name may be `PERCENT`.  The first reading is left before `AS` then. -/
theorem acceptPercent : o.Follows φ Never (fun c => c.nextType = some (.keyword .AS))
    (Parser.acceptWord "PERCENT") where
  together {c d} _ _ hapart _ hp := by
    cases hapart.next with
    | word hat hc hd =>
        rw [acceptWord_of_ahead hc, if_neg (o.word_isThisWord_ne (by decide))] at hp
        cases hp
        exact .inl hat.nextType
    | none hc hd =>
        rw [acceptWord_of_nil hc] at hp
        cases hp
        exact .inr ⟨d, acceptWord_of_nil hd, hapart⟩
    | token hc hd hstep =>
        right
        rw [acceptWord_of_ahead hc] at hp
        rw [acceptWord_of_ahead hd]
        split at hp
        case isTrue hthis =>
          cases hp
          exact ⟨d.step, if_pos hthis, hstep⟩
        case isFalse hthis =>
          cases hp
          exact ⟨d, if_neg hthis, hapart⟩
  stuck := False.elim

/-- Without `AS` the name may be `TIES`.  The first reading is left before `WITH` then. -/
theorem startsWithTies_or (hapart : o.Apart c d) :
    Level.startsWithTies c = Level.startsWithTies d ∨ Level.startsWithTies c = false ∧ Unfit c := by
  cases hapart with
  | past => exact .inl rfl
  | @before behind front rest depth hlast hspelled =>
      match front with
      | first :: second :: front => exact .inl rfl
      | [first] =>
          have hc : Level.startsWithTies ⟨behind, [first] ++ o.word :: o.name :: rest, depth⟩ =
              false := by
            change (first.type == .keyword .WITH && o.word.isThisWord "TIES") = false
            rw [o.word_isThisWord (by decide), Bool.and_false]
          by_cases hwith : first.type = .keyword .WITH
          · exact .inr ⟨hc, .inr (congrArg some hwith)⟩
          · left
            rw [hc]
            change _ = (first.type == .keyword .WITH && o.name.isThisWord "TIES")
            rw [beq_false_of_ne hwith, Bool.false_and]
      | [] =>
          refine .inr ⟨?_, .inl (congrArg some o.word_type)⟩
          change (o.word.type == .keyword .WITH && o.name.isThisWord "TIES") = false
          rw [beq_false_of_ne (o.word_type_ne rfl), Bool.false_and]

theorem acceptWithTies : o.Follows φ (fun c => c.nextType = some (.keyword .AS)) Unfit
    Level.acceptWithTies := by
  refine testThenOr (fun _ _ hapart _ => startsWithTies_or hapart)
    (fun c hnext _ => ⟨?_, .inl hnext⟩) ?_
    .pure
  · obtain ⟨behind, _ | ⟨first, _ | ⟨second, more⟩⟩, depth⟩ := c
    · rfl
    · rfl
    · have has : first.type = .keyword .AS := Option.some.inj hnext
      change (first.type == .keyword .WITH && second.isThisWord "TIES") = false
      rw [has]
      rfl
  · have hnext : ∀ c : Cursor, Level.startsWithTies c = true →
        c.nextType = some (.keyword .WITH) ∧ ¬o.AtWord c.step := by
      intro c hties
      obtain ⟨behind, _ | ⟨first, _ | ⟨second, more⟩⟩, depth⟩ := c
      · cases hties
      · cases hties
      · obtain ⟨hwith, hthis⟩ := Bool.and_eq_true_iff.1 hties
        refine ⟨congrArg some (eq_of_beq hwith), fun hat => ?_⟩
        obtain ⟨rest, hahead⟩ := hat.ahead
        cases hahead
        exact o.word_isThisWord_ne (by decide) hthis
    have hat : ∀ c, Level.startsWithTies c = true → ¬o.AtWord c := fun c hties =>
      not_atWord_of_nextType (hnext c hties).1 nofun
    refine take (ψ := fun c => ¬o.AtWord c) (fun c hc => hat c hc.2) (fun _ => False.elim)
      (fun c hc => (hnext c hc.2).2) fun _ => ?_
    exact takeOffWord (fun _ => id) fun _ => .pure

theorem setOp : o.Follows φ o.Foreign o.Foreign Level.setOp := by
  refine acceptThen rfl (acceptThen rfl .pure (accept rfl).returns) ?_
  refine acceptThen rfl (accept rfl).returns ?_
  refine acceptThen rfl (accept rfl).returns ?_
  exact acceptThen rfl .pure .pure

theorem unlessRead {α : Type} (read : Option α) {p : Parser (Option α)}
    (hp : o.Follows (fun _ => True) o.Foreign o.Foreign p) :
    o.Follows φ o.Foreign o.Foreign (Level.unlessRead read p) := by
  unfold Level.unlessRead
  split
  case isTrue => exact .pure
  case isFalse => exact hp.anywhere

theorem intoTable (g : Level) : o.Follows φ o.Foreign o.Foreign g.intoTable := by
  unfold Level.intoTable
  split
  case isTrue => exact clause rfl (tableName g)
  case isFalse => exact .pure

theorem withColumns (g : Level) : o.Follows φ Never Never g.withColumns := by
  refine acceptThen rfl ?_ .pure
  refine (Follows.commaList (T := Never) (namePart g)).bind fun _ => ?_
  exact (expect rfl).returns

variable (h : g.Omits o)

include h

theorem top : o.Follows φ Never Unfit g.top := by
  have hcount : o.Follows φ Never Never g.topCount :=
    acceptThen rfl (h.expression.bind fun _ => (expect rfl).returns)
      (expect rfl).returns
  refine hcount.bind fun _ => ?_
  exact acceptPercent.bind fun _ => acceptWithTies.returns

/-- No item of a list starts where the first reading may stand behind `TOP`. -/
theorem columns : o.Follows φ Unfit o.Foreign (g.commaList .selectList g.selectItem) := by
  refine (Follows.commaList h.selectItem).orFails fun c items d hunfit => ?_
  exact commaList_ne_ok (bind_ne_ok (h.expression_ne_ok hunfit)) items d

theorem groupBy : o.Follows φ Never o.Open g.groupBy := by
  refine (expect rfl).bind fun _ => ?_
  refine (Follows.commaList h.expression).bind fun _ => ?_
  exact (afterKeyword rfl h.expression).returns

theorem startWith : o.Follows φ o.Foreign o.Foreign g.startWith := by
  refine acceptThen rfl ?_ .pure
  exact (expect rfl).bind fun _ => h.expression.map.mono

theorem connectByIfAny : o.Follows φ o.Foreign o.Foreign g.connectByIfAny := by
  refine (isNext rfl).bind fun isStart => ?_
  refine (isNext rfl).bind fun isConnect => ?_
  cases isStart || isConnect with
  | false => exact .pure
  | true =>
      refine .map ?_
      refine h.startWith.bind fun before => ?_
      refine (expect rfl).bind fun _ => ?_
      refine (expect rfl).bind fun _ => ?_
      refine (accept rfl).bind fun _ => ?_
      refine (accept rfl).bind fun _ => ?_
      refine h.expression.bind fun _ => ?_
      exact (unlessRead before h.startWith).of.returns

theorem selectQuery : o.Follows φ o.Foreign o.Foreign g.selectQuery := by
  refine (expect rfl).bind fun _ => ?_
  refine (commentHints g).bind fun _ => ?_
  refine rowOption.bind fun _ => ?_
  refine (afterKeyword rfl h.top).bind fun _ => ?_
  refine h.columns.bind fun _ => ?_
  refine (intoTable g).bind fun _ => ?_
  refine (clause rfl h.sources).bind fun _ => ?_
  refine (clause rfl h.expression).bind fun _ => ?_
  refine h.connectByIfAny.bind fun hierarchy => ?_
  refine (clause rfl h.groupBy).bind fun _ => ?_
  refine (unlessRead hierarchy h.connectByIfAny).bind fun _ => ?_
  exact (clause rfl h.orderBy).bind fun _ => h.limit.returns

theorem queryOperand : o.Follows φ o.Foreign o.Foreign g.queryOperand :=
  isNextThen rfl h.parenthesizedQuery.mono h.selectQuery

theorem unionTurn (left : Expr) : o.Follows φ o.Foreign o.Foreign (g.unionTurn left) := by
  refine setOp.bind fun op => ?_
  cases op with
  | none => exact .pure
  | some op => exact h.queryOperand.returns

theorem advances_unionTurn (left : Expr) : Advances (g.unionTurn left) := by
  refine .bind (.spends fun _ => KeepsTo.setOp) fun op => ?_
  cases op with
  | none => exact .done
  | some op =>
      exact .spends fun depth => ((h.keeps depth).queryOperand (Nat.zero_le _)).returns

theorem queryChain : o.Follows φ Never o.Foreign g.queryChain := by
  refine h.queryOperand.of.bind fun _ => ?_
  exact .loop h.unionTurn h.advances_unionTurn

theorem withQuery : o.Follows φ Never Never g.withQuery := by
  refine (namePart g).bind fun _ => ?_
  refine (withColumns g).bind fun _ => ?_
  refine unlessAtWord (fun c a d hat hp => ?_) ?_
  · -- Behind the word stands the name and no parenthesis.
    obtain ⟨rest, hahead⟩ := hat.ahead
    obtain ⟨word, c', hword, hp⟩ := bind_eq_ok.1 hp
    obtain ⟨-, -, -, rfl⟩ := expect_eq_ok.1 hword
    obtain ⟨paren, c', hparen, -⟩ := bind_eq_ok.1 hp
    obtain ⟨more, hmore, htype, -⟩ := expect_eq_ok.1 hparen
    rw [Cursor.step_ahead hahead] at hmore
    cases hmore
    exact o.name_type_ne rfl htype
  · refine (expectOffWord fun _ hc => hc.2).bind fun _ => ?_
    refine (expect rfl).bind fun _ => ?_
    refine (h.below .query).bind fun _ => ?_
    exact (expect rfl).returns

theorem query : o.Follows φ Never o.Foreign g.query := by
  refine (afterKeyword rfl (.commaList h.withQuery)).bind fun ws => ?_
  refine h.queryChain.bind fun chain => ?_
  match ws with
  | none => exact .pure
  | some [] => exact .pure
  | some (w :: ws) =>
      dsimp only
      cases (unwrap chain).withQueries (w :: ws) with
      | ok query => exact .pure
      | error e => exact throw

/-! ## Statements -/

omit h in
theorem insertColumns (g : Level) : o.Follows φ Never Never g.insertColumns := by
  have hnext : ∀ c : Cursor, (c.nextType == some .lparen && !startsQuery c.ahead.tail) = true →
      c.nextType = some .lparen := fun c hc => eq_of_beq (Bool.and_eq_true_iff.1 hc).1
  refine testThen (.ofHead (fun c hc => ⟨_, hnext c hc, rfl⟩) fun c d hapart hat => ?_) ?_ .pure
  · rw [hapart.nextType_eq hat, hapart.startsQuery_tail_eq hat]
  · refine (takeOf rfl fun _ => ?_).when fun c hc => hnext c hc.2
    refine (Follows.commaList (T := Never) (namePart g)).bind fun _ => ?_
    exact (expect rfl).returns

theorem valuesRow : o.Follows φ Never Never g.valuesRow := by
  refine (expect rfl).bind fun _ => ?_
  refine (Follows.commaList h.expression).bind fun _ => ?_
  exact (expect rfl).returns

omit h in
theorem mayStartQuery_shared : o.Shared φ Never Level.mayStartQuery := by
  refine .ofHead (fun c hc => ?_) fun c d hapart hat => ?_
  · rw [Level.mayStartQuery] at hc
    cases hnext : c.nextType with
    | none =>
        rw [hnext] at hc
        cases hc
    | some type =>
        rw [hnext] at hc
        refine ⟨type, rfl, ?_⟩
        cases type with
        | lparen => rfl
        | keyword word =>
            cases word with
            | SELECT | WITH => rfl
            | _ => cases hc
        | _ => cases hc
  · rw [Level.mayStartQuery, Level.mayStartQuery, hapart.nextType_eq hat]

theorem insert : o.Follows φ Never o.Foreign g.insert := by
  refine (expect rfl).bind fun _ => ?_
  refine (commentHints g).bind fun _ => ?_
  refine (accept rfl).bind fun _ => ?_
  refine (tableName g).bind fun _ => ?_
  refine (insertColumns g).bind fun _ => ?_
  refine acceptThen rfl ?_ ?_
  · exact (Follows.commaList (T := Never) h.valuesRow).returns
  · exact testThen mayStartQuery_shared (h.below .query).anywhere.returns refuseFor

theorem assignment : o.Follows φ Never o.Open g.assignment := by
  refine h.unit.bind fun _ => ?_
  exact (expect rfl).bind fun _ => h.expression.returns

theorem update : o.Follows φ Never o.Foreign g.update := by
  refine (expect rfl).bind fun _ => ?_
  refine (commentHints g).bind fun _ => ?_
  refine (h.below .source).bind fun _ => ?_
  refine (expect rfl).bind fun _ => ?_
  refine (Follows.commaList h.assignment).bind fun _ => ?_
  refine (afterKeyword rfl h.sources).bind fun _ => ?_
  exact (afterKeyword rfl h.expression).returns

theorem delete : o.Follows φ Never o.Foreign g.delete := by
  have hfrom : ∀ isFrom, o.Follows (fun _ => True) Never o.Open (g.fromUnless isFrom) := by
    intro isFrom
    cases isFrom with
    | true => exact .pure
    | false => exact afterKeyword rfl h.sources
  refine (expect rfl).bind fun _ => ?_
  refine (commentHints g).bind fun _ => ?_
  refine (accept rfl).bind fun isFrom => ?_
  refine (h.below .source).bind fun _ => ?_
  refine (hfrom isFrom).bind fun _ => ?_
  exact (afterKeyword rfl h.expression).returns

/-- No statement starts with `AS`. -/
theorem statementBody : o.Follows φ Never o.Foreign g.statementBody := by
  have hquery : ∀ {ψ : Cursor → Prop}, o.Follows ψ Never o.Foreign
      (g.below .query >>= fun query => pure (g.subquery query)) :=
    (h.below .query).anywhere.returns
  refine unlessAtWord (fun c a d hat hp => ?_) (peekOffWord (fun _ hc => hc.2) fun next => ?_)
  · obtain ⟨next, c', hpeek, hp⟩ := bind_eq_ok.1 hp
    cases hpeek
    rw [hat.nextType] at hp
    cases hp
  · cases next with
    | none => exact throw
    | some type =>
        cases type with
        | lparen => exact hquery
        | keyword word =>
            cases word with
            | SELECT | WITH => exact hquery
            | INSERT => exact h.insert
            | UPDATE => exact h.update
            | DELETE => exact h.delete
            | _ => exact refuseFound
        | _ => exact refuseFound

/-- Where the first reading is stuck in the end, tokens are left. -/
theorem statement : o.Follows φ Never Never g.statement := by
  refine h.statementBody.bind fun _ => ?_
  refine (accept rfl).bind fun _ => ?_
  refine testThen ⟨fun c d hapart _ => ?_, fun c hs _ => ?_⟩ .pure refuseFound
  · cases hapart.next with
    | word hat hc hd =>
        rw [hc, hd]
        rfl
    | none hc hd => rw [hc, hd]
    | token hc hd =>
        rw [hc, hd]
        rfl
  · obtain ⟨token, rest, hahead, -⟩ := hs.next
    rw [hahead]
    rfl

/-! ## Productions -/

theorem rule (production : Production) :
    o.Follows φ Never (o.stuckBehind production) (g.rule production) := by
  cases production with
  | query => exact h.query
  | source => exact h.source
  | negation => exact h.negation
  | operand => exact h.operand
  | intervalValue => exact h.unit

end Level.Omits

/-- What holds one nesting level further down holds on a level. -/
theorem Level.omits_produce (o : Omission) (settings : Settings) (levels : Nat) :
    Level.Omits ⟨settings, Level.produce settings levels⟩ o := by
  have hkeeps : ∀ levels depth,
      Level.KeepsTo ⟨settings, Level.produce settings levels⟩ ⟨depth, 0, 0⟩ :=
    fun levels depth => Level.keeps_produce settings (Nat.zero_le _) (Nat.zero_le _)
  induction levels with
  | zero => exact ⟨fun _ => .throw, fun _ _ _ _ => nofun, hkeeps 0⟩
  | succ levels ih =>
      refine ⟨fun production => ?_, fun c a d hunfit hread => ?_, hkeeps (levels + 1)⟩
      · cases production <;> exact .nested (ih.rule _)
      · obtain ⟨d', hread, -⟩ := nested_eq_ok.1 hread
        have hunfit' : Unfit { c with depth := c.depth + 1 } := hunfit
        exact Level.Omits.operand_ne_ok hunfit' a d' hread

/-- A statement that is read with the word is read without it. -/
theorem Settings.follows_statement (o : Omission) (settings : Settings) {c d d' : Cursor} {e : Expr}
    (hapart : o.Apart c d) (hread : settings.statement c = .ok e d') :
    ∃ d'', settings.statement d = .ok e d'' := by
  have homits : (Level.atDepth settings c.depth).Omits o :=
    Level.omits_produce o settings (settings.maxDepth - c.depth)
  have hfollows :
      o.Follows (fun _ => True) Never Never (Level.atDepth settings c.depth).statement :=
    homits.statement
  rcases hfollows.together hapart trivial hread with hnever | ⟨d'', hread', -⟩
  · exact hnever.elim
  · refine ⟨d'', ?_⟩
    rw [hapart.depth_eq] at hread'
    exact hread'

end SqlTree

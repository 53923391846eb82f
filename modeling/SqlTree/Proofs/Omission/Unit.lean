import SqlTree.Proofs.Derivation.Ending
import SqlTree.Proofs.Omission.Expression

/-!
# Units and operands without `AS`

Between the brackets of a unit both readings stay together: whatever the first one is stuck at, it
is no closing bracket.
-/

namespace SqlTree

open SqlTree.Parser SqlTree.Omission

namespace Level.Omits

open SqlTree.Omission.Follows

variable {o : Omission} {φ S : Cursor → Prop} {c d : Cursor} {g : Level}

/-! ## Clauses of calls -/

theorem nullsOrder : o.Follows φ o.Foreign o.Foreign Level.nullsOrder := by
  refine acceptWordThen (by decide) (Follows.of (T := o.Foreign) ?_) .pure
  exact acceptWordThen (by decide) .pure (acceptWordThen (by decide) .pure refuseFor)

theorem sortOrder : o.Follows φ o.Open o.Open Level.sortOrder := by
  refine acceptThen rfl .pure ?_
  exact acceptThen rfl .pure .pure

theorem listBefore {α : Type} {T : Cursor → Prop} {closing : TokenType} {items : Parser (List α)}
    (hclosing : closing.isSteady = true) (hitems : o.Follows (fun _ => True) Never T items) :
    o.Follows φ Never T (Level.listBefore closing items) :=
  isNextThen hclosing .pure hitems.anywhere

/-- Neither `AS` nor the name is the word `WITHIN`. -/
theorem startsWithinGroup_shared : o.Shared φ Never Level.startsWithinGroup := by
  refine ⟨fun c d hapart _ => ?_, fun _ => False.elim⟩
  unfold Level.startsWithinGroup
  cases hapart.next with
  | word hat hc hd =>
      have hword : o.word.isThisWord "WITHIN" = false := o.word_isThisWord (by decide)
      rw [hc, hd]
      simp only [hword, o.not_within, Bool.false_and]
  | none hc hd => rw [hc, hd]
  | @token token more more' hc hd hstep =>
      have hsecond :
          (c.secondType == some (.keyword .GROUP)) = (d.secondType == some (.keyword .GROUP)) := by
        rw [secondType_of_ahead hc, secondType_of_ahead hd]
        exact hstep.nextType_beq rfl
      rw [hc, hd, hsecond]

variable (h : g.Omits o)

include h

theorem orderItem : o.Follows φ Never o.Foreign g.orderItem := by
  refine h.expression.bind fun _ => ?_
  exact sortOrder.bind fun _ => nullsOrder.of.returns

theorem orderBy : o.Follows φ Never o.Foreign g.orderBy := by
  refine (accept rfl).bind fun _ => ?_
  refine (expect rfl).bind fun _ => ?_
  exact (Follows.commaList h.orderItem).returns

theorem partitionBy : o.Follows φ Never o.Open g.partitionBy := by
  refine (expect rfl).bind fun _ => ?_
  exact (Follows.commaList h.expression).returns

theorem window : o.Follows φ Never Never g.window := by
  refine (expect rfl).bind fun _ => ?_
  refine (afterKeyword rfl h.partitionBy).bind fun _ => ?_
  refine (afterKeyword (T := o.Foreign) rfl h.orderBy).bind fun _ => ?_
  exact (expect rfl).returns

theorem withinGroup : o.Follows φ Never Never g.withinGroup := by
  refine testThen startsWithinGroup_shared ?_ .pure
  have hnext : ∀ c : Cursor, Level.startsWithinGroup c = true →
      ¬o.AtWord c ∧ c.step.nextType = some (.keyword .GROUP) := by
    intro c hc
    unfold Level.startsWithinGroup at hc
    obtain ⟨behind, _ | ⟨token, more⟩, depth⟩ := c
    · cases hc
    · obtain ⟨hthis, hsecond⟩ := Bool.and_eq_true_iff.1 hc
      refine ⟨fun hat => ?_, eq_of_beq hsecond⟩
      obtain ⟨rest, hahead⟩ := hat.ahead
      cases hahead
      rw [o.word_isThisWord (by decide)] at hthis
      cases hthis
  refine take (ψ := fun c => c.nextType = some (.keyword .GROUP)) (fun c hc => (hnext c hc.2).1)
    (fun _ => False.elim) (fun c hc => (hnext c hc.2).2) fun _ => ?_
  refine takeOf rfl fun _ => ?_
  refine (expect rfl).bind fun _ => ?_
  refine (expect rfl).bind fun _ => ?_
  refine h.orderBy.bind fun _ => ?_
  exact (expect rfl).returns

theorem call (path : NamePath) : o.Follows φ Never Never (g.call path) := by
  refine (expect rfl).bind fun _ => ?_
  refine (accept rfl).bind fun _ => ?_
  refine (listBefore (T := o.Open) rfl (.commaList h.expression)).bind fun _ => ?_
  refine (expect rfl).bind fun _ => ?_
  refine h.withinGroup.bind fun _ => ?_
  exact (afterKeyword rfl h.window).returns

/-! ## Units -/

omit h in
theorem starPath (g : Level) : o.Follows φ Never Never g.starPath := by
  refine (namePart g).bind fun _ => ?_
  refine .loop (fun _ => ?_) fun _ => ?_
  · refine acceptThen rfl ?_ .pure
    exact acceptThen rfl .pure (namePart g).returns
  · refine .acceptThen ?_ .done
    refine .branch (.spends fun _ => .accept) .pure ?_
    exact (Forward.spends fun _ => KeepsTo.namePart.less).returns

omit h in
theorem column (g : Level) (path : NamePath) : o.Follows φ Never Never (g.column path) := by
  obtain ⟨last, before⟩ := path
  match before with
  | [] => exact .pure
  | [_] => exact .pure
  | [_, _] => exact .pure
  | _ :: _ :: _ :: _ => exact refuse

theorem named : o.Follows φ Never Never g.named := by
  refine (starPath g).bind fun (path, isStar) => ?_
  cases isStar with
  | true => exact .pure
  | false => exact isNextThen rfl (h.call path).returns (column g path)

theorem caseItemsFrom (left : Nat) (done : List (CaseItem Expr)) :
    o.Follows φ o.Open o.Open (g.caseItemsFrom left done) := by
  have hitem : ∀ {f : Expr → Expr → Parser (List (CaseItem Expr))},
      (∀ condition result, o.Follows (fun _ => True) o.Open o.Open (f condition result)) →
      o.Follows (fun _ => True) Never o.Open (do
        let condition ← g.expression
        let _ ← expectKeyword .THEN
        let result ← g.expression
        f condition result) := by
    intro f hf
    refine h.expression.bind fun condition => ?_
    refine (expect rfl).bind fun _ => ?_
    exact h.expression.bind fun result => hf condition result
  induction left generalizing φ done with
  | zero =>
      unfold Level.caseItemsFrom
      exact acceptThen rfl (hitem fun _ _ => throw) .pure
  | succ left ih =>
      unfold Level.caseItemsFrom
      exact acceptThen rfl (hitem fun _ _ => ih _) .pure

omit h in
theorem lacksOperand_shared [Stuck o S] : o.Shared φ S Level.lacksOperand := by
  refine .ofHead (fun c hc => ?_) fun c d hapart hat => ?_
  · rw [Level.lacksOperand] at hc
    cases hnext : c.nextType with
    | none =>
        rw [hnext] at hc
        cases hc
    | some type =>
        rw [hnext] at hc
        refine ⟨type, rfl, ?_⟩
        cases type with
        | keyword word =>
            cases word with
            | WHEN | ELSE | END => rfl
            | _ => cases hc
        | _ => cases hc
  · rw [Level.lacksOperand, Level.lacksOperand, hapart.nextType_eq hat]

theorem caseOf : o.Follows φ Never Never g.caseOf := by
  refine (testThen (T := o.Open) lacksOperand_shared .pure h.expression.map).bind fun operand => ?_
  refine (h.caseItemsFrom _ _).bind fun items => ?_
  cases items with
  | nil => exact refuseFor
  | cons item items =>
      refine (afterKeyword rfl h.expression).bind fun _ => ?_
      exact (expect rfl).returns

theorem parenthesizedQuery : o.Follows φ Never Never g.parenthesizedQuery := by
  refine (expect rfl).bind fun _ => ?_
  refine (h.below .query).bind fun _ => ?_
  exact (expect rfl).returns

theorem quantified : o.Follows (fun c => c.nextType = some .lparen) Never Never g.quantified := by
  refine testThen (.offWord (fun c hc => not_atWord_of_nextType hc nofun) fun _ _ hapart hat =>
    hapart.startsQuery_tail_eq hat) h.parenthesizedQuery ?_
  refine (expect rfl).bind fun _ => ?_
  refine h.expression.bind fun _ => ?_
  exact (expect rfl).returns

theorem parenthesized : o.Follows φ Never Never g.parenthesized := by
  refine (expect rfl).bind fun _ => ?_
  refine testThen .startsQuery ?_ ?_
  · refine (h.below .query).anywhere.bind fun _ => ?_
    exact (expect rfl).returns
  · refine h.expression.bind fun _ => ?_
    exact (expect rfl).returns

theorem array : o.Follows φ Never Never g.array := by
  refine (expect rfl).bind fun _ => ?_
  refine (listBefore (T := o.Open) rfl (.commaList h.expression)).bind fun _ => ?_
  exact (expect rfl).returns

omit h in
/-- The name is no unit of an interval, and neither is a word before which the first reading is
stuck. -/
theorem timeUnit (g : Level) : o.Follows φ o.Open o.Open g.timeUnit := by
  have hword : Level.isTimeUnit o.word = false := by
    rw [Level.isTimeUnit, o.word_type]
    rfl
  have hstuck :
      ∀ {token : Token}, Text.upper token.text = "AT" → Level.isTimeUnit token = false := by
    intro token htext
    have hne : ∀ word ∈ TimeUnit.words, Text.upper word ≠ "AT" := by decide
    rw [Level.isTimeUnit, Bool.and_eq_false_iff, List.any_eq_false]
    exact .inr fun word hmem hsame =>
      hne word hmem ((Text.sameWord_iff.1 hsame).symm.trans htext)
  refine testThen ⟨fun c d hapart _ => ?_, fun c hs _ => ?_⟩ ?_ .pure
  · cases hapart.next with
    | word hat hc hd =>
        rw [hc, hd]
        exact hword.trans o.not_unit.symm
    | none hc hd => rw [hc, hd]
    | token hc hd =>
        rw [hc, hd]
        rfl
  · cases hs with
    | word => exact hword
    | atWord htype htext => exact hstuck htext
  · refine takeOffWord (fun c hc hat => ?_) fun _ => .pure
    obtain ⟨rest, hahead⟩ := hat.ahead
    have hlook := hc.2
    rw [hahead] at hlook
    exact Bool.false_ne_true (hword.symm.trans hlook)

theorem interval : o.Follows φ Never o.Open g.interval := by
  refine (h.below .intervalValue).anywhere.bind fun _ => ?_
  exact (timeUnit g).returns

omit h in
/-- No unit starts with `AS` or `WITH`. -/
theorem unit_ne_ok {a : Expr}
    (hnext : c.nextType = some (.keyword .AS) ∨ c.nextType = some (.keyword .WITH)) :
    g.unit c ≠ .ok a d := by
  intro hread
  obtain ⟨next, c', hpeek, hread⟩ := bind_eq_ok.1 hread
  cases hpeek
  have hlook : (c.startsName || c.startsKeywordCall) = false := by
    rcases hnext with hnext | hnext <;>
      rw [Cursor.startsName, Cursor.startsKeywordCall, hnext] <;> rfl
  have hname : (if (c.startsName || c.startsKeywordCall) = true then g.named
      else Parser.refuseFound .inExpression) c = .ok a d := by
    rcases hnext with hnext | hnext <;> rw [hnext] at hread <;> exact hread
  rw [hlook] at hname
  cases hname

theorem keywordUnit (word : Keyword) :
    o.Follows (fun c => ¬o.AtWord c ∧ c.nextType = some (.keyword word)) Never o.Open
      (g.keywordUnit word) := by
  have hquantified : ∀ {first : Keyword} {f : Expr → Expr},
      o.Follows (fun c => ¬o.AtWord c ∧ c.nextType = some (.keyword first)) Never o.Open (do
        if ← test fun c => c.secondType == some .lparen then
          let _ ← Parser.take
          return f (← g.quantified)
        else Parser.refuseFound .inExpression) := by
    intro first f
    have hshared : o.Shared (fun c => ¬o.AtWord c ∧ c.nextType = some (.keyword first)) Never
        (fun c => c.secondType == some .lparen) :=
      .offWord (fun _ hc => hc.1) fun _ _ hapart hat => hapart.secondType_beq hat rfl
    refine testThen hshared ?_ refuseFound
    refine take (ψ := fun c => c.nextType = some .lparen) (fun _ hc => hc.1.1) (fun _ => False.elim)
      (fun c hc => nextType_step hc.1.2 hc.2) fun _ => ?_
    exact h.quantified.returns
  cases word with
  | NULL => exact (takeOf rfl fun _ => .pure).when fun _ hc => hc.2
  | TRUE => exact (takeOf rfl fun _ => .pure).when fun _ hc => hc.2
  | FALSE => exact (takeOf rfl fun _ => .pure).when fun _ hc => hc.2
  | NOT => exact (takeOf rfl fun _ => h.negation.returns).when fun _ hc => hc.2
  | CASE => exact (takeOf rfl fun _ => h.caseOf.mono).when fun _ hc => hc.2
  | EXISTS => exact (takeOf rfl fun _ => h.parenthesizedQuery.returns).when fun _ hc => hc.2
  | INTERVAL => exact (takeOf rfl fun _ => h.interval).when fun _ hc => hc.2
  | ANY => exact hquantified
  | ALL => exact hquantified
  | ARRAY =>
      refine testThen (.offWord (fun _ hc => hc.1) fun _ _ hapart hat =>
        hapart.secondType_beq hat rfl) ?_ refuseFound
      exact takeOffWord (fun _ hc => hc.1.1) fun _ => h.array.mono
  | _ =>
      refine testThen (.offWord (fun _ hc => hc.1) fun _ _ hapart hat => ?_) h.named.mono
        refuseFound
      rw [startsName_eq hapart hat, startsKeywordCall_eq hapart hat]

theorem unit : o.Follows φ Never o.Open g.unit := by
  refine unlessAtWord (fun c a c' hat => unit_ne_ok (Or.inl hat.nextType)) ?_
  refine peekOffWord (fun _ hc => hc.2) fun next => ?_
  cases next with
  | none => exact refuseFor
  | some type =>
      cases type with
      | lparen => exact h.parenthesized.mono
      | number => exact takeOffWord (fun _ hc => hc.1.2) fun _ => .pure
      | string => exact takeOffWord (fun _ hc => hc.1.2) fun _ => .pure
      | nationalString => exact takeOffWord (fun _ hc => hc.1.2) fun _ => .pure
      | star => exact takeOffWord (fun _ hc => hc.1.2) fun _ => .pure
      | atSign => exact ((variableName g (Or.inl rfl)).when fun _ hc => hc.2).mono
      | colon => exact ((variableName g (Or.inr rfl)).when fun _ hc => hc.2).mono
      | identifier => exact h.named.mono
      | quotedIdentifier => exact h.named.mono
      | keyword word => exact (h.keywordUnit word).when fun _ hc => ⟨hc.1.2, hc.2⟩
      | _ => exact refuseFound

/-! ## Operands -/

theorem bound {behind : TokenType} (hbehind : behind.isSteady = true) :
    o.Follows φ Never o.Open (g.bound behind) :=
  isNextThen hbehind .pure h.additive.map

theorem subscript (base : Expr) : o.Follows φ Never Never (g.subscript base) := by
  refine (h.bound rfl).bind fun lower => ?_
  refine acceptThen rfl ?_ ?_
  · refine (h.bound rfl).bind fun _ => ?_
    exact (expect rfl).returns
  · refine (expect rfl).bind fun _ => ?_
    cases lower with
    | none => exact refuse
    | some index => exact .pure

omit h in
theorem withCollate (g : Level) (e : Expr) (collate : Collate) :
    o.Follows φ Never Never (g.withCollate e collate) := by
  unfold Level.withCollate
  cases e.collated? collate with
  | some e' => exact .pure
  | none => exact throw

def startsTimeZone (c : Cursor) : Bool :=
  match c.ahead with
  | first :: second :: _ => first.isThisWord "AT" && second.isThisWord "TIME"
  | _ => false

omit h in
theorem startsTimeZone_of_open (hopen : o.Open c) : startsTimeZone c = false := by
  cases hopen with
  | @word behind rest depth token htype htext =>
      change (o.word.isThisWord "AT" && o.name.isThisWord "TIME") = false
      rw [o.word_isThisWord (by decide), Bool.false_and]
  | @atWord behind rest depth token htype htext =>
      change (token.isThisWord "AT" && o.word.isThisWord "TIME") = false
      rw [o.word_isThisWord (by decide), Bool.and_false]

omit h in
/-- Without `AS` a time zone may seem to start at the name, or right before it.  Then the first
reading is stuck. -/
theorem startsTimeZone_or (hapart : o.Apart c d) :
    startsTimeZone c = startsTimeZone d ∨ startsTimeZone c = false ∧ o.Open c := by
  have htime : ∀ d : Dialect, d.keyword? "TIME" = none := by
    intro d
    cases d <;> decide +kernel
  have hupper : ∀ {token : Token} {word : String}, token.isThisWord word = true →
      Text.upper token.text = Text.upper word :=
    fun hthis => Text.sameWord_iff.1 (Bool.and_eq_true_iff.1 hthis).2
  cases hapart with
  | past => exact .inl rfl
  | @before behind front rest depth hlast hspelled =>
      match front with
      | first :: second :: front => exact .inl rfl
      | [first] =>
          have hc :
              startsTimeZone ⟨behind, [first] ++ o.word :: o.name :: rest, depth⟩ = false := by
            change (first.isThisWord "AT" && o.word.isThisWord "TIME") = false
            rw [o.word_isThisWord (by decide), Bool.and_false]
          cases hd : startsTimeZone ⟨behind, [first] ++ o.name :: rest, depth⟩ with
          | false => exact .inl hc
          | true =>
              have hthis : first.isThisWord "AT" = true := (Bool.and_eq_true_iff.1 hd).1
              exact .inr ⟨hc, .atWord ((hspelled first (by simp)).type_eq_identifier hthis
                Dialect.keyword?_at) (hupper hthis)⟩
      | [] =>
          have hc : startsTimeZone ⟨behind, [] ++ o.word :: o.name :: rest, depth⟩ = false := by
            change (o.word.isThisWord "AT" && o.name.isThisWord "TIME") = false
            rw [o.word_isThisWord (by decide), Bool.false_and]
          cases hd : startsTimeZone ⟨behind, [] ++ o.name :: rest, depth⟩ with
          | false => exact .inl hc
          | true =>
              obtain _ | ⟨token, rest⟩ := rest
              · cases hd
              · have hthis : token.isThisWord "TIME" = true := (Bool.and_eq_true_iff.1 hd).2
                exact .inr ⟨hc, .word ((hspelled token (by simp)).type_eq_identifier hthis htime)
                  (hupper hthis)⟩

theorem suffix (e : Expr) : o.Follows φ o.Open o.Open (g.suffix e) := by
  have hzone : o.Follows (fun c => startsTimeZone c = true) Never o.Open (do
      let _ ← Parser.take
      let _ ← Parser.take
      if ← Parser.acceptWord "ZONE" then return .again (.node (.atTimeZone e (← g.unit) g.tag))
      else Parser.refuseFor .zone : Parser (Turn Expr)) := by
    have hfirst : ∀ c, startsTimeZone c = true → ¬o.AtWord c := by
      intro c hlook hat
      obtain ⟨rest, hahead⟩ := hat.ahead
      rw [startsTimeZone, hahead] at hlook
      exact o.word_isThisWord_ne (by decide) (Bool.and_eq_true_iff.1 hlook).1
    have hsecond : ∀ c, startsTimeZone c = true → ¬o.AtWord c.step := by
      intro c hlook hat
      obtain ⟨rest, hahead⟩ := hat.ahead
      obtain ⟨behind, _ | ⟨first, more⟩, depth⟩ := c
      · cases hlook
      · cases hahead
        exact o.word_isThisWord_ne (by decide) (Bool.and_eq_true_iff.1 hlook).2
    refine take (ψ := fun c => ¬o.AtWord c) hfirst (fun _ => False.elim) hsecond fun _ => ?_
    refine takeOffWord (fun _ => id) fun _ => ?_
    refine Follows.of (T := o.Foreign) ?_
    exact acceptWordThen (by decide) h.unit.returns refuseFor
  refine acceptThen rfl (h.subscript e).returns ?_
  refine testThenOr (fun _ _ hapart _ => startsTimeZone_or hapart)
    (fun _ hopen _ => ⟨startsTimeZone_of_open hopen, hopen⟩) (hzone.when fun _ hc => hc.2) ?_
  refine acceptKnowing rfl ((collate g).bind fun collate => ?_) .pure
  exact (withCollate g e collate).returns

/-- Each further thing behind an operand takes a token. -/
theorem advances_suffix (e : Expr) : Advances (g.suffix e) := by
  refine .acceptThen (Forward.spends fun depth => (h.keeps depth).subscript.less).returns ?_
  refine .testThen ?_ ?_
  · refine .take fun _ => ?_
    refine .bind .take fun _ => ?_
    refine .branch (.spends fun _ => .acceptWord) ?_ .refuseFor
    exact (Forward.spends fun depth => (h.keeps depth).unit.less).returns
  · refine .acceptThen ?_ .done
    refine (Forward.spends fun _ => KeepsTo.collate.less).bind fun _ => ?_
    exact (Forward.spends fun _ => KeepsTo.withCollate).returns

omit h in
theorem plusSigns : o.Follows φ Never Never Level.plusSigns :=
  .loop (fun _ => acceptThen rfl .pure .pure) fun _ => .acceptThen .pure .done

theorem operand : o.Follows φ Never o.Open g.operand := by
  refine plusSigns.bind fun _ => ?_
  refine acceptThen rfl ?_ ?_
  · exact isNextThen rfl (takeOf rfl fun _ => .pure) (h.below .operand).returns
  · refine h.unit.bind fun _ => ?_
    exact .loop h.suffix h.advances_suffix

end Level.Omits

end SqlTree

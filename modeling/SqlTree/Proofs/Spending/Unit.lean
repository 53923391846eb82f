import SqlTree.Proofs.Spending.Expression

/-!
# What units and operands spend

A unit takes at least one token, and so does an operand.  What is read one nesting level further
down stands behind a token: an opening parenthesis, a sign or a keyword.
-/

namespace SqlTree

open SqlTree.Parser

namespace Level.KeepsTo

variable {g : Level} {a : Allowance} {φ : Cursor → Prop} {k : Nat}

/-! ## Clauses of calls -/

theorem nullsOrder : Spends a φ k k Level.nullsOrder := by
  refine .acceptWordThen ?_ .pure
  refine .acceptWordThen .pure ?_
  exact .acceptWordThen .pure .refuseFor

theorem sortOrder : Spends a φ k k Level.sortOrder := by
  refine .acceptThen .pure ?_
  exact .acceptThen .pure .pure

theorem orderItem (h : g.KeepsTo a) [AtMost 1 k] :
    Spends a φ k (k + 1) g.orderItem := by
  refine h.expression.bind fun _ => ?_
  exact sortOrder.bind fun _ => nullsOrder.returns

theorem orderBy (h : g.KeepsTo a) [AtMost 1 k] : Spends a φ k (k + 1) g.orderBy := by
  refine Spends.accept.bind fun _ => ?_
  refine Spends.expect.bind fun _ => ?_
  exact (h.commaList h.orderItem).returns

theorem partitionBy (h : g.KeepsTo a) [AtMost 1 k] :
    Spends a φ k (k + 1) g.partitionBy := by
  refine Spends.expect.bind fun _ => ?_
  exact (h.commaList h.expression).returns

theorem window (h : g.KeepsTo a) : Spends a φ k (k + 1) g.window := by
  refine Spends.expect.bind fun _ => ?_
  refine (Spends.afterKeyword h.partitionBy).bind fun _ => ?_
  exact (Spends.afterKeyword h.orderBy).bind fun _ => Spends.expect.returns

theorem withinGroup (h : g.KeepsTo a) : Spends a φ k k g.withinGroup := by
  refine .testThen (.takeTwo (fun c hc => ?_) ?_) .pure
  · obtain ⟨behind, _ | ⟨first, _ | ⟨second, ahead⟩⟩, depth⟩ := c
    · cases hc.2
    · exact absurd hc.2 (by simp [Level.startsWithinGroup, Cursor.secondType])
    · simp
  · refine Spends.expect.bind fun _ => ?_
    refine Spends.expect.bind fun _ => ?_
    exact h.orderBy.bind fun _ => Spends.expect.returns

theorem listBefore {α : Type} {closing : TokenType} {items : Parser (List α)}
    (hitems : Spends a (fun _ => True) k (k + 1) items) :
    Spends a φ k k (Level.listBefore closing items) :=
  .isNextThen .pure (hitems.anywhere.less)

theorem call (h : g.KeepsTo a) {path : NamePath} [AtMost 1 k] :
    Spends a φ k (k + 1) (g.call path) := by
  refine Spends.expect.bind fun _ => ?_
  refine Spends.accept.bind fun _ => ?_
  refine (listBefore (h.commaList h.expression)).bind fun _ => ?_
  refine Spends.expect.bind fun _ => ?_
  refine h.withinGroup.bind fun _ => ?_
  exact (Spends.afterKeyword h.window).returns

/-! ## Columns and calls -/

theorem starPath : Spends a φ k (k + 1) g.starPath := by
  refine namePart.bind fun _ => ?_
  refine .loop fun _ => ?_
  refine .acceptThen ?_ .pure
  exact .acceptThen .pure namePart.returns

theorem column {path : NamePath} : Spends a φ k k (g.column path) := by
  obtain ⟨last, before⟩ := path
  match before with
  | [] => exact .pure
  | [_] => exact .pure
  | [_, _] => exact .pure
  | _ :: _ :: _ :: _ => exact .refuse

theorem named (h : g.KeepsTo a) : Spends a φ k (k + 1) g.named := by
  refine starPath.bind fun (path, isStar) => ?_
  cases isStar with
  | true => exact .pure
  | false => exact .isNextThen h.call.returns.anywhere column

/-! ## `CASE` -/

/-- The branches of a `CASE` pay for themselves. -/
theorem caseItemsFrom (h : g.KeepsTo a) {left : Nat} {done : List (CaseItem Expr)} {c : Cursor}
    {i : Nat} [AtMost 1 i] (hdepth : c.depth = a.depth)
    (hroom : c.ahead.length + i ≤ a.items → c.ahead.length ≤ left) :
    Ends a c i i (g.caseItemsFrom left done c) := by
  unfold Level.caseItemsFrom
  by_cases hwhen : c.nextType = some (.keyword .WHEN)
  · obtain ⟨token, rest, hahead, -⟩ := Cursor.exists_ahead_of_nextType hwhen
    have hstep := Cursor.Passes.step hahead
    have hdepth₁ := hstep.depth.trans hdepth
    rw [acceptKeyword, branch_of_true (accept_of_next hwhen)]
    refine Ends.further hstep (Ends.bind (h.expression.ends hdepth₁)
      fun condition c₂ _ hpasses₂ _ => ?_)
    have hdepth₂ := hpasses₂.depth.trans hdepth₁
    refine Ends.bind (Spends.expect.ends hdepth₂)
      fun _ c₃ _ hpasses₃ _ => ?_
    have hdepth₃ := hpasses₃.depth.trans hdepth₂
    refine Ends.bind (h.expression.ends hdepth₃)
      fun result c₄ _ hpasses₄ _ => ?_
    have hlength := (hstep.trans (hpasses₂.trans (hpasses₃.trans hpasses₄))).length_ahead
    simp only [List.length_append, List.length_singleton] at hlength ⊢
    cases left with
    | zero =>
        refine .error (.refl c₄) ⟨fun _ => nofun, fun _ _ => nofun, fun hle => ?_⟩
        have := hroom (by omega)
        omega
    | succ left =>
        refine Ends.less (caseItemsFrom h (hpasses₄.depth.trans hdepth₃) fun hle => ?_)
          (by omega)
        have := hroom (by omega)
        omega
  · rw [acceptKeyword, branch_of_false (accept_of_not_next hwhen)]
    exact .ok (.refl c) (Nat.le_refl i)

theorem caseOperand (h : g.KeepsTo a) [AtMost 1 k] : Spends a φ k k g.caseOperand :=
  .testThen .pure h.expression.map.less

theorem caseOf (h : g.KeepsTo a) [AtMost 1 k] : Spends a φ k k g.caseOf := by
  refine h.caseOperand.bind fun _ => ?_
  refine Spends.bind (fun c _ hdepth => h.caseItemsFrom hdepth fun hle => ?_) fun items => ?_
  · have := h.items
    have : 1 ≤ k := AtMost.le
    omega
  · cases items with
    | nil => exact .refuseFor
    | cons item items =>
        exact (Spends.afterKeyword h.expression).bind fun _ => Spends.expect.returns

/-! ## Parentheses -/

theorem parenthesizedQuery (h : g.KeepsTo a) : Spends a φ k (k + 1) g.parenthesizedQuery := by
  refine Spends.expect.bind fun _ => ?_
  exact (h.below .query).bind fun _ => Spends.expect.returns

theorem quantified (h : g.KeepsTo a) : Spends a φ k (k + 1) g.quantified := by
  refine .testThen h.parenthesizedQuery ?_
  refine Spends.expect.bind fun _ => ?_
  exact h.expression.bind fun _ => Spends.expect.returns

theorem parenthesized (h : g.KeepsTo a) : Spends a φ k (k + 1) g.parenthesized := by
  refine Spends.expect.bind fun _ => .testThen ?_ ?_
  · exact (h.below .query).anywhere.bind fun _ =>
      Spends.expect.returns
  · exact h.expression.bind fun _ => Spends.expect.returns

theorem array (h : g.KeepsTo a) [AtMost 1 k] : Spends a φ k (k + 1) g.array := by
  refine Spends.expect.bind fun _ => ?_
  exact (listBefore (h.commaList h.expression)).bind fun _ => Spends.expect.returns

theorem timeUnit : Spends a φ k k g.timeUnit :=
  .takeIf (fun _ _ => rfl) (fun _ => .pure) .pure

theorem interval (h : g.KeepsTo a) [AtMost 1 k] : Spends a φ k (k + 1) g.interval :=
  (h.below .intervalValue).anywhere.bind fun _ => timeUnit.returns

/-! ## Units -/

theorem keywordUnit (h : g.KeepsTo a) {word : Keyword} :
    Spends a (fun c => c.nextType = some (.keyword word)) k (k + 1) (g.keywordUnit word) := by
  cases word with
  | NULL => exact .takeOf fun _ => .pure
  | TRUE => exact .takeOf fun _ => .pure
  | FALSE => exact .takeOf fun _ => .pure
  | NOT => exact .takeOf fun _ => h.negation.returns
  | CASE => exact .takeOf fun _ => h.caseOf
  | EXISTS => exact .takeOf fun _ => h.parenthesizedQuery.returns
  | INTERVAL => exact .takeOf fun _ => h.interval.less
  | ANY =>
      refine .testThen (.mono ?_ fun _ => And.left) .refuseFound
      exact .takeOf fun _ => h.quantified.returns
  | ALL =>
      refine .testThen (.mono ?_ fun _ => And.left) .refuseFound
      exact .takeOf fun _ => h.quantified.returns
  | ARRAY =>
      refine .testThen (.mono ?_ fun _ => And.left) .refuseFound
      exact .takeOf fun _ => h.array.less
  | _ => exact .testThen h.named .refuseFound

theorem unit (h : g.KeepsTo a) : Spends a φ k (k + 1) g.unit := by
  refine .peekType fun next => ?_
  cases next with
  | none => exact .refuseFor
  | some type =>
      cases type with
      | lparen => exact h.parenthesized
      | number => exact .takeOf fun _ => .pure
      | string => exact .takeOf fun _ => .pure
      | nationalString => exact .takeOf fun _ => .pure
      | star => exact .takeOf fun _ => .pure
      | atSign => exact variableName
      | colon => exact variableName
      | identifier => exact h.named
      | quotedIdentifier => exact h.named
      | keyword word => exact h.keywordUnit
      | _ => exact .refuseFound

/-! ## Operands -/

theorem bound (h : g.KeepsTo a) {behind : TokenType} [AtMost 1 k] :
    Spends a φ k k (g.bound behind) :=
  .isNextThen .pure h.additive.map.less

theorem subscript (h : g.KeepsTo a) {base : Expr} [AtMost 1 k] :
    Spends a φ k (k + 1) (g.subscript base) := by
  refine h.bound.bind fun lower => .acceptThen ?_ ?_
  · exact h.bound.bind fun _ => Spends.expect.returns
  · refine Spends.expect.bind fun _ => ?_
    cases lower with
    | none => exact .refuse
    | some index => exact .pure

theorem withCollate {e : Expr} {collate : Collate} : Spends a φ k k (g.withCollate e collate) := by
  unfold Level.withCollate
  cases e.collated? collate with
  | some e' => exact .pure
  | none => exact .throw fun _ => .plain (fun _ => nofun) (fun _ => nofun) fun _ _ => nofun

theorem suffix (h : g.KeepsTo a) {e : Expr} : Spends a φ k k (g.suffix e) := by
  refine .acceptThen h.subscript.returns ?_
  refine .testThen (.takeTwo (fun c hc => ?_) ?_) ?_
  · obtain ⟨behind, _ | ⟨first, _ | ⟨second, ahead⟩⟩, depth⟩ := c
    · cases hc.2
    · cases hc.2
    · simp
  · exact .acceptWordThen h.unit.returns .refuseFor
  · refine .acceptThen ?_ .pure
    exact collate.bind fun _ => withCollate.returns

theorem plusSigns : Spends a φ k k Level.plusSigns :=
  .loop fun _ => .acceptThen .pure .pure

theorem operand (h : g.KeepsTo a) : Spends a φ k (k + 1) g.operand := by
  refine plusSigns.bind fun _ => ?_
  refine .acceptThen ?_ ?_
  · exact .isNextThen (.takeOf fun _ => .pure) (h.below .operand).returns
  · refine h.unit.bind fun _ => ?_
    exact .loop fun _ => h.suffix

end Level.KeepsTo

end SqlTree

import SqlTree.Proofs.Refusing.Rules

/-!
# Expressions are accountable

Each rule for names, operators, units and operands is accountable, provided the productions one
nesting level further down are.
-/

namespace SqlTree

open SqlTree.Parser

/-- The productions one nesting level further down are accountable. -/
def Level.AccountableBelow (g : Level) : Prop :=
  ∀ production, Accountable (g.below production)

namespace Level.AccountableBelow

variable {g : Level}

/-! ## Names -/

theorem namePart (g : Level) : Accountable g.namePart :=
  .branch .test (.returns .take) .refuseFor

theorem namePath (g : Level) : Accountable g.namePath := by
  refine (namePart g).bind fun _ => ?_
  refine .loop fun _ => ?_
  exact .branch .accept (namePart g).returns .pure

theorem aliasName (g : Level) : Accountable g.aliasName := by
  refine .branch .accept ?_ ?_
  · exact .branch .test (.returns .take) .refuseFor
  · exact .branch .test (.returns .take) .pure

theorem collate (g : Level) : Accountable g.collate :=
  .branch .test (.returns .take) .refuseFor

theorem sigil (type : TokenType) : Accountable (Level.sigil type) := by
  unfold Level.sigil
  split
  case isTrue => exact .branch .accept .pure .pure
  case isFalse => exact .pure

theorem variableName (g : Level) : Accountable g.variableName := by
  refine .bind .take fun token => ?_
  refine (sigil token.type).bind fun _ => ?_
  exact .branch .test (.returns .take) .refuseFor

/-! ## Operators -/

theorem chain (g : Level) {operator? : TokenType → Option BinaryOp} {operand : Parser Expr}
    (hoperand : Accountable operand) : Accountable (g.chain operator? operand) := by
  refine hoperand.bind fun _ => ?_
  refine .loop fun _ => ?_
  refine .bind .peekType fun next => ?_
  cases next.bind operator? with
  | some op => exact .bind .take fun _ => hoperand.returns
  | none => exact .pure

theorem truthOrNull (g : Level) : Accountable g.truthOrNull := by
  refine .branch .accept .pure ?_
  refine .branch .accept .pure ?_
  exact .branch .accept .pure .refuseFor

theorem isPredicate (g : Level) (left : Expr) : Accountable (g.isPredicate left) := by
  refine .bind .accept fun _ => ?_
  exact (truthOrNull g).returns

theorem predicateNot : Accountable Level.predicateNot :=
  .branch .test (.returns .take) .pure

variable (h : g.AccountableBelow)

include h

theorem additive : Accountable g.additive :=
  chain g (chain g (h .operand))

theorem targets : Accountable g.targets :=
  .branch .test (h .query).returns (.returns (.commaList h.additive))

theorem membership (left : Expr) (negated : Bool) : Accountable (g.membership left negated) := by
  refine .bind .expect fun _ => ?_
  exact h.targets.bind fun _ => .returns .expect

theorem between (left : Expr) (negated : Bool) : Accountable (g.between left negated) := by
  refine h.additive.bind fun _ => ?_
  exact .bind .expect fun _ => h.additive.returns

theorem regex (left : Expr) (ignoresCase negated : Bool) :
    Accountable (g.regex left ignoresCase negated) :=
  h.additive.returns

theorem wordPredicate (left : Expr) : Accountable (g.wordPredicate left) := by
  refine predicateNot.bind fun negated => ?_
  refine .branch .accept h.additive.returns ?_
  refine .branch .accept h.additive.returns ?_
  refine .branch .accept (h.between left negated).returns ?_
  refine .branch .accept (h.membership left negated).returns ?_
  exact .branch .accept (h.regex left false negated).returns .pure

theorem predicate (left : Expr) : Accountable (g.predicate left) := by
  refine .bind .peekType fun next => ?_
  cases next.bind TokenType.comparison? with
  | some op => exact .bind .take fun _ => h.additive.returns
  | none =>
      refine .branch .accept (isPredicate g left).returns ?_
      cases next.bind TokenType.regexSign? with
      | some sign =>
          refine .bind .take fun _ => ?_
          exact (h.regex left sign.1 sign.2).returns
      | none => exact h.wordPredicate left

theorem relational : Accountable g.relational :=
  h.additive.bind fun _ => .loop h.predicate

theorem negation : Accountable g.negation :=
  .branch .accept (h .negation).returns h.relational

theorem expression : Accountable g.expression :=
  chain g (chain g (chain g h.negation))

/-! ## Clauses of calls -/

omit h in
theorem nullsOrder : Accountable Level.nullsOrder := by
  refine .branch .acceptWord ?_ .pure
  refine .branch .acceptWord .pure ?_
  exact .branch .acceptWord .pure .refuseFor

omit h in
theorem sortOrder : Accountable Level.sortOrder := by
  refine .branch .accept .pure ?_
  exact .branch .accept .pure .pure

theorem orderItem : Accountable g.orderItem := by
  refine h.expression.bind fun _ => ?_
  exact sortOrder.bind fun _ => nullsOrder.returns

theorem orderBy : Accountable g.orderBy := by
  refine .bind .accept fun _ => ?_
  refine .bind .expect fun _ => ?_
  exact .returns (.commaList h.orderItem)

theorem partitionBy : Accountable g.partitionBy := by
  refine .bind .expect fun _ => ?_
  exact .returns (.commaList h.expression)

theorem window : Accountable g.window := by
  refine .bind .expect fun _ => ?_
  refine .bind (.afterKeyword h.partitionBy) fun _ => ?_
  exact .bind (.afterKeyword h.orderBy) fun _ => .returns .expect

theorem withinGroup : Accountable g.withinGroup := by
  refine .branch .test ?_ .pure
  refine .bind .take fun _ => ?_
  refine .bind .take fun _ => ?_
  refine .bind .expect fun _ => ?_
  refine .bind .expect fun _ => ?_
  exact h.orderBy.bind fun _ => .returns .expect

omit h in
theorem listBefore {α : Type} {closing : TokenType} {items : Parser (List α)}
    (hitems : Accountable items) : Accountable (Level.listBefore closing items) :=
  .branch .isNext .pure hitems

theorem call (path : NamePath) : Accountable (g.call path) := by
  refine .bind .expect fun _ => ?_
  refine .bind .accept fun _ => ?_
  refine (listBefore (.commaList h.expression)).bind fun _ => ?_
  refine .bind .expect fun _ => ?_
  refine h.withinGroup.bind fun _ => ?_
  exact .returns (.afterKeyword h.window)

/-! ## Units -/

omit h in
theorem starPath (g : Level) : Accountable g.starPath := by
  refine (namePart g).bind fun _ => ?_
  refine .loop fun _ => ?_
  refine .branch .accept ?_ .pure
  exact .branch .accept .pure (namePart g).returns

omit h in
theorem column (g : Level) (path : NamePath) : Accountable (g.column path) := by
  obtain ⟨last, before⟩ := path
  match before with
  | [] => exact .pure
  | [_] => exact .pure
  | [_, _] => exact .pure
  | _ :: _ :: _ :: _ => exact .refuse fun _ => trivial

theorem named : Accountable g.named := by
  refine (starPath g).bind fun (path, isStar) => ?_
  cases isStar with
  | true => exact .pure
  | false => exact .branch .isNext (h.call path).returns (column g path)

theorem caseItemsFrom (left : Nat) (done : List (CaseItem Expr)) :
    Accountable (g.caseItemsFrom left done) := by
  induction left generalizing done with
  | zero =>
      unfold Level.caseItemsFrom
      refine .branch .accept ?_ .pure
      refine h.expression.bind fun _ => ?_
      refine .bind .expect fun _ => ?_
      refine h.expression.bind fun _ => ?_
      exact .throw fun _ => trivial
  | succ left ih =>
      unfold Level.caseItemsFrom
      refine .branch .accept ?_ .pure
      refine h.expression.bind fun _ => ?_
      refine .bind .expect fun _ => ?_
      exact h.expression.bind fun _ => ih _

theorem caseOf : Accountable g.caseOf := by
  have hoperand : Accountable g.caseOperand := .branch .test .pure h.expression.map
  refine hoperand.bind fun operand => ?_
  refine (h.caseItemsFrom _ _).bind fun items => ?_
  cases items with
  | nil => exact .refuseFor
  | cons item items =>
      exact .bind (.afterKeyword h.expression) fun _ => .returns .expect

theorem parenthesizedQuery : Accountable g.parenthesizedQuery := by
  refine .bind .expect fun _ => ?_
  exact (h .query).bind fun _ => .returns .expect

theorem quantified : Accountable g.quantified := by
  refine .branch .test h.parenthesizedQuery ?_
  refine .bind .expect fun _ => ?_
  exact h.expression.bind fun _ => .returns .expect

theorem parenthesized : Accountable g.parenthesized := by
  refine .bind .expect fun _ => ?_
  refine .branch .test ?_ ?_
  · exact (h .query).bind fun _ => .returns .expect
  · exact h.expression.bind fun _ => .returns .expect

theorem array : Accountable g.array := by
  refine .bind .expect fun _ => ?_
  refine (listBefore (.commaList h.expression)).bind fun _ => ?_
  exact .returns .expect

theorem interval : Accountable g.interval := by
  have hunit : Accountable g.timeUnit := .branch .test (.returns .take) .pure
  refine (h .intervalValue).bind fun _ => ?_
  exact hunit.returns

omit h in
/-- What cannot start an expression is refused for what it is. -/
theorem refuseInExpression {α : Type} : Accountable (refuseFound .inExpression : Parser α) :=
  .refuseFound fun _ => rfl

theorem keywordUnit (word : Keyword) : Accountable (g.keywordUnit word) := by
  cases word with
  | NULL => exact .returns .take
  | TRUE => exact .returns .take
  | FALSE => exact .returns .take
  | NOT => exact .bind .take fun _ => h.negation.returns
  | CASE => exact .bind .take fun _ => h.caseOf
  | EXISTS =>
      refine .bind .take fun _ => ?_
      exact h.parenthesizedQuery.returns
  | INTERVAL => exact .bind .take fun _ => h.interval
  | ANY | ALL =>
      refine .branch .test ?_ refuseInExpression
      refine .bind .take fun _ => ?_
      exact h.quantified.returns
  | ARRAY =>
      refine .branch .test ?_ refuseInExpression
      exact .bind .take fun _ => h.array
  | _ => exact .branch .test h.named refuseInExpression

theorem unit : Accountable g.unit := by
  refine .bind .peekType fun next => ?_
  cases next with
  | none => exact .refuseFor
  | some type =>
      cases type with
      | lparen => exact h.parenthesized
      | number => exact .returns .take
      | string => exact .returns .take
      | nationalString => exact .returns .take
      | star => exact .returns .take
      | atSign | colon => exact variableName g
      | identifier | quotedIdentifier => exact h.named
      | keyword word => exact h.keywordUnit word
      | _ => exact refuseInExpression

/-! ## Operands -/

theorem bound (behind : TokenType) : Accountable (g.bound behind) :=
  .branch .isNext .pure h.additive.map

theorem subscript (base : Expr) : Accountable (g.subscript base) := by
  refine (h.bound .colon).bind fun lower => ?_
  refine .branch .accept ?_ ?_
  · exact (h.bound .rbracket).bind fun _ => .returns .expect
  · refine .bind .expect fun _ => ?_
    cases lower with
    | none => exact .refuse fun _ => trivial
    | some index => exact .pure

omit h in
theorem withCollate (g : Level) (e : Expr) (collate : Collate) :
    Accountable (g.withCollate e collate) := by
  unfold Level.withCollate
  cases e.collated? collate with
  | some e' => exact .pure
  | none => exact .throw fun _ => trivial

theorem suffix (e : Expr) : Accountable (g.suffix e) := by
  refine .branch .accept (h.subscript e).returns ?_
  refine .branch .test ?_ ?_
  · refine .bind .take fun _ => ?_
    refine .bind .take fun _ => ?_
    exact .branch .acceptWord h.unit.returns .refuseFor
  · refine .branch .accept ?_ .pure
    refine (collate g).bind fun collate => ?_
    exact (withCollate g e collate).returns

theorem operand : Accountable g.operand := by
  have hplus : Accountable Level.plusSigns := .loop fun _ => .branch .accept .pure .pure
  refine hplus.bind fun _ => ?_
  refine .branch .accept ?_ ?_
  · exact .branch .isNext (.returns .take) (h .operand).returns
  · exact h.unit.bind fun _ => .loop h.suffix

end Level.AccountableBelow

end SqlTree

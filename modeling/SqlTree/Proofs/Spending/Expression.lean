import SqlTree.Proofs.Spending.Rules

/-!
# What an expression spends

Names, operators, units and operands take at least one token each, and what may follow them none or
more.  Wherever a production is read one nesting level further down, its cost has been paid.
-/

namespace SqlTree

open SqlTree.Parser

namespace Level.KeepsTo

variable {g : Level} {a : Allowance} {φ : Cursor → Prop} {k : Nat}

/-! ## Names -/

theorem namePart : Spends a φ k (k + 1) g.namePart := by
  refine .takeIf (fun _ _ => ?_) (fun _ => .pure) .refuseFor
  exact Bool.and_false _

theorem namePath : Spends a φ k (k + 1) g.namePath := by
  refine namePart.bind fun _ => ?_
  refine .loop fun _ => ?_
  exact .acceptThen namePart.returns .pure

theorem aliasName : Spends a φ k k g.aliasName := by
  refine .acceptThen (.takeIf (fun _ _ => rfl) (fun _ => .pure) .refuseFor) ?_
  exact .takeIf (fun _ _ => rfl) (fun _ => .pure) .pure

theorem collate : Spends a φ k (k + 1) g.collate :=
  .takeIf (fun _ _ => rfl) (fun _ => .pure) .refuseFor

theorem sigil {type : TokenType} : Spends a φ k k (Level.sigil type) := by
  by_cases htype : type = .atSign
  · simp only [Level.sigil, if_pos htype]
    exact .acceptThen .pure .pure
  · simp only [Level.sigil, if_neg htype]
    exact .pure

theorem variableName {type : TokenType} :
    Spends a (fun c => c.nextType = some type) k (k + 1) g.variableName := by
  refine .takeOf fun _ => ?_
  refine sigil.bind fun _ => ?_
  exact .takeIf (fun _ _ => rfl) (fun _ => .pure) .refuseFor

/-! ## Operators -/

theorem commaList {α : Type} (h : g.KeepsTo a) {construct : Construct} {item : Parser α}
    (hitem : Spends a (fun _ => True) k (k + 1) item) [AtMost 2 k] :
    Spends a φ k (k + 1) (g.commaList construct item) := by
  have hitems := h.items
  have htwo : 2 ≤ k := AtMost.le
  exact .commaList hitem (by omega)

theorem chain {operator? : TokenType → Option BinaryOp} {operand : Parser Expr}
    (hoperand : ∀ {ψ : Cursor → Prop}, Spends a ψ k (k + 1) operand) :
    Spends a φ k (k + 1) (g.chain operator? operand) := by
  refine hoperand.bind fun _ => ?_
  refine .loop fun left => ?_
  refine .peekType fun next => ?_
  cases next with
  | none => exact .pure
  | some type =>
      cases hop : operator? type with
      | none =>
          simp only [Option.bind_some, hop]
          exact .pure
      | some op =>
          simp only [Option.bind_some, hop]
          exact .takeOf fun _ => hoperand.later.returns

theorem multiplicative (h : g.KeepsTo a) [AtMost 1 k] :
    Spends a φ k (k + 1) g.multiplicative :=
  chain (h.below .operand).anywhere

theorem additive (h : g.KeepsTo a) [AtMost 1 k] : Spends a φ k (k + 1) g.additive :=
  chain h.multiplicative

theorem truthOrNull : Spends a φ k (k + 1) g.truthOrNull := by
  refine .acceptThen .pure ?_
  refine .acceptThen .pure ?_
  exact .acceptThen .pure .refuseFor

theorem isPredicate {left : Expr} : Spends a φ k (k + 1) (g.isPredicate left) :=
  Spends.accept.bind fun _ => truthOrNull.returns

theorem targets (h : g.KeepsTo a) [AtMost 2 k] : Spends a φ k (k + 1) g.targets := by
  have hone : AtMost 1 k := ⟨Nat.le_of_succ_le (AtMost.le : 2 ≤ k)⟩
  exact .testThen (h.below .query).anywhere.returns
    (h.commaList h.additive).returns

theorem membership (h : g.KeepsTo a) {left : Expr} {negated : Bool} [AtMost 1 k] :
    Spends a φ k (k + 1) (g.membership left negated) := by
  refine Spends.expect.bind fun _ => ?_
  exact h.targets.bind fun _ => Spends.expect.returns

theorem between (h : g.KeepsTo a) {left : Expr} {negated : Bool} [AtMost 1 k] :
    Spends a φ k (k + 1) (g.between left negated) := by
  refine h.additive.bind fun _ => ?_
  exact Spends.expect.bind fun _ => h.additive.returns

theorem regex (h : g.KeepsTo a) {left : Expr} {ignoresCase negated : Bool} [AtMost 1 k] :
    Spends a φ k (k + 1) (g.regex left ignoresCase negated) :=
  h.additive.returns

theorem predicateNot : Spends a φ k k Level.predicateNot :=
  .takeIf (fun _ _ => rfl) (fun _ => .pure) .pure

theorem wordPredicate (h : g.KeepsTo a) {left : Expr} [AtMost 1 k] :
    Spends a φ k k (g.wordPredicate left) := by
  refine predicateNot.bind fun negated => ?_
  refine .acceptThen h.additive.returns ?_
  refine .acceptThen h.additive.returns ?_
  refine .acceptThen h.between.returns ?_
  refine .acceptThen h.membership.returns ?_
  exact .acceptThen h.regex.returns .pure

theorem predicate (h : g.KeepsTo a) {left : Expr} [AtMost 1 k] :
    Spends a φ k k (g.predicate left) := by
  refine .peekType fun next => ?_
  cases next with
  | none => exact .acceptThen isPredicate.returns h.wordPredicate
  | some type =>
      cases hop : type.comparison? with
      | some op =>
          simp only [Option.bind_some, hop]
          exact .takeOf fun _ => h.additive.returns
      | none =>
          simp only [Option.bind_some, hop]
          refine .acceptThen isPredicate.returns ?_
          cases hsign : type.regexSign? with
          | some sign => exact .takeOf fun _ => h.regex.returns
          | none => exact h.wordPredicate

theorem relational (h : g.KeepsTo a) [AtMost 1 k] :
    Spends a φ k (k + 1) g.relational := by
  refine h.additive.bind fun _ => ?_
  exact .loop fun _ => h.predicate

theorem negation (h : g.KeepsTo a) [AtMost 1 k] : Spends a φ k (k + 1) g.negation :=
  .acceptThen (h.below .negation).returns h.relational

theorem expression (h : g.KeepsTo a) [AtMost 1 k] :
    Spends a φ k (k + 1) g.expression :=
  chain (chain (chain h.negation))

end Level.KeepsTo

end SqlTree

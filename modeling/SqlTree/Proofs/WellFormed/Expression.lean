import SqlTree.Grammar.Unit
import SqlTree.Proofs.Outcome
import SqlTree.Proofs.WellFormed.Slot

/-!
# Expressions are well formed

Every rule for expressions gives a tree that may stand where an expression is wanted, provided the
productions one nesting level further down give what their places want.
-/

namespace SqlTree

open SqlTree.Parser

def Production.slot : Production → Slot
  | .query => .query
  | .source => .source
  | .negation | .operand | .intervalValue => .expression

namespace WellFormed

variable {n : Node Expr} {tag : Tag} {left right e query : Expr} {op : BinaryOp}

/-- A node all of whose children are expressions. -/
theorem ofHeld (hadmits : Slot.expression.Admits n) (hsound : n.Sound)
    (hslots : n.slots = Slot.expression.each n.held) (hheld : AllIn .expression n.held) :
    WellFormed .expression (.node n) := by
  refine .ofFilled hadmits hsound ?_
  rw [hslots]
  exact filled_each.2 hheld

/-- A query in parentheses. -/
theorem subquery (hquery : WellFormed .query query) :
    WellFormed .subquery (.node (.select query none tag)) :=
  .ofFilled rfl trivial (by simpa [Node.slots] using hquery)

theorem expression_of_subquery (h : WellFormed .subquery e) : WellFormed .expression e := by
  obtain ⟨n⟩ := e
  refine h.transfer ?_
  have hadmits := h.admits_toNode
  cases n with
  | select => exact hadmits
  | _ => exact hadmits.elim

theorem binary (hleft : WellFormed .expression left) (hright : WellFormed op.rightSlot right) :
    WellFormed .expression (.node (.binary left op right tag)) :=
  .ofFilled trivial trivial (by simpa [Node.slots] using ⟨hleft, hright⟩)

end WellFormed

/-- What the productions give one nesting level further down may stand where they stand. -/
def Level.FormsBelow (g : Level) : Prop :=
  ∀ production, Gives (WellFormed production.slot) (g.below production)

/-- An operator of the layers of an expression takes an expression on its right. -/
def TokenType.TakesExpression (operator? : TokenType → Option BinaryOp) : Prop :=
  ∀ type op, operator? type = some op → op.rightSlot = .expression

namespace Level.FormsBelow

variable {g : Level} {left e : Expr}

/-! ## Operators -/

theorem chain (g : Level) {operator? : TokenType → Option BinaryOp} {operand : Parser Expr}
    (hoperator : TokenType.TakesExpression operator?)
    (hoperand : Gives (WellFormed .expression) operand) :
    Gives (WellFormed .expression) (g.chain operator? operand) := by
  refine hoperand.bind fun first hfirst => ?_
  refine .loop hfirst fun left hleft => ?_
  refine .after fun next => ?_
  cases hop : next.bind operator? with
  | none => exact .pure hleft
  | some op =>
      obtain ⟨type, -, htype⟩ := Option.bind_eq_some_iff.1 hop
      have hslot := hoperator type op htype
      refine .after fun _ => ?_
      refine hoperand.bind fun right hright => ?_
      exact .pure (.binary hleft (hslot ▸ hright))

theorem commaList {α : Type} {V : α → Prop} {construct : Construct} {item : Parser α}
    (hitem : Gives V item) :
    Gives (fun as => as ≠ [] ∧ ∀ a ∈ as, V a) (g.commaList construct item) :=
  Gives.commaList hitem

variable (h : g.FormsBelow)

include h

theorem additive : Gives (WellFormed .expression) g.additive := by
  refine chain g ?_ (chain g ?_ (h .operand))
  · intro type op hop
    cases type <;> cases hop <;> rfl
  · intro type op hop
    cases type <;> cases hop <;> rfl

/-! ## Predicates -/

omit h in
theorem truthOrNull (g : Level) : Gives (WellFormed .truthOrNull) g.truthOrNull := by
  have hbool : ∀ value, WellFormed .truthOrNull (g.bool value) :=
    fun _ => .ofFilled trivial trivial (by simp [Node.slots, Node.held])
  have hnull : WellFormed .truthOrNull g.null :=
    .ofFilled trivial trivial (by simp [Node.slots, Node.held])
  refine .branch (.pure hnull) ?_
  refine .branch (.pure (hbool true)) ?_
  exact .branch (.pure (hbool false)) .refuseFor

omit h in
theorem isPredicate (hleft : WellFormed .expression left) :
    Gives (WellFormed .expression) (g.isPredicate left) := by
  refine .after fun negated => ?_
  refine (truthOrNull g).bind fun right hright => ?_
  refine .pure (.binary hleft ?_)
  cases negated with
  | true => exact hright
  | false => exact hright

/-- A list that is not empty, or else a query in parentheses. -/
def Targets (targets : List Expr × Option Expr) : Prop :=
  ((targets.1 ≠ [] ∧ targets.2 = none) ∨ (targets.1 = [] ∧ targets.2.isSome)) ∧
    AllIn .expression targets.1 ∧ ∀ query ∈ targets.2, WellFormed .subquery query

theorem targets : Gives Targets g.targets := by
  refine .branch ?_ ?_
  · refine (h .query).bind fun query hquery => ?_
    refine .pure ⟨.inr ⟨rfl, rfl⟩, allIn_nil, fun e he => ?_⟩
    cases he
    exact .subquery hquery
  · refine (commaList h.additive).bind fun list ⟨hne, hlist⟩ => ?_
    refine .pure ?_
    exact ⟨.inl ⟨hne, rfl⟩, hlist, forall_mem_none⟩

theorem membership (hleft : WellFormed .expression left) (negated : Bool) :
    Gives (WellFormed .expression) (g.membership left negated) := by
  refine .after fun _ => ?_
  refine h.targets.bind fun (list, query) ⟨hone, hlist, hquery⟩ => ?_
  refine .after fun _ => ?_
  refine .pure (.ofFilled trivial hone ?_)
  simpa [Node.slots] using ⟨⟨hleft, hlist⟩, hquery⟩

theorem between (hleft : WellFormed .expression left) (negated : Bool) :
    Gives (WellFormed .expression) (g.between left negated) := by
  refine h.additive.bind fun low hlow => ?_
  refine .after fun _ => ?_
  refine h.additive.bind fun high hhigh => ?_
  exact .pure (.ofHeld trivial trivial rfl (by simpa [Node.held] using ⟨hleft, hlow, hhigh⟩))

theorem regex (hleft : WellFormed .expression left) (ignoresCase negated : Bool) :
    Gives (WellFormed .expression) (g.regex left ignoresCase negated) := by
  refine h.additive.bind fun pattern hpattern => ?_
  refine .pure (.ofHeld trivial trivial rfl ?_)
  simpa [Node.held] using ⟨hleft, hpattern⟩

theorem wordPredicate (hleft : WellFormed .expression left) :
    Gives (fun t => WellFormed .expression t.value) (g.wordPredicate left) := by
  have hlike : ∀ op : BinaryOp, op.rightSlot = .expression →
      Gives (fun t : Turn Expr => WellFormed .expression t.value)
        (do return .again (g.binary left op (← g.additive))) := by
    intro op hslot
    refine h.additive.bind fun right hright => ?_
    exact .pure (.binary hleft (hslot ▸ hright))
  refine .after fun negated => ?_
  refine .branch (hlike _ (by cases negated <;> rfl)) ?_
  refine .branch (hlike _ (by cases negated <;> rfl)) ?_
  refine .branch (h.between hleft negated).last ?_
  refine .branch (h.membership hleft negated).last ?_
  exact .branch (h.regex hleft false negated).last (.pure hleft)

theorem predicate (hleft : WellFormed .expression left) :
    Gives (fun t => WellFormed .expression t.value) (g.predicate left) := by
  refine .after fun next => ?_
  cases hop : next.bind TokenType.comparison? with
  | some op =>
      obtain ⟨type, -, htype⟩ := Option.bind_eq_some_iff.1 hop
      have hslot : op.rightSlot = .expression := by
        cases type <;> cases htype <;> rfl
      refine .after fun _ => ?_
      refine h.additive.bind fun right hright => ?_
      exact .pure (.binary hleft (hslot ▸ hright))
  | none =>
      refine .branch (isPredicate hleft).last ?_
      cases next.bind TokenType.regexSign? with
      | some sign => exact .after fun _ => (h.regex hleft sign.1 sign.2).last
      | none => exact h.wordPredicate hleft

theorem relational : Gives (WellFormed .expression) g.relational := by
  refine h.additive.bind fun _ hleft => ?_
  exact .loop hleft fun _ hleft => h.predicate hleft

theorem negation : Gives (WellFormed .expression) g.negation := by
  refine .branch ?_ h.relational
  refine (h .negation).bind fun e he => ?_
  refine .pure ?_
  exact .ofHeld trivial trivial rfl (by simpa [Node.held, Production.slot] using he)

theorem expression : Gives (WellFormed .expression) g.expression := by
  refine chain g ?_ (chain g ?_ (chain g ?_ h.negation))
  · intro type op hop
    unfold TokenType.disjunction? at hop
    split at hop <;> cases hop
    rfl
  · intro type op hop
    unfold TokenType.exclusion? at hop
    split at hop <;> cases hop
    rfl
  · intro type op hop
    unfold TokenType.conjunction? at hop
    split at hop <;> cases hop
    rfl

/-! ## Calls -/

theorem orderItem : Gives (fun item => AllIn .expression item.held) g.orderItem := by
  refine h.expression.bind fun e he => ?_
  refine .after fun _ => ?_
  refine .after fun _ => ?_
  refine .pure ?_
  simpa [OrderItem.held] using he

theorem orderBy : Gives (fun o => o.items ≠ [] ∧ AllIn .expression o.held) g.orderBy := by
  refine .after fun _ => ?_
  refine .after fun _ => ?_
  refine (commaList h.orderItem).bind fun items ⟨hne, hitems⟩ => ?_
  exact .pure ⟨hne, allIn_flatMap.2 hitems⟩

theorem partitionBy : Gives (fun p => p.items ≠ [] ∧ AllIn .expression p.held) g.partitionBy := by
  refine .after fun _ => ?_
  exact (commaList h.expression).bind fun _ hitems => .pure hitems

theorem window : Gives (fun w => w.Sound ∧ AllIn .expression w.held) g.window := by
  refine .after fun _ => ?_
  refine (Gives.afterKeyword h.partitionBy).bind fun partition hpartition => ?_
  refine (Gives.afterKeyword h.orderBy).bind fun order horder => ?_
  refine .after fun _ => ?_
  refine .pure ?_
  refine ⟨⟨fun p hp => (hpartition p hp).1, fun o ho => (horder o ho).1⟩, ?_⟩
  simpa [Window.held] using ⟨fun p hp => (hpartition p hp).2, fun o ho => (horder o ho).2⟩

theorem withinGroup :
    Gives (fun within? => ∀ w ∈ within?, w.orderBy.items ≠ [] ∧ AllIn .expression w.held)
      g.withinGroup := by
  refine .branch ?_ (.pure forall_mem_none)
  refine .after fun _ => ?_
  refine .after fun _ => ?_
  refine .after fun _ => ?_
  refine .after fun _ => ?_
  refine h.orderBy.bind fun order horder => ?_
  refine .after fun _ => ?_
  refine .pure fun w hw => ?_
  cases hw
  exact horder

omit h in
theorem listBefore {closing : TokenType} {items : Parser (List Expr)}
    (hitems : Gives (fun es => es ≠ [] ∧ AllIn .expression es) items) :
    Gives (AllIn .expression) (Level.listBefore closing items) := by
  refine .branch (.pure allIn_nil) ?_
  exact hitems.mono fun _ hes => hes.2

theorem call (path : NamePath) :
    Gives (fun c => c.Sound ∧ AllIn .expression c.held) (g.call path) := by
  refine .after fun _ => ?_
  refine .after fun distinct => ?_
  refine (listBefore (commaList h.expression)).bind fun arguments harguments => ?_
  refine .after fun _ => ?_
  refine h.withinGroup.bind fun within hwithin => ?_
  refine (Gives.afterKeyword h.window).bind fun window hwindow => ?_
  refine .pure ?_
  refine ⟨⟨fun w hw => (hwithin w hw).1, fun w hw => (hwindow w hw).1⟩, ?_⟩
  simpa [Call.held] using
    ⟨harguments, fun w hw => (hwithin w hw).2, fun w hw => (hwindow w hw).2⟩

/-! ## Units -/

omit h in
/-- A node without children. -/
theorem leaf {n : Node Expr} (hadmits : Slot.expression.Admits n) (hsound : n.Sound)
    (hslots : n.slots = []) : WellFormed .expression (.node n) := by
  refine .ofFilled hadmits hsound ?_
  rw [hslots]
  exact List.forall_mem_nil _

omit h in
theorem column (g : Level) (path : NamePath) : Gives (WellFormed .expression) (g.column path) := by
  obtain ⟨last, before⟩ := path
  match before with
  | [] => exact .pure (leaf trivial trivial rfl)
  | [_] => exact .pure (leaf trivial trivial rfl)
  | [_, _] => exact .pure (leaf trivial trivial rfl)
  | _ :: _ :: _ :: _ => exact .refuse

theorem named : Gives (WellFormed .expression) g.named := by
  refine .after fun (path, isStar) => ?_
  cases isStar with
  | true => exact .pure (leaf trivial trivial rfl)
  | false =>
      refine .branch ?_ (column g path)
      refine (h.call path).bind fun function ⟨hsound, hheld⟩ => ?_
      exact .pure (.ofHeld trivial hsound rfl hheld)

theorem caseItemsFrom {n : Nat} {done : List (CaseItem Expr)}
    (hdone : ∀ item ∈ done, AllIn .expression item.held) :
    Gives (fun items => ∀ item ∈ items, AllIn .expression item.held) (g.caseItemsFrom n done) := by
  have hend : Gives (fun items => ∀ item ∈ items, AllIn .expression item.held)
      (pure done.reverse : Parser (List (CaseItem Expr))) :=
    .pure fun item hitem => hdone item (List.mem_reverse.1 hitem)
  induction n generalizing done with
  | zero =>
      unfold Level.caseItemsFrom
      refine .branch ?_ hend
      refine .after fun _ => ?_
      refine .after fun _ => ?_
      exact .after fun _ => .throw
  | succ n ih =>
      unfold Level.caseItemsFrom
      refine .branch ?_ hend
      refine h.expression.bind fun condition hcondition => ?_
      refine .after fun _ => ?_
      refine h.expression.bind fun result hresult => ?_
      have hnext : ∀ item ∈ (⟨condition, result, g.tag⟩ :: done : List (CaseItem Expr)),
          AllIn .expression item.held := by
        refine List.forall_mem_cons.2 ⟨?_, hdone⟩
        simpa [CaseItem.held] using ⟨hcondition, hresult⟩
      exact ih hnext (.pure fun item hitem => hnext item (List.mem_reverse.1 hitem))

theorem caseOf : Gives (WellFormed .expression) g.caseOf := by
  have hoperand : Gives (fun e? => ∀ e ∈ e?, WellFormed .expression e) g.caseOperand := by
    refine .branch (.pure forall_mem_none) ?_
    exact h.expression.map fun _ he => forall_mem_some he
  refine hoperand.bind fun operand hoperand => ?_
  refine (h.caseItemsFrom (List.forall_mem_nil _)).bind fun items hitems => ?_
  cases items with
  | nil => exact .refuseFor
  | cons item items =>
      refine (Gives.afterKeyword h.expression).bind fun otherwise hotherwise => ?_
      refine .after fun _ => ?_
      refine .pure (.ofHeld trivial (List.cons_ne_nil item items) rfl ?_)
      obtain ⟨hitem, hitems⟩ := List.forall_mem_cons.1 hitems
      simpa [Node.held] using ⟨hoperand, hitem, hitems, hotherwise⟩

theorem parenthesizedQuery : Gives (WellFormed .subquery) g.parenthesizedQuery := by
  refine .after fun _ => ?_
  refine (h .query).bind fun _ hquery => ?_
  refine .after fun _ => ?_
  exact .pure (.subquery hquery)

theorem quantified : Gives (WellFormed .expression) g.quantified := by
  refine .branch (h.parenthesizedQuery.mono fun _ => .expression_of_subquery) ?_
  refine .after fun _ => ?_
  refine h.expression.bind fun e he => ?_
  exact .after fun _ => .pure he

theorem parenthesized : Gives (WellFormed .expression) g.parenthesized := by
  refine .after fun _ => ?_
  refine .branch ?_ ?_
  · refine (h .query).bind fun query hquery => ?_
    refine .after fun _ => ?_
    exact .pure (.expression_of_subquery (.subquery hquery))
  · refine h.expression.bind fun e he => ?_
    exact .after fun _ => .pure he

theorem array : Gives (WellFormed .expression) g.array := by
  refine .after fun _ => ?_
  refine (listBefore (commaList h.expression)).bind fun elements helements => ?_
  refine .after fun _ => ?_
  exact .pure (.ofHeld trivial trivial rfl helements)

theorem interval : Gives (WellFormed .expression) g.interval := by
  refine (h .intervalValue).bind fun value hvalue => ?_
  refine .after fun _ => ?_
  refine .pure ?_
  exact .ofHeld trivial trivial rfl (by simpa [Node.held, Production.slot] using hvalue)

theorem keywordUnit (word : Keyword) : Gives (WellFormed .expression) (g.keywordUnit word) := by
  cases word with
  | NULL =>
      refine .after fun _ => ?_
      exact .pure (leaf trivial trivial rfl)
  | TRUE =>
      refine .after fun _ => ?_
      exact .pure (leaf trivial trivial rfl)
  | FALSE =>
      refine .after fun _ => ?_
      exact .pure (leaf trivial trivial rfl)
  | NOT =>
      refine .after fun _ => ?_
      refine h.negation.bind fun e he => ?_
      refine .pure (.ofHeld trivial trivial rfl ?_)
      simpa [Node.held] using he
  | CASE => exact .after fun _ => h.caseOf
  | EXISTS =>
      refine .after fun _ => ?_
      refine h.parenthesizedQuery.bind fun query hquery => ?_
      refine .pure ?_
      exact .ofFilled trivial trivial (by simpa [Node.slots] using hquery)
  | INTERVAL => exact .after fun _ => h.interval
  | ANY =>
      refine .branch ?_ .refuseFound
      refine .after fun _ => ?_
      refine h.quantified.bind fun e he => ?_
      refine .pure ?_
      exact .ofHeld trivial trivial rfl (by simpa [Node.held] using he)
  | ALL =>
      refine .branch ?_ .refuseFound
      refine .after fun _ => ?_
      refine h.quantified.bind fun e he => ?_
      refine .pure ?_
      exact .ofHeld trivial trivial rfl (by simpa [Node.held] using he)
  | ARRAY =>
      refine .branch ?_ .refuseFound
      exact .after fun _ => h.array
  | _ => exact .branch h.named .refuseFound

omit h in
theorem variableName (g : Level) : Gives (WellFormed .expression) g.variableName := by
  refine .after fun _ => ?_
  refine .after fun _ => ?_
  refine .branch ?_ .refuseFor
  refine .after fun _ => ?_
  exact .pure (leaf trivial trivial rfl)

theorem unit : Gives (WellFormed .expression) g.unit := by
  refine .after fun next => ?_
  cases next with
  | none => exact .refuseFor
  | some type =>
      cases type with
      | lparen => exact h.parenthesized
      | number =>
          refine .after fun _ => ?_
          exact .pure (leaf trivial trivial rfl)
      | string =>
          refine .after fun _ => ?_
          exact .pure (leaf trivial trivial rfl)
      | nationalString =>
          refine .after fun _ => ?_
          exact .pure (leaf trivial trivial rfl)
      | star =>
          refine .after fun _ => ?_
          exact .pure (leaf trivial trivial rfl)
      | atSign => exact variableName g
      | colon => exact variableName g
      | identifier => exact h.named
      | quotedIdentifier => exact h.named
      | keyword word => exact h.keywordUnit word
      | _ => exact .refuseFound

/-! ## Operands -/

theorem bound (behind : TokenType) :
    Gives (fun e? => ∀ e ∈ e?, WellFormed .expression e) (g.bound behind) := by
  refine .branch (.pure forall_mem_none) ?_
  exact h.additive.map fun _ he => forall_mem_some he

theorem subscript {base : Expr} (hbase : WellFormed .expression base) :
    Gives (WellFormed .expression) (g.subscript base) := by
  refine (h.bound .colon).bind fun lower hlower => ?_
  refine .branch ?_ ?_
  · refine (h.bound .rbracket).bind fun upper hupper => ?_
    refine .after fun _ => ?_
    refine .pure (.ofHeld trivial trivial rfl ?_)
    simpa [Node.held] using ⟨hbase, hlower, hupper⟩
  · refine .after fun _ => ?_
    cases lower with
    | none => exact .refuse
    | some index =>
        refine .pure (.ofHeld trivial trivial rfl ?_)
        simpa [Node.held] using ⟨hbase, hlower index rfl⟩

omit h in
theorem withCollate (g : Level) (collate : Collate) :
    Gives (WellFormed .expression) (g.withCollate e collate) := by
  unfold Level.withCollate
  cases hcollated : e.collated? collate with
  | none => exact .throw
  | some e' =>
      unfold Expr.collated? at hcollated
      split at hcollated
      · cases hcollated
        exact .pure (leaf trivial trivial rfl)
      · cases hcollated
        exact .pure (leaf trivial trivial rfl)
      · cases hcollated

theorem suffix (he : WellFormed .expression e) :
    Gives (fun t => WellFormed .expression t.value) (g.suffix e) := by
  refine .branch (h.subscript he).again ?_
  refine .branch ?_ ?_
  · refine .after fun _ => ?_
    refine .after fun _ => ?_
    refine .branch ?_ .refuseFor
    refine h.unit.bind fun zone hzone => ?_
    refine .pure (.ofHeld trivial trivial rfl ?_)
    simpa [Node.held] using ⟨he, hzone⟩
  · refine .branch ?_ (.pure he)
    exact .after fun collate => (withCollate g collate).again

theorem operand : Gives (WellFormed .expression) g.operand := by
  refine .after fun _ => ?_
  refine .branch ?_ ?_
  · have hnumber : ∀ value, WellFormed .expression (g.number value) :=
      fun _ => leaf trivial trivial rfl
    refine .branch (.after fun _ => .pure (hnumber _)) ?_
    refine (h .operand).bind fun e he => ?_
    refine .pure (.ofHeld trivial trivial rfl ?_)
    simpa [Node.held, Production.slot] using he
  · refine h.unit.bind fun e he => ?_
    exact .loop he fun e he => h.suffix he

end Level.FormsBelow

end SqlTree

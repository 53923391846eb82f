import SqlTree.Grammar.Unit
import SqlTree.Proofs.Confinement.Rules

/-!
# Expressions keep to their dialect

Every rule for expressions gives a tree whose constructs the dialect has, provided the productions
one nesting level further down do.
-/

namespace SqlTree

open SqlTree.Parser

/-- A level that reads a dialect: its productions one nesting level further down keep to the
dialect. -/
structure Level.Confined (d : Dialect) (g : Level) : Prop where
  levels : (Likeness.diagonal g.settings).Levels g g
  dialect : g.tag.dialect = some d
  below : ∀ production, d.Gives d.Confines (g.below production)

namespace Level.Confined

open Dialect (Gives Keeps Confines)

variable {d : Dialect} {g : Level} {left e : Expr} (h : g.Confined d)

include h

/-! ## Nodes that have no construct of their own -/

omit h in
theorem binary {op : BinaryOp} {right : Expr} (hop : d.Has op.specialities)
    (hleft : d.Confines left) (hright : d.Confines right) : d.Confines (g.binary left op right) :=
  Dialect.confines_node.2 ⟨hop, by simpa [Node.held] using ⟨hleft, hright⟩⟩

omit h in
/-- A node without children. -/
theorem leaf {n : Node Expr} (hown : n.specialities = []) (hheld : n.held = []) :
    d.Confines (.node n) :=
  .plain hown (hheld ▸ AllOf.nil)

omit h in
theorem subquery {query : Expr} (hquery : d.Confines query) : d.Confines (g.subquery query) :=
  .plain rfl (by simpa [Node.held] using hquery)

/-! ## Operators -/

omit h in
/-- An operator that is no construct of some dialects only. -/
theorem chain {operator? : TokenType → Option BinaryOp} {operand : Parser Expr}
    (hoperator : ∀ type op, operator? type = some op → op.specialities = [])
    (hoperand : d.Gives d.Confines operand) : d.Gives d.Confines (g.chain operator? operand) := by
  refine hoperand.bind fun first hfirst => ?_
  refine .loop hfirst fun left hleft => ?_
  refine .after Gives.peekType.keeps fun next => ?_
  cases hop : next.bind operator? with
  | none => exact .pure hleft
  | some op =>
      obtain ⟨type, -, htype⟩ := Option.bind_eq_some_iff.1 hop
      have hown : d.Has op.specialities := hoperator type op htype ▸ AllOf.nil
      refine .after .take fun _ => ?_
      refine hoperand.bind fun right hright => ?_
      exact .pure (binary hown hleft hright)

theorem multiplicative : d.Gives d.Confines g.multiplicative := by
  refine chain (fun type op hop => ?_) (h.below .operand)
  cases type <;> cases hop <;> rfl

theorem additive : d.Gives d.Confines g.additive := by
  refine chain (fun type op hop => ?_) h.multiplicative
  cases type <;> cases hop <;> rfl

omit h in
theorem commaList {α : Type} {V : α → Prop} {construct : Construct} {item : Parser α}
    (hitem : d.Gives V item) : d.Gives (fun as => ∀ a ∈ as, V a) (g.commaList construct item) :=
  .commaList hitem

/-! ## Predicates -/

theorem truthOrNull : d.Gives d.Confines g.truthOrNull := by
  have hvalue : Parser.Gives d.Confines g.truthOrNull := by
    refine .branch (.pure (leaf rfl rfl)) ?_
    refine .branch (.pure (leaf rfl rfl)) ?_
    exact .branch (.pure (leaf rfl rfl)) .refuseFor
  exact .of_keeps (.ofKept h.levels.truthOrNull) hvalue

theorem isPredicate (hleft : d.Confines left) : d.Gives d.Confines (g.isPredicate left) := by
  refine .after .accept fun negated => ?_
  refine h.truthOrNull.bind fun right hright => ?_
  refine .pure ?_
  refine binary ?_ hleft hright
  cases negated with
  | true => exact AllOf.nil
  | false => exact AllOf.nil

theorem targets :
    d.Gives (fun targets => d.ConfinesAll targets.1 ∧ ∀ query ∈ targets.2, d.Confines query)
      g.targets := by
  refine .branch .test ?_ ?_
  · refine (h.below .query).bind fun query hquery => ?_
    refine .pure ⟨AllOf.nil, fun e he => ?_⟩
    cases he
    exact subquery hquery
  · refine (commaList h.additive).bind fun list hlist => ?_
    exact .pure ⟨hlist, forall_mem_none⟩

theorem membership (hleft : d.Confines left) (negated : Bool) :
    d.Gives d.Confines (g.membership left negated) := by
  refine .after .expect fun _ => ?_
  refine h.targets.bind fun (list, query) ⟨hlist, hquery⟩ => ?_
  refine .after .expect fun _ => ?_
  refine .pure (.plain rfl ?_)
  simpa [Node.held] using ⟨hleft, hlist, hquery⟩

theorem between (hleft : d.Confines left) (negated : Bool) :
    d.Gives d.Confines (g.between left negated) := by
  refine h.additive.bind fun low hlow => ?_
  refine .after .expect fun _ => ?_
  refine h.additive.bind fun high hhigh => ?_
  refine .pure (.plain rfl ?_)
  simpa [Node.held] using ⟨hleft, hlow, hhigh⟩

theorem regex (hleft : d.Confines left) (ignoresCase negated : Bool) :
    d.Gives d.Confines (g.regex left ignoresCase negated) := by
  refine h.additive.bind fun pattern hpattern => ?_
  refine .pure (.plain rfl ?_)
  simpa [Node.held] using ⟨hleft, hpattern⟩

theorem wordPredicate (hleft : d.Confines left) :
    d.Gives (fun t => d.Confines t.value) (g.wordPredicate left) := by
  have hlike : ∀ op : BinaryOp, d.Has op.specialities →
      d.Gives (fun t : Turn Expr => d.Confines t.value)
        (do return .again (g.binary left op (← g.additive))) :=
    fun op hop => h.additive.bind fun right hright => .pure (binary hop hleft hright)
  refine .after (.ofKept (h.levels.predicateNot)) fun negated => ?_
  refine .acceptThen (fun _ => ?_) ?_
  · exact hlike _ (by cases negated <;> exact AllOf.nil)
  refine .acceptThen (fun hissues => ?_) ?_
  · have hilike : d.Has [.ilike] := by simpa using Speciality.of_issues hissues rfl
    exact hlike _ (by cases negated <;> exact hilike)
  refine .branch .accept (h.between hleft negated).last ?_
  refine .branch .accept (h.membership hleft negated).last ?_
  exact .branch .accept (h.regex hleft false negated).last (.pure hleft)

theorem predicate (hleft : d.Confines left) :
    d.Gives (fun t => d.Confines t.value) (g.predicate left) := by
  refine .after Gives.peekType.keeps fun next => ?_
  cases hop : next.bind TokenType.comparison? with
  | some op =>
      obtain ⟨type, -, htype⟩ := Option.bind_eq_some_iff.1 hop
      have hnone : op.specialities = [] := by
        cases type <;> cases htype <;> rfl
      have hown : d.Has op.specialities := hnone ▸ AllOf.nil
      refine .after .take fun _ => ?_
      refine h.additive.bind fun right hright => ?_
      exact .pure (binary hown hleft hright)
  | none =>
      refine .branch .accept (h.isPredicate hleft).last ?_
      cases next.bind TokenType.regexSign? with
      | some sign => exact .after .take fun _ => (h.regex hleft sign.1 sign.2).last
      | none => exact h.wordPredicate hleft

theorem relational : d.Gives d.Confines g.relational := by
  refine h.additive.bind fun _ hleft => ?_
  exact .loop hleft fun _ hleft => h.predicate hleft

theorem negation : d.Gives d.Confines g.negation := by
  refine .branch .accept ?_ h.relational
  refine (h.below .negation).bind fun e he => ?_
  refine .pure (.plain rfl ?_)
  simpa [Node.held] using he

theorem expression : d.Gives d.Confines g.expression := by
  refine chain ?_ (chain ?_ (chain ?_ h.negation))
  · intro type op hop
    unfold TokenType.disjunction? at hop
    split at hop <;> cases hop
    rfl
  · intro type op hop
    unfold TokenType.exclusion? at hop
    split at hop <;> cases hop
    rfl
  · intro type op hop
    unfold TokenType.conjunction? at hop
    split at hop <;> cases hop
    rfl

/-! ## Calls -/

theorem orderItem : d.Gives (fun item => d.ConfinesAll item.held) g.orderItem := by
  refine h.expression.bind fun e he => ?_
  refine .after (.ofKept h.levels.sortOrder) fun _ => ?_
  refine .after (.ofKept h.levels.nullsOrder) fun _ => ?_
  refine .pure ?_
  simpa [OrderItem.held] using he

theorem orderBy : d.Gives (fun o => d.Has o.specialities ∧ d.ConfinesAll o.held) g.orderBy := by
  refine Gives.accept.bind fun siblings hsiblings => ?_
  refine .after .expect fun _ => ?_
  refine (commaList h.orderItem).bind fun items hitems => .pure ⟨?_, ?_⟩
  · exact Dialect.has_ite.2 fun htaken => Speciality.of_issues (hsiblings htaken) rfl
  · exact AllOf.flatMap_iff.2 hitems

theorem partitionBy : d.Gives (fun p => d.ConfinesAll p.held) g.partitionBy := by
  refine .after .expect fun _ => ?_
  exact (commaList h.expression).bind fun _ hitems => .pure hitems

theorem window : d.Gives (fun w => d.Has w.specialities ∧ d.ConfinesAll w.held) g.window := by
  refine .after .expect fun _ => ?_
  refine (Gives.afterKeyword fun _ => h.partitionBy).bind fun partition hpartition => ?_
  refine (Gives.afterKeyword fun _ => h.orderBy).bind fun order horder => ?_
  obtain ⟨hown, hheld⟩ := forall₂_and.1 horder
  refine .after .expect fun _ => .pure ⟨?_, ?_⟩
  · simpa [Window.specialities] using hown
  · simpa [Window.held] using ⟨hpartition, hheld⟩

theorem withinGroup :
    d.Gives (fun within? => ∀ w ∈ within?, d.Has w.specialities ∧ d.ConfinesAll w.held)
      g.withinGroup := by
  refine .branch .test ?_ .pureNone
  refine .after .take fun _ => ?_
  refine .after .take fun _ => ?_
  refine .after .expect fun _ => ?_
  refine .after .expect fun _ => ?_
  refine h.orderBy.bind fun order horder => ?_
  exact .after .expect fun _ => .pureSome horder

omit h in
theorem listBefore {closing : TokenType} {items : Parser (List Expr)}
    (hitems : d.Gives d.ConfinesAll items) :
    d.Gives d.ConfinesAll (Level.listBefore closing items) :=
  .branch .isNext (.pure AllOf.nil) hitems

theorem call (path : NamePath) :
    d.Gives (fun c => d.Has c.specialities ∧ d.ConfinesAll c.held) (g.call path) := by
  refine .after .expect fun _ => ?_
  refine .after .accept fun distinct => ?_
  refine (listBefore (commaList h.expression)).bind fun arguments harguments => ?_
  refine .after .expect fun _ => ?_
  refine h.withinGroup.bind fun within hwithin => ?_
  refine (Gives.afterKeyword fun _ => h.window).bind fun window hwindow => .pure ?_
  obtain ⟨hwithinOwn, hwithinHeld⟩ := forall₂_and.1 hwithin
  obtain ⟨hwindowOwn, hwindowHeld⟩ := forall₂_and.1 hwindow
  refine ⟨?_, ?_⟩
  · simpa [Call.specialities] using ⟨hwithinOwn, hwindowOwn⟩
  · simpa [Call.held] using ⟨harguments, hwithinHeld, hwindowHeld⟩

/-! ## Units -/

omit h in
theorem column (path : NamePath) : d.Gives d.Confines (g.column path) := by
  obtain ⟨last, before⟩ := path
  match before with
  | [] => exact .pure (leaf rfl rfl)
  | [_] => exact .pure (leaf rfl rfl)
  | [_, _] => exact .pure (leaf rfl rfl)
  | _ :: _ :: _ :: _ => exact .refuse

theorem named : d.Gives d.Confines g.named := by
  refine .after (.ofKept h.levels.starPath) fun (path, isStar) => ?_
  cases isStar with
  | true => exact .pure (leaf rfl rfl)
  | false =>
      refine .branch .isNext ?_ (column path)
      refine (h.call path).bind fun function hfunction => ?_
      exact .pure (Dialect.confines_node.2 hfunction)

theorem caseItemsFrom {n : Nat} {done : List (CaseItem Expr)}
    (hdone : ∀ item ∈ done, d.ConfinesAll item.held) :
    d.Gives (fun items => ∀ item ∈ items, d.ConfinesAll item.held) (g.caseItemsFrom n done) := by
  have hend : d.Gives (fun items => ∀ item ∈ items, d.ConfinesAll item.held)
      (pure done.reverse : Parser (List (CaseItem Expr))) :=
    .pure fun item hitem => hdone item (List.mem_reverse.1 hitem)
  induction n generalizing done with
  | zero =>
      unfold Level.caseItemsFrom
      refine .branch .accept ?_ hend
      refine h.expression.bind fun _ _ => ?_
      refine .after .expect fun _ => ?_
      exact h.expression.bind fun _ _ => .throw
  | succ n ih =>
      unfold Level.caseItemsFrom
      refine .branch .accept ?_ hend
      refine h.expression.bind fun condition hcondition => ?_
      refine .after .expect fun _ => ?_
      refine h.expression.bind fun result hresult => ?_
      have hnext : ∀ item ∈ (⟨condition, result, g.tag⟩ :: done : List (CaseItem Expr)),
          d.ConfinesAll item.held := by
        refine List.forall_mem_cons.2 ⟨?_, hdone⟩
        simpa [CaseItem.held] using ⟨hcondition, hresult⟩
      exact ih hnext (.pure fun item hitem => hnext item (List.mem_reverse.1 hitem))

theorem caseOf : d.Gives d.Confines g.caseOf := by
  have hoperand : d.Gives (fun e? => ∀ e ∈ e?, d.Confines e) g.caseOperand :=
    .branch .test .pureNone h.expression.mapSome
  refine hoperand.bind fun operand hoperand => ?_
  refine (h.caseItemsFrom (List.forall_mem_nil _)).bind fun items hitems => ?_
  cases items.isEmpty with
  | true => exact .refuseFor
  | false =>
      refine (Gives.afterKeyword fun _ => h.expression).bind fun otherwise hotherwise => ?_
      refine .after .expect fun _ => ?_
      refine .pure (.plain rfl ?_)
      simpa [Node.held] using ⟨hoperand, hitems, hotherwise⟩

theorem parenthesizedQuery : d.Gives d.Confines g.parenthesizedQuery := by
  refine .after .expect fun _ => ?_
  refine (h.below .query).bind fun _ hquery => ?_
  refine .after .expect fun _ => ?_
  exact .pure (subquery hquery)

theorem quantified : d.Gives d.Confines g.quantified := by
  refine .branch .test h.parenthesizedQuery ?_
  refine .after .expect fun _ => ?_
  refine h.expression.bind fun e he => ?_
  exact .after .expect fun _ => .pure he

theorem parenthesized : d.Gives d.Confines g.parenthesized := by
  refine .after .expect fun _ => ?_
  refine .branch .test ?_ ?_
  · refine (h.below .query).bind fun query hquery => ?_
    refine .after .expect fun _ => ?_
    exact .pure (subquery hquery)
  · refine h.expression.bind fun e he => ?_
    exact .after .expect fun _ => .pure he

omit h in
/-- A node with a construct of its own whose token the dialect issues. -/
theorem own {n : Node Expr} {s : Speciality} {type : TokenType} (hissues : d.issues type = true)
    (hsign : s.sign? = some type) (hown : n.specialities = [s]) (hheld : d.ConfinesAll n.held) :
    d.Confines (.node n) := by
  refine Dialect.confines_node.2 ⟨?_, hheld⟩
  simpa [hown] using Speciality.of_issues hissues hsign

theorem array (hissues : d.issues (.keyword .ARRAY) = true) : d.Gives d.Confines g.array := by
  refine .after .expect fun _ => ?_
  refine (listBefore (commaList h.expression)).bind fun elements hall => ?_
  refine .after .expect fun _ => ?_
  exact .pure (own hissues rfl rfl hall)

theorem interval (hissues : d.issues (.keyword .INTERVAL) = true) :
    d.Gives d.Confines g.interval := by
  refine (h.below .intervalValue).bind fun value hvalue => ?_
  refine .after (.ofKept h.levels.timeUnit) fun _ => ?_
  refine .pure (own hissues rfl rfl ?_)
  simpa [Node.held] using hvalue

theorem keywordUnit {word : Keyword} (hissues : d.issues (.keyword word) = true) :
    d.Gives d.Confines (g.keywordUnit word) := by
  -- that the dialect issues the keyword matters for `INTERVAL` and `ARRAY` only
  cases word with
  | NULL =>
      refine .after .take fun _ => ?_
      exact .pure (leaf rfl rfl)
  | TRUE =>
      refine .after .take fun _ => ?_
      exact .pure (leaf rfl rfl)
  | FALSE =>
      refine .after .take fun _ => ?_
      exact .pure (leaf rfl rfl)
  | NOT =>
      refine .after .take fun _ => ?_
      refine h.negation.bind fun e he => ?_
      refine .pure (.plain rfl ?_)
      simpa [Node.held] using he
  | CASE => exact .after .take fun _ => h.caseOf
  | EXISTS =>
      refine .after .take fun _ => ?_
      refine h.parenthesizedQuery.bind fun query hquery => ?_
      refine .pure (.plain rfl ?_)
      simpa [Node.held] using hquery
  | INTERVAL => exact .after .take fun _ => h.interval hissues
  | ANY =>
      refine .branch .test ?_ .refuseFound
      refine .after .take fun _ => ?_
      refine h.quantified.bind fun e he => ?_
      exact .pure (.plain rfl (by simpa [Node.held] using he))
  | ALL =>
      refine .branch .test ?_ .refuseFound
      refine .after .take fun _ => ?_
      refine h.quantified.bind fun e he => ?_
      exact .pure (.plain rfl (by simpa [Node.held] using he))
  | ARRAY =>
      refine .branch .test ?_ .refuseFound
      exact .after .take fun _ => h.array hissues
  | _ => exact .branch .test h.named .refuseFound

theorem variableName : d.Gives d.Confines g.variableName := by
  refine .after .take fun first => ?_
  refine .after (.ofKept h.levels.sigil) fun sigil => ?_
  refine .branch .test ?_ .refuseFor
  refine .after .take fun _ => ?_
  exact .pure (leaf rfl rfl)

theorem unit : d.Gives d.Confines g.unit := by
  refine Gives.peekType.bind fun next hnext => ?_
  cases next with
  | none => exact .refuseFor
  | some type =>
      cases type with
      | lparen => exact h.parenthesized
      | number =>
          refine .after .take fun _ => ?_
          exact .pure (leaf rfl rfl)
      | string =>
          refine .after .take fun _ => ?_
          exact .pure (leaf rfl rfl)
      | nationalString =>
          refine .after .take fun _ => ?_
          refine .pure (own (hnext _ rfl) rfl rfl ?_)
          exact AllOf.nil
      | star =>
          refine .after .take fun _ => ?_
          exact .pure (leaf rfl rfl)
      | atSign => exact h.variableName
      | colon => exact h.variableName
      | identifier => exact h.named
      | quotedIdentifier => exact h.named
      | keyword word => exact h.keywordUnit (hnext _ rfl)
      | _ => exact .refuseFound

/-! ## Operands -/

theorem bound (behind : TokenType) :
    d.Gives (fun e? => ∀ e ∈ e?, d.Confines e) (g.bound behind) :=
  .branch .isNext .pureNone h.additive.mapSome

theorem subscript {base : Expr} (hbase : d.Confines base) :
    d.Gives d.Confines (g.subscript base) := by
  refine (h.bound .colon).bind fun lower hlower => ?_
  refine .branch .accept ?_ ?_
  · refine (h.bound .rbracket).bind fun upper hupper => ?_
    refine .after .expect fun _ => ?_
    refine .pure (.plain rfl ?_)
    simpa [Node.held] using ⟨hbase, hlower, hupper⟩
  · refine .after .expect fun _ => ?_
    cases lower with
    | none => exact .refuse
    | some index =>
        refine .pure (.plain rfl ?_)
        simpa [Node.held] using ⟨hbase, hlower index rfl⟩

omit h in
theorem withCollate (collate : Collate) : d.Gives d.Confines (g.withCollate e collate) := by
  unfold Level.withCollate
  cases hcollated : e.collated? collate with
  | none => exact .throw
  | some e' =>
      unfold Expr.collated? at hcollated
      split at hcollated
      · cases hcollated
        exact .pure (leaf rfl rfl)
      · cases hcollated
        exact .pure (leaf rfl rfl)
      · cases hcollated

theorem suffix (he : d.Confines e) : d.Gives (fun t => d.Confines t.value) (g.suffix e) := by
  refine .branch .accept (h.subscript he).again ?_
  refine .branch .test ?_ ?_
  · refine .after .take fun _ => ?_
    refine .after .take fun _ => ?_
    refine .branch .acceptWord ?_ .refuseFor
    refine h.unit.bind fun zone hzone => ?_
    refine .pure (.plain rfl ?_)
    simpa [Node.held] using ⟨he, hzone⟩
  · refine .branch .accept ?_ (.pure he)
    exact .after (.ofKept h.levels.collate) fun collate => (withCollate collate).again

theorem operand : d.Gives d.Confines g.operand := by
  refine .after (.ofKept h.levels.plusSigns) fun _ => ?_
  refine .branch .accept ?_ ?_
  · have hnumber : ∀ value, d.Confines (g.number value) := fun _ => leaf rfl rfl
    refine .branch .isNext ?_ ?_
    · exact .after .take fun _ => .pure (hnumber _)
    refine (h.below .operand).bind fun e he => ?_
    refine .pure (.plain rfl ?_)
    simpa [Node.held] using he
  · refine h.unit.bind fun e he => ?_
    exact .loop he fun e he => h.suffix he

end Level.Confined

end SqlTree

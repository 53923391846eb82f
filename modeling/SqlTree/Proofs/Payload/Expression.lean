import SqlTree.Proofs.Payload.Collation

/-!
# Expressions keep their payload

Every rule for names and expressions keeps the payload that it passes in the fields of what it
gives, provided the productions one nesting level further down do.
-/

namespace SqlTree

open SqlTree.Parser

def NamePath.fields (path : NamePath) : Multiset Field :=
  each Identifier.fields path.parts

namespace NamePath

theorem fields_mk (last : Identifier) (before : List Identifier) :
    (⟨last, before⟩ : NamePath).fields = each Identifier.fields before + last.fields := by
  simp [NamePath.fields, parts, owner]

theorem fields_push (path : NamePath) (name : Identifier) :
    (path.push name).fields = path.fields + name.fields := by
  simp [NamePath.fields, parts, owner, push, add_assoc]

/-- The owner of a name and its last part have the fields of the name. -/
theorem fields_owner_last (path : NamePath) :
    each Identifier.fields path.owner + path.last.fields = path.fields := by
  simp [NamePath.fields, parts]

end NamePath

namespace Level

variable {g : Level} {R : Multiset Field} {left e : Expr}

/-! ## Names -/

theorem fields_identifierOf (token : Token) :
    (g.identifierOf token).fields = {.text token.text} := by
  unfold identifierOf
  split <;> simp [Identifier.fields, Identifier.escaped]

theorem keeps_namePart : Keeps Identifier.fields g.namePart := by
  refine .test ?_ .refuseFor
  refine .takeText fun token => ?_
  refine .pure ?_
  rw [fields_identifierOf, zero_add]

theorem keeps_namePath : Keeps NamePath.fields g.namePath := by
  refine .bind keeps_namePart fun first => ?_
  refine .loop ?_ fun path => ?_
  · simp [NamePath.fields_mk]
  · refine .branch (skips_accept rfl) ?_ (.pure rfl)
    refine .after keeps_namePart fun name => ?_
    exact .pure (path.fields_push name)

theorem keeps_aliasName : Keeps (ifAny Identifier.fields) g.aliasName := by
  have htake : Keeps (ifAny Identifier.fields) (do return some (g.identifierOf (← take))) := by
    refine .takeText fun token => ?_
    refine .pure ?_
    rw [ifAny_some, fields_identifierOf, zero_add]
  refine .branch skips_acceptKeyword ?_ ?_
  · exact .test htake .refuseFor
  · exact .test htake (.pure rfl)

theorem keeps_collate : Keeps Collate.fields g.collate := by
  refine .test ?_ .refuseFor
  refine .takeText fun _ => ?_
  exact .pure (zero_add _).symm

theorem skips_sigil {type : TokenType} : Skips (sigil type) := by
  unfold sigil
  split
  case isTrue => exact .branch (skips_accept rfl) (.pure rfl) (.pure rfl)
  case isFalse => exact .pure rfl

theorem keeps_variableName {type : TokenType} (hplain : type.isPayload = false) :
    Adds (fun c => c.nextType = some type) 0 g.variableName Expr.fields := by
  refine .takeNext hplain fun first => ?_
  refine .skip skips_sigil fun sign => .test ?_ .refuseFor
  refine .takeText fun token => ?_
  refine .pure ?_
  simp [Node.fields]

/-! ## Operators -/

theorem keeps_chain {operator? : TokenType → Option BinaryOp} {operand : Parser Expr}
    (hoperator : ∀ type op, operator? type = some op → type.isPayload = false)
    (hoperand : Keeps Expr.fields operand) : Keeps Expr.fields (g.chain operator? operand) := by
  refine .bind hoperand fun first => ?_
  refine .loop rfl fun left => ?_
  refine .peekType fun next => ?_
  cases hop : next.bind operator? with
  | none => exact .pure rfl
  | some op =>
      obtain ⟨type, rfl, htype⟩ := Option.bind_eq_some_iff.1 hop
      refine .takeNext (hoperator type op htype) fun _ => ?_
      refine .after hoperand fun right => ?_
      refine .pure ?_
      simp [Turn.value, Level.binary, Node.fields]

end Level

/-- What is read one nesting level further down keeps its payload, and an operand gives a name
with a collation on it only where that collation was taken last. -/
structure Level.KeepsBelow (g : Level) : Prop where
  keeps : ∀ production, Keeps Expr.fields (g.below production)
  closes : Closes (g.below .operand)

namespace Level.KeepsBelow

variable {g : Level} {R : Multiset Field} {left e : Expr} (h : g.KeepsBelow)

include h

theorem additive : Keeps Expr.fields g.additive := by
  refine keeps_chain ?_ (keeps_chain ?_ (h.keeps .operand))
  · intro type op hop
    cases type <;> cases hop <;> rfl
  · intro type op hop
    cases type <;> cases hop <;> rfl

/-! ## Predicates -/

omit h in
theorem truthOrNull : Keeps Expr.fields g.truthOrNull := by
  have hbool : ∀ value, (g.bool value).fields = 0 := fun _ => by simp [Level.bool, Node.fields]
  have hnull : g.null.fields = 0 := by simp [Level.null, Node.fields]
  refine .branch skips_acceptKeyword (.pure hnull) ?_
  refine .branch skips_acceptKeyword (.pure (hbool _)) ?_
  exact .branch skips_acceptKeyword (.pure (hbool _)) .refuseFor

omit h in
theorem isPredicate : Grows left.fields (g.isPredicate left) Expr.fields := by
  refine .skip skips_acceptKeyword fun negated => ?_
  refine .after truthOrNull fun right => ?_
  refine .pure ?_
  simp [Level.binary, Node.fields]

def targetFields (targets : List Expr × Option Expr) : Multiset Field :=
  each Expr.fields targets.1 + ifAny Expr.fields targets.2

theorem targets : Keeps targetFields g.targets := by
  refine .test ?_ ?_
  · refine .bind (h.keeps .query) fun query => ?_
    exact .pure (by simp [targetFields, Level.subquery, Node.fields])
  · refine .bind (keeps_commaList h.additive) fun list => ?_
    exact .pure (by simp [targetFields])

theorem membership {negated : Bool} :
    Grows left.fields (g.membership left negated) Expr.fields := by
  refine .skip (skips_expect rfl) fun _ => ?_
  refine .after h.targets fun (list, query) => ?_
  refine .skip (skips_expect rfl) fun _ => ?_
  refine .pure ?_
  simp [targetFields, Node.fields, add_assoc]

theorem between {negated : Bool} : Grows left.fields (g.between left negated) Expr.fields := by
  refine .after h.additive fun low => ?_
  refine .skip skips_expectKeyword fun _ => ?_
  exact .after h.additive fun high => .pure (by simp [Node.fields])

theorem regex {ignoresCase negated : Bool} :
    Grows left.fields (g.regex left ignoresCase negated) Expr.fields := by
  refine .after h.additive fun pattern => ?_
  exact .pure (by simp [Node.fields])

omit h in
/-- A `NOT` before a predicate is no payload. -/
theorem predicateNot : Skips Level.predicateNot := by
  refine .testThen ?_ (.pure rfl)
  refine .takePlain (fun c type hc hnext => ?_) fun _ => .pure rfl
  have hnot := eq_of_beq (Bool.and_eq_true_iff.1 hc.2).1
  rw [hnext] at hnot
  cases hnot
  rfl

/-- An operation with a sum on its right has the fields of its operands. -/
theorem again (op : BinaryOp) :
    Grows left.fields (do return Turn.again (g.binary left op (← g.additive)))
      fun t => t.value.fields := by
  refine .after h.additive fun right => ?_
  exact .pure (by simp [Turn.value, Level.binary, Node.fields])

theorem wordPredicate :
    Grows left.fields (g.wordPredicate left) fun t => t.value.fields := by
  refine .skip predicateNot fun negated => ?_
  refine .branch skips_acceptKeyword (h.again _) ?_
  refine .branch skips_acceptKeyword (h.again _) ?_
  refine .branch skips_acceptKeyword h.between.last ?_
  refine .branch skips_acceptKeyword h.membership.last ?_
  exact .branch skips_acceptKeyword h.regex.last (.pure rfl)

theorem predicate : Grows left.fields (g.predicate left) fun t => t.value.fields := by
  refine .peekType fun next => ?_
  cases hop : next.bind TokenType.comparison? with
  | some op =>
      obtain ⟨type, rfl, htype⟩ := Option.bind_eq_some_iff.1 hop
      refine .takeNext ?_ fun _ => h.again op
      cases type <;> cases htype <;> rfl
  | none =>
      refine .acceptThen rfl isPredicate.last ?_
      cases hregex : next.bind TokenType.regexSign? with
      | some sign =>
          obtain ⟨type, rfl, htype⟩ := Option.bind_eq_some_iff.1 hregex
          refine .takeNext ?_ fun _ => h.regex.last
          cases type <;> cases htype <;> rfl
      | none => exact h.wordPredicate.anywhere

theorem relational : Keeps Expr.fields g.relational := by
  refine .bind h.additive fun _ => ?_
  exact .loop rfl fun _ => h.predicate

theorem negation : Keeps Expr.fields g.negation := by
  refine .branch skips_acceptKeyword ?_ h.relational
  exact .bind (h.keeps .negation) fun e => .pure (by simp [Node.fields])

theorem expression : Keeps Expr.fields g.expression := by
  refine keeps_chain ?_ (keeps_chain ?_ (keeps_chain ?_ h.negation))
  · intro type op hop
    unfold TokenType.disjunction? at hop
    split at hop <;> cases hop
    rfl
  · intro type op hop
    unfold TokenType.exclusion? at hop
    split at hop <;> cases hop
    rfl
  · intro type op hop
    unfold TokenType.conjunction? at hop
    split at hop <;> cases hop
    rfl

/-! ## Calls -/

omit h in
theorem nullsOrder : Skips Level.nullsOrder := by
  refine .branch skips_acceptWord ?_ (.pure rfl)
  refine .branch skips_acceptWord (.pure rfl) ?_
  exact .branch skips_acceptWord (.pure rfl) .refuseFor

omit h in
theorem sortOrder : Skips Level.sortOrder := by
  refine .branch skips_acceptKeyword (.pure rfl) ?_
  exact .branch skips_acceptKeyword (.pure rfl) (.pure rfl)

theorem orderItem : Keeps (OrderItem.fields Expr.fields) g.orderItem := by
  refine .bind h.expression fun _ => ?_
  refine .skip sortOrder fun _ => ?_
  exact .skip nullsOrder fun _ => .pure rfl

theorem orderBy : Keeps (OrderBy.fields Expr.fields) g.orderBy := by
  refine .skip skips_acceptKeyword fun _ => ?_
  refine .skip skips_expectKeyword fun _ => ?_
  exact .bind (keeps_commaList h.orderItem) fun _ => .pure rfl

theorem partitionBy : Keeps (PartitionBy.fields Expr.fields) g.partitionBy := by
  refine .skip skips_expectKeyword fun _ => ?_
  exact .bind (keeps_commaList h.expression) fun _ => .pure rfl

theorem window : Keeps (Window.fields Expr.fields) g.window := by
  refine .skip (skips_expect rfl) fun _ => ?_
  refine .bind (keeps_afterKeyword h.partitionBy) fun _ => ?_
  refine .after (keeps_afterKeyword h.orderBy) fun _ => ?_
  exact .skip (skips_expect rfl) fun _ => .pure rfl

theorem withinGroup : Keeps (ifAny (WithinGroup.fields Expr.fields)) g.withinGroup := by
  refine .testThen (.takeTwo (fun c first second tokens hc hahead => ?_) ?_) (.pure rfl)
  · have hstarts := hc.2
    simp only [Level.startsWithinGroup, hahead, Cursor.secondType, Bool.and_eq_true,
      beq_iff_eq] at hstarts
    refine ⟨Token.not_isPayload_of_isThisWord hstarts.1, ?_⟩
    have hgroup : second.type = .keyword .GROUP := Option.some.inj hstarts.2
    rw [hgroup]
    rfl
  · refine .skip (skips_expect rfl) fun _ => ?_
    refine .skip skips_expectKeyword fun _ => ?_
    refine .bind h.orderBy fun _ => ?_
    exact .skip (skips_expect rfl) fun _ => .pure rfl

omit h in
theorem listBefore {α : Type} {F : α → Multiset Field} {closing : TokenType}
    {items : Parser (List α)} (hitems : Keeps (each F) items) :
    Keeps (each F) (Level.listBefore closing items) :=
  .test (.pure rfl) hitems

theorem call (R : Multiset Field) (path : NamePath) :
    Grows (R + path.fields) (g.call path) fun c => R + c.fields Expr.fields := by
  refine .skip (skips_expect rfl) fun _ => ?_
  refine .skip skips_acceptKeyword fun _ => ?_
  refine .after (listBefore (keeps_commaList h.expression)) fun _ => ?_
  refine .skip (skips_expect rfl) fun _ => ?_
  refine .after h.withinGroup fun _ => ?_
  refine .after (keeps_afterKeyword h.window) fun _ => ?_
  refine .pure ?_
  simp [Call.fields, ← path.fields_owner_last, add_assoc]

/-! ## Units -/

omit h in
theorem starPath : Keeps (fun r => r.1.fields) g.starPath := by
  refine .bind keeps_namePart fun first => ?_
  refine .loop ?_ fun (path, isStar) => ?_
  · simp [NamePath.fields_mk]
  · refine .branch (skips_accept rfl) ?_ (.pure rfl)
    refine .branch (skips_accept rfl) (.pure rfl) ?_
    refine .after keeps_namePart fun name => ?_
    exact .pure (path.fields_push name)

omit h in
theorem column (path : NamePath) : Grows path.fields (g.column path) Expr.fields := by
  obtain ⟨last, before⟩ := path
  match before with
  | [] => exact .pure (by simp [Node.fields, NamePath.fields_mk])
  | [_] => exact .pure (by simp [Node.fields, NamePath.fields_mk])
  | [_, _] => exact .pure (by simp [Node.fields, NamePath.fields_mk, add_comm])
  | _ :: _ :: _ :: _ => exact .refuse

theorem named : Keeps Expr.fields g.named := by
  refine .bind starPath fun (path, isStar) => ?_
  cases isStar with
  | true => exact .pure (by simp [Node.fields, NamePath.fields])
  | false =>
      refine .test ?_ (column path)
      refine .bind (.ofEq (h.call 0 path) (zero_add _)) fun function => ?_
      refine .pure ?_
      simp [Node.fields]

theorem caseItemsFrom (n : Nat) (done : List (CaseItem Expr)) :
    Grows (each (CaseItem.fields Expr.fields) done) (g.caseItemsFrom n done)
      (each (CaseItem.fields Expr.fields)) := by
  induction n generalizing done with
  | zero =>
      unfold Level.caseItemsFrom
      refine .branch skips_acceptKeyword ?_ (.pure each_reverse)
      refine .after h.expression fun _ => ?_
      refine .skip skips_expectKeyword fun _ => ?_
      exact .after h.expression fun _ => .throw
  | succ n ih =>
      unfold Level.caseItemsFrom
      refine .branch skips_acceptKeyword ?_ (.pure each_reverse)
      refine .after h.expression fun condition => ?_
      refine .skip skips_expectKeyword fun _ => ?_
      refine .after h.expression fun result => ?_
      refine .ofEq (ih (⟨condition, result, g.tag⟩ :: done)) ?_
      simp only [each_cons, CaseItem.fields]
      abel

theorem caseOf : Keeps Expr.fields g.caseOf := by
  have hoperand : Keeps (ifAny Expr.fields) g.caseOperand :=
    .test (.pure rfl) (h.expression.map fun _ => rfl)
  refine .bind hoperand fun operand => ?_
  refine .after (h.caseItemsFrom g.settings.maxIterations []) fun items => ?_
  cases items with
  | nil => exact .refuseFor
  | cons item items =>
      refine .after (keeps_afterKeyword h.expression) fun otherwise => ?_
      exact .skip skips_expectKeyword fun _ => .pure (by simp [Node.fields])

theorem parenthesizedQuery : Keeps Expr.fields g.parenthesizedQuery := by
  refine .skip (skips_expect rfl) fun _ => ?_
  refine .bind (h.keeps .query) fun query => ?_
  exact .skip (skips_expect rfl) fun _ => .pure (by simp [Level.subquery, Node.fields])

theorem quantified : Keeps Expr.fields g.quantified := by
  refine .test h.parenthesizedQuery ?_
  refine .skip (skips_expect rfl) fun _ => ?_
  refine .bind h.expression fun _ => ?_
  exact .skip (skips_expect rfl) fun _ => .pure rfl

theorem parenthesized : Keeps Expr.fields g.parenthesized := by
  refine .skip (skips_expect rfl) fun _ => .test ?_ ?_
  · refine .bind (h.keeps .query) fun query => ?_
    refine .skip (skips_expect rfl) fun _ => ?_
    refine .pure ?_
    simp [Level.subquery, Node.fields]
  · refine .bind h.expression fun _ => ?_
    exact .skip (skips_expect rfl) fun _ => .pure rfl

theorem array : Keeps Expr.fields g.array := by
  refine .skip (skips_expect rfl) fun _ => ?_
  refine .bind (listBefore (keeps_commaList h.expression)) fun elements => ?_
  exact .skip (skips_expect rfl) fun _ => .pure (by simp [Node.fields])

omit h in
/-- The unit of an interval is no payload. -/
theorem timeUnit : Skips g.timeUnit := by
  refine .testThen ?_ (.pure rfl)
  refine .takePlain (fun c type hc hnext => ?_) fun _ => .pure rfl
  obtain ⟨token, tokens, hahead, rfl⟩ := Cursor.exists_ahead_of_nextType hnext
  have hunit := hc.2
  simp only [hahead, List.head?_cons, Option.map_some, Option.getD_some, Level.isTimeUnit,
    Bool.and_eq_true, beq_iff_eq] at hunit
  rw [hunit.1]
  rfl

theorem interval : Keeps Expr.fields g.interval := by
  refine .bind (h.keeps .intervalValue) fun value => ?_
  refine .skip timeUnit fun _ => ?_
  exact .pure (by simp [Node.fields])

theorem keywordUnit (word : Keyword) :
    Adds (fun c => c.nextType = some (.keyword word)) 0 (g.keywordUnit word) Expr.fields := by
  cases word with
  | NULL => exact .takeNext rfl fun _ => .pure (by simp [Level.null, Node.fields])
  | TRUE => exact .takeNext rfl fun _ => .pure (by simp [Level.bool, Node.fields])
  | FALSE => exact .takeNext rfl fun _ => .pure (by simp [Level.bool, Node.fields])
  | NOT =>
      refine .takeNext rfl fun _ => ?_
      refine .bind h.negation fun e => ?_
      refine .pure ?_
      simp [Node.fields]
  | CASE => exact .takeNext rfl fun _ => h.caseOf
  | EXISTS =>
      refine .takeNext rfl fun _ => ?_
      refine .bind h.parenthesizedQuery fun e => ?_
      refine .pure ?_
      simp [Node.fields]
  | INTERVAL => exact .takeNext rfl fun _ => h.interval
  | ANY =>
      refine .testThen (.mono ?_ fun _ => And.left) .refuseFound
      refine .takeNext rfl fun _ => ?_
      refine .bind h.quantified fun e => ?_
      exact .pure (by simp [Node.fields])
  | ALL =>
      refine .testThen (.mono ?_ fun _ => And.left) .refuseFound
      refine .takeNext rfl fun _ => ?_
      refine .bind h.quantified fun e => ?_
      exact .pure (by simp [Node.fields])
  | ARRAY =>
      refine .testThen (.mono ?_ fun _ => And.left) .refuseFound
      exact .takeNext rfl fun _ => h.array
  | _ => exact .test h.named .refuseFound

theorem unit : Keeps Expr.fields g.unit := by
  refine .peekType fun next => ?_
  cases next with
  | none => exact .refuseFor
  | some type =>
      cases type with
      | lparen => exact h.parenthesized.anywhere
      | number =>
          refine .bind (.take fun _ token _ _ => kept_number token) fun token => ?_
          exact .pure (by simp [Level.number, Node.fields])
      | string | nationalString =>
          exact .takeText fun token => .pure (by simp [Node.fields])
      | star => exact .takeNext rfl fun _ => .pure (by simp [Node.fields])
      | atSign => exact keeps_variableName rfl
      | colon => exact keeps_variableName rfl
      | identifier | quotedIdentifier => exact h.named.anywhere
      | keyword word => exact h.keywordUnit word
      | _ => exact .refuseFound

/-! ## Operands -/

theorem bound (behind : TokenType) : Keeps (ifAny Expr.fields) (g.bound behind) := by
  refine .test (.pure rfl) ?_
  exact h.additive.map fun _ => rfl

theorem subscript {base : Expr} : Grows base.fields (g.subscript base) Expr.fields := by
  refine .after (h.bound .colon) fun lower => ?_
  refine .branch (skips_accept rfl) ?_ ?_
  · refine .after (h.bound .rbracket) fun upper => ?_
    refine .skip (skips_expect rfl) fun _ => ?_
    refine .pure ?_
    simp [Node.fields]
  · refine .skip (skips_expect rfl) fun _ => ?_
    cases lower with
    | none => exact .refuse
    | some index => exact .pure (by simp [Node.fields])

omit h in
/-- A collation on a name that had none adds its field. -/
theorem withCollate {collate : Collate} (hplain : e.isCollated = false) :
    Grows (e.fields + collate.fields) (g.withCollate e collate) Expr.fields := by
  unfold Level.withCollate
  cases hcollated : e.collated? collate with
  | none => exact .throw
  | some e' =>
      unfold Expr.collated? at hcollated
      split at hcollated
      · cases hcollated
        refine .pure ?_
        simp_all [Expr.isCollated, Node.fields, Identifier.fields]
      · cases hcollated
        refine .pure ?_
        simp_all [Expr.isCollated, Node.fields]
      · cases hcollated

omit h in
/-- No second collation follows one that has been taken last. -/
theorem noCollate {f f' : Parser (Turn Expr)} {G : Turn Expr → Multiset Field} (hf : Grows R f' G) :
    Adds Cursor.EndsCollated R
      (acceptKeyword .COLLATE >>= fun b => if b = true then f else f') G := by
  intro base c t d hc ht
  have hnext : c.nextType ≠ some (.keyword .COLLATE) := fun hnext => hc.1.1 (hc.2.repeats hnext)
  rw [acceptKeyword, bind_of_ok (accept_of_not_next hnext)] at ht
  exact hf base c t d ⟨hc.1, trivial⟩ ht

theorem suffix : Adds e.EndsAt e.fields (g.suffix e) fun t => t.value.fields := by
  refine .acceptThen rfl h.subscript.again ?_
  refine .testThen ?_ ?_
  · refine .takeTwo (fun c first second tokens hc hahead => ?_) ?_
    · have hwords := hc.2
      simp only [hahead, Bool.and_eq_true] at hwords
      exact ⟨Token.not_isPayload_of_isThisWord hwords.1,
        Token.not_isPayload_of_isThisWord hwords.2⟩
    · refine .branch skips_acceptWord ?_ .refuseFor
      refine .after h.unit fun zone => ?_
      exact .pure (by simp [Turn.value, Node.fields])
  · cases hcollated : e.isCollated with
    | true => exact .mono (noCollate (.pure rfl)) fun c hc => hc.1 hcollated
    | false =>
        refine .branch skips_acceptKeyword.anywhere ?_ (.pure rfl)
        refine .after keeps_collate fun collate => ?_
        exact .bind (withCollate hcollated) fun _ => .pure rfl

omit h in
theorem plusSigns : Skips Level.plusSigns := by
  refine .loop rfl fun _ => ?_
  exact .branch (skips_accept rfl) (.pure rfl) (.pure rfl)

/-- Suffixes keep their payload, since the loop over them keeps track of where collations end. -/
theorem suffixes : Adds e.EndsAt e.fields (loop g.suffix e) Expr.fields := by
  intro base
  have hloop : Leads (fun c => Cursor.Account base e.fields c ∧ e.EndsAt c) (loop g.suffix e)
      fun e c => Cursor.Account base e.fields c ∧ e.EndsAt c :=
    .loop (I := fun e c => Cursor.Account base e.fields c ∧ e.EndsAt c)
      (fun e c t d hc ht => ⟨h.suffix base c t d hc ht, Closes.suffix e c t d hc.2 ht⟩) e
  exact hloop.mono (fun _ => id) fun _ _ => And.left

theorem operand : Keeps Expr.fields g.operand := by
  refine .skip plusSigns fun _ => ?_
  refine .branch (skips_accept rfl) ?_ ?_
  · refine .test ?_ ?_
    · refine .bind (.take fun _ token _ _ => kept_negated token) fun token => ?_
      exact .pure (by simp [Level.number, Node.fields])
    · refine .bind (h.keeps .operand) fun e => ?_
      exact .pure (by simp [Node.fields])
  · intro base c e d hc he
    obtain ⟨first, c', hfirst, hrest⟩ := bind_eq_ok.1 he
    exact h.suffixes base c' e d
      ⟨h.unit base c first c' hc hfirst, Closes.unit h.closes c first c' trivial hfirst⟩ hrest

end Level.KeepsBelow

end SqlTree

import SqlTree.Proofs.Rereading.Phrases

/-!
# Reading a written tree

Each kind of node is read back when its children are.  A child that stands where the grammar wants
an operand is read as one, and one that stands where a `NOT` may stand is read as what a `NOT`
gives.
-/

namespace SqlTree

open Text Lexer

variable {maxSteps : Nat} {tag tag' : Tag} {rest : List Char} {tokens : List Token} {e : Expr}

/-! ## Layers -/

namespace Layer

/-- The layer of a tree that may or may not be a `NOT`. -/
def ofRoot (negatable : Bool) : Layer :=
  if negatable then .negation else .operand

end Layer

/-- The operands of a logical operator may be a `NOT`. -/
def Chain.isLogical : Chain → Bool
  | .disjunction | .exclusion | .conjunction => true
  | .sum | .product => false

theorem Chain.isLogical_operator {c : Chain} {type : TokenType} {op : BinaryOp}
    (hop : c.operator? type = some op) : op.isLogical = c.isLogical := by
  cases c <;> simp only [operator?, TokenType.disjunction?, TokenType.exclusion?,
    TokenType.conjunction?, TokenType.additive?, TokenType.multiplicative?] at hop <;>
    split at hop <;> cases hop <;> rfl

theorem TokenType.isLogical_comparison {type : TokenType} {op : BinaryOp}
    (hop : type.comparison? = some op) : op.isLogical = false := by
  unfold comparison? at hop
  split at hop <;> cases hop <;> rfl

theorem TokenType.isLogical_likeness {type : TokenType} {plain negatedOp : BinaryOp}
    (hop : type.likeness? = some (plain, negatedOp)) (negated : Bool) :
    (if negated then negatedOp else plain).isLogical = false := by
  unfold likeness? at hop
  split at hop <;> cases hop <;> cases negated <;> rfl

namespace Derives

theorem ofUnit (h : Derives tag .unit tokens e) (negatable : Bool) :
    Derives tag (.ofRoot negatable) tokens e := by
  cases negatable with
  | false => exact .unsigned h
  | true => exact (Derives.unsigned h).sum.negation

theorem ofOperand (h : Derives tag .operand tokens e) (negatable : Bool) :
    Derives tag (.ofRoot negatable) tokens e := by
  cases negatable with
  | false => exact h
  | true => exact h.sum.negation

/-- What a chain wants as its operands. -/
theorem ofChain {c : Chain} (h : Derives tag (.ofRoot c.isLogical) tokens e) :
    Derives tag c.operand tokens e := by
  cases c with
  | disjunction =>
      have hconjunction : Derives tag (.chain .conjunction) tokens e := .first h
      exact .first hconjunction
  | exclusion => exact .first (c := .conjunction) h
  | conjunction => exact h
  | sum => exact .first (c := .product) h
  | product => exact h

/-- A chain is an expression. -/
theorem chain_expression {c : Chain} (h : Derives tag (.chain c) tokens e) :
    Derives tag (.chain .disjunction) tokens e := by
  cases c with
  | disjunction => exact h
  | exclusion => exact .first (c := .disjunction) h
  | conjunction =>
      have hexclusion : Derives tag (.chain .exclusion) tokens e := .first h
      exact .first hexclusion
  | sum => exact h.negation.expression
  | product =>
      have hsum : Derives tag (.chain .sum) tokens e := .first h
      exact hsum.negation.expression

theorem comparison_expression (h : Derives tag .comparison tokens e) :
    Derives tag (.chain .disjunction) tokens e := by
  have hpositive : Derives tag .negation tokens e := .positive (.unclosed h)
  exact hpositive.expression

theorem predicate_expression (h : Derives tag .predicate tokens e) :
    Derives tag (.chain .disjunction) tokens e := by
  have hpositive : Derives tag .negation tokens e := .positive h
  exact hpositive.expression

/-- Two operands with the tokens of an operator between them. -/
theorem signed {op : BinaryOp} {signs left right : List Token} {l r : Expr}
    (hsigned : op.SignedBy signs) (hleft : Derives tag (.ofRoot op.isLogical) left l)
    (hright : Derives tag (.ofRoot op.isLogical) right r) :
    Derives tag (.chain .disjunction) (left ++ (signs ++ right)) (.node (.binary l op r tag)) := by
  cases hsigned with
  | link hsign =>
      rw [Chain.isLogical_operator hsign] at hleft hright
      have hlink := (Derives.first hleft.ofChain).link hsign hright.ofChain
      exact hlink.chain_expression
  | compare hsign =>
      have hlogical : op.isLogical = false := TokenType.isLogical_comparison hsign
      rw [hlogical] at hleft hright
      have hcompare := (Derives.single (Derives.sum hleft)).compare hsign (Derives.sum hright)
      exact hcompare.comparison_expression
  | like hnot hword =>
      rw [TokenType.isLogical_likeness hword] at hleft hright
      have hlike := (Derives.single (Derives.sum hleft)).like hnot hword (Derives.sum hright)
      rw [List.append_assoc]
      exact hlike.comparison_expression

end Derives

/-! ## Lists -/

/-- Wherever the text of a tree stands before something that ends it, it is read as the tree. -/
def Expr.Reads (maxSteps : Nat) (tag : Tag) (layer : Layer) (e : Expr) : Prop :=
  ∀ rest, Delimited rest → Spells (.postgreSql maxSteps) e.written rest fun tokens =>
    Derives tag layer tokens (e.relabel (.stamp tag))

/-- The tokens of items and the trees that they stand for. -/
structure Items.Lists (tag : Tag) (layer : Layer) (es : List Expr) (items : Items) : Prop where
  separated : items.Separated
  each : ∀ p ∈ items.phrases, Derives tag layer p.tokens p.tree
  trees : items.trees = es.map (Expr.relabel (.stamp tag))

section Lists

variable {layer : Layer} {es : List Expr}

theorem delimited_further (hrest : Delimited rest) :
    Delimited ((es.flatMap fun e => ',' :: ' ' :: e.written) ++ rest) := by
  cases es with
  | nil => exact hrest
  | cons e es => exact .cons (by decide)

theorem spells_further (hes : ∀ e ∈ es, e.Reads maxSteps tag layer) (hrest : Delimited rest) :
    Spells (.postgreSql maxSteps) (es.flatMap fun e => ',' :: ' ' :: e.written) rest fun tokens =>
      ∃ further : List (Token × Phrase),
        tokens = further.flatMap (fun item => item.1 :: item.2.tokens) ∧
        (∀ item ∈ further, item.1.type = .comma ∧ Derives tag layer item.2.tokens item.2.tree) ∧
        further.map (fun item => item.2.tree) = es.map (Expr.relabel (.stamp tag)) := by
  induction es with
  | nil => exact .nil ⟨[], rfl, fun _ hnone => absurd hnone List.not_mem_nil, rfl⟩
  | cons e es ih =>
      rw [List.flatMap_cons]
      refine .mark rfl (by decide) (by decide) nofun fun comma hcomma => .blank ?_
      refine (hes e List.mem_cons_self _ (delimited_further hrest)).append ?_
      intro tokens hderives
      refine (ih fun e he => hes e (List.mem_cons_of_mem _ he)).mono ?_
      rintro more ⟨further, rfl, hfurther, htrees⟩
      refine ⟨(comma, ⟨tokens, e.relabel (.stamp tag)⟩) :: further, rfl, ?_, ?_⟩
      · intro item hitem
        rcases List.mem_cons.1 hitem with rfl | hitem
        · exact ⟨hcomma, hderives⟩
        · exact hfurther item hitem
      · rw [List.map_cons, List.map_cons, htrees]

/-- Trees with commas between them. -/
theorem spells_items (hne : es ≠ []) (hes : ∀ e ∈ es, e.Reads maxSteps tag layer)
    (hrest : Delimited rest) :
    Spells (.postgreSql maxSteps) (Expr.writtenList es) rest fun tokens =>
      ∃ items : Items, tokens = items.tokens ∧ items.Lists tag layer es := by
  cases es with
  | nil => exact absurd rfl hne
  | cons e es =>
      refine (hes e List.mem_cons_self _ (delimited_further hrest)).append ?_
      intro tokens hderives
      refine (spells_further (fun e he => hes e (List.mem_cons_of_mem _ he)) hrest).mono ?_
      rintro more ⟨further, rfl, hfurther, htrees⟩
      refine ⟨⟨⟨tokens, e.relabel (.stamp tag)⟩, further⟩, rfl, ?_, ?_, ?_⟩
      · exact fun item hitem => (hfurther item hitem).1
      · intro p hp
        rcases List.mem_cons.1 hp with rfl | hp
        · exact hderives
        · obtain ⟨item, hitem, rfl⟩ := List.mem_map.1 hp
          exact (hfurther item hitem).2
      · rw [Items.trees, Items.phrases, List.map_cons, List.map_map, List.map_cons]
        exact congrArg _ htrees

/-- Trees with commas between them, or none at all. -/
theorem spells_optionalItems (hes : ∀ e ∈ es, e.Reads maxSteps tag layer)
    (hrest : Delimited rest) :
    Spells (.postgreSql maxSteps) (Expr.writtenList es) rest fun tokens =>
      ∃ items : Option Items, tokens = items.elim [] Items.tokens ∧
        (∀ list ∈ items, list.Lists tag layer es) ∧
        items.elim [] Items.trees = es.map (Expr.relabel (.stamp tag)) := by
  by_cases hne : es = []
  · subst hne
    exact .nil ⟨none, rfl, nofun, rfl⟩
  · refine (spells_items hne hes hrest).mono ?_
    rintro tokens ⟨items, rfl, hlists⟩
    refine ⟨some items, rfl, ?_, hlists.trees⟩
    intro list hlist
    cases hlist
    exact hlists

/-- A branch whose words are in their places and whose parts are expressions. -/
structure Branch.Stands (tag : Tag) (b : Branch) : Prop where
  worded : b.Worded
  condition : Derives tag (.chain .disjunction) b.condition.tokens b.condition.tree
  result : Derives tag (.chain .disjunction) b.result.tokens b.result.tree

theorem delimited_branches {items : List (CaseItem Expr)} (hrest : Delimited rest) :
    Delimited (items.flatMap CaseItem.written ++ rest) := by
  cases items with
  | nil => exact hrest
  | cons item items => exact .cons (by decide)

theorem spells_branch {item : CaseItem Expr}
    (hcondition : item.condition.Reads maxSteps tag (.chain .disjunction))
    (hresult : item.result.Reads maxSteps tag (.chain .disjunction)) (hrest : Delimited rest) :
    Spells (.postgreSql maxSteps) item.written rest fun tokens =>
      ∃ b : Branch, tokens = b.tokens ∧ b.Stands tag ∧
        b.item tag = (item.map (Expr.relabel (.stamp tag))).relabel (.stamp tag) := by
  refine .blank ?_
  refine .reserved .WHEN "WHEN" (by decide) (stops_word (by decide)) fun whenWord hwhen => .blank ?_
  refine (hcondition _ (.cons (by decide))).append fun condition hderives => .blank ?_
  refine .reserved .THEN "THEN" (by decide) (stops_word (by decide)) fun thenWord hthen => .blank ?_
  refine (hresult _ hrest).mono fun result hderives' => ?_
  let branch : Branch :=
    ⟨whenWord, ⟨condition, item.condition.relabel (.stamp tag)⟩, thenWord,
      ⟨result, item.result.relabel (.stamp tag)⟩⟩
  exact ⟨branch, rfl, ⟨⟨hwhen, hthen⟩, hderives, hderives'⟩, rfl⟩

theorem spells_branches {items : List (CaseItem Expr)}
    (hconditions : ∀ item ∈ items, item.condition.Reads maxSteps tag (.chain .disjunction))
    (hresults : ∀ item ∈ items, item.result.Reads maxSteps tag (.chain .disjunction))
    (hrest : Delimited rest) :
    Spells (.postgreSql maxSteps) (items.flatMap CaseItem.written) rest fun tokens =>
      ∃ branches : List Branch, tokens = branches.flatMap Branch.tokens ∧
        (∀ b ∈ branches, b.Stands tag) ∧
        branches.map (Branch.item tag) =
          (items.map (CaseItem.map (Expr.relabel (.stamp tag)))).map
            (CaseItem.relabel (.stamp tag)) := by
  induction items with
  | nil => exact .nil ⟨[], rfl, fun _ hnone => absurd hnone List.not_mem_nil, rfl⟩
  | cons item items ih =>
      have hcondition := hconditions item List.mem_cons_self
      have hresult := hresults item List.mem_cons_self
      have hfurther := ih (fun item hitem => hconditions item (List.mem_cons_of_mem _ hitem))
        (fun item hitem => hresults item (List.mem_cons_of_mem _ hitem))
      rw [List.flatMap_cons]
      refine (spells_branch hcondition hresult (delimited_branches hrest)).append ?_
      rintro tokens ⟨b, rfl, hb, hbItem⟩
      refine hfurther.mono ?_
      rintro more ⟨branches, rfl, hbranches, hitems⟩
      refine ⟨b :: branches, rfl, ?_, ?_⟩
      · intro b' hb'
        rcases List.mem_cons.1 hb' with rfl | hb'
        · exact hb
        · exact hbranches b' hb'
      · rw [List.map_cons, List.map_cons, List.map_cons, hbItem, hitems]

theorem delimited_subject {operand : Option Expr} (hrest : Delimited rest) :
    Delimited (Expr.writtenSubject operand ++ rest) := by
  cases operand with
  | none => exact hrest
  | some e => exact .cons (by decide)

theorem delimited_otherwise {otherwise : Option Expr} (hrest : Delimited rest) :
    Delimited (Expr.writtenOtherwise otherwise ++ rest) := by
  cases otherwise with
  | none => exact hrest
  | some e => exact .cons (by decide)

theorem spells_subject {operand : Option Expr}
    (hoperand : ∀ e ∈ operand, e.Reads maxSteps tag layer) (hrest : Delimited rest) :
    Spells (.postgreSql maxSteps) (Expr.writtenSubject operand) rest fun tokens =>
      ∃ subject : Option Phrase, tokens = subject.elim [] Phrase.tokens ∧
        (∀ p ∈ subject, Derives tag layer p.tokens p.tree) ∧
        subject.map Phrase.tree = operand.map (Expr.relabel (.stamp tag)) := by
  cases operand with
  | none => exact .nil ⟨none, rfl, (fun _ hnone => nomatch hnone), rfl⟩
  | some e =>
      refine .blank ((hoperand e rfl _ hrest).mono fun tokens hderives => ?_)
      refine ⟨some ⟨tokens, e.relabel (.stamp tag)⟩, rfl, ?_, rfl⟩
      intro p hp
      cases hp
      exact hderives

theorem spells_otherwise {otherwise : Option Expr}
    (hotherwise : ∀ e ∈ otherwise, e.Reads maxSteps tag layer) (hrest : Delimited rest) :
    Spells (.postgreSql maxSteps) (Expr.writtenOtherwise otherwise) rest fun tokens =>
      ∃ other : Option (Token × Phrase), tokens = Phrase.behindWord other ∧
        (∀ p ∈ other, p.1.type = .keyword .ELSE ∧ Derives tag layer p.2.tokens p.2.tree) ∧
        other.map (fun p => p.2.tree) = otherwise.map (Expr.relabel (.stamp tag)) := by
  cases otherwise with
  | none => exact .nil ⟨none, rfl, (fun _ hnone => nomatch hnone), rfl⟩
  | some e =>
      refine .blank (.reserved .ELSE "ELSE" (by decide) (stops_word (by decide)) ?_)
      intro word hword
      refine .blank ((hotherwise e rfl _ hrest).mono fun tokens hderives => ?_)
      refine ⟨some (word, ⟨tokens, e.relabel (.stamp tag)⟩), rfl, ?_, rfl⟩
      intro p hp
      cases hp
      exact ⟨hword, hderives⟩

end Lists

/-! ## Layers of a tree that is read -/

namespace Expr

variable {layer layer' : Layer}

theorem Reads.mono (h : e.Reads maxSteps tag layer)
    (himp : ∀ tokens e, Derives tag layer tokens e → Derives tag layer' tokens e) :
    e.Reads maxSteps tag layer' :=
  fun rest hrest => (h rest hrest).mono fun tokens => himp tokens _

theorem Reads.sum (h : e.Reads maxSteps tag (.ofRoot false)) :
    e.Reads maxSteps tag (.chain .sum) :=
  h.mono fun _ _ hderives => Derives.sum hderives

theorem Reads.expression (h : e.Reads maxSteps tag (.ofRoot true)) :
    e.Reads maxSteps tag (.chain .disjunction) :=
  h.mono fun _ _ hderives => Derives.expression hderives

end Expr

end SqlTree

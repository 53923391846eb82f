import SqlTree.Proofs.Mapping
import SqlTree.Proofs.Stamping

/-!
# Equality is identity without tags

Two trees compare equal just when they become the same tree once their tags are taken away.  The
clauses come first: whether two of them compare equal is told by what becomes of them without
tags, if that is so for the expressions that they hold.  Main statement: `Expr.beq_iff_untagged`.
-/

namespace SqlTree

/-- Whether something compares equal to a value is told by what a function makes of both. -/
abbrev ToldBy {α β : Type} [BEq α] (f : α → β) (a : α) : Prop :=
  ∀ b, (a == b) = true ↔ f a = f b

section Containers

variable {ε α β γ : Type} [BEq ε] [BEq α] {f : ε → γ} {g : α → β} {held : α → List ε}

theorem ToldBy.option {o : Option α} (h : ∀ a ∈ o.toList, ToldBy g a) :
    ToldBy (Option.map g) o := by
  rintro (_ | b)
  · cases o <;> simp
  · cases o with
    | none => simp
    | some a => simpa using h a (List.mem_singleton.2 rfl) b

theorem ToldBy.list {as : List α} (h : ∀ a ∈ as, ToldBy g a) : ToldBy (List.map g) as := by
  induction as with
  | nil =>
      rintro (_ | ⟨b, bs⟩) <;> simp
  | cons a as ih =>
      rw [List.forall_mem_cons] at h
      rintro (_ | ⟨b, bs⟩)
      · simp
      · rw [List.cons_beq_cons, Bool.and_eq_true, h.1 b, ih h.2 bs, List.map_cons, List.map_cons,
          List.cons.injEq]

/-- What is so for each clause is so for an optional one. -/
theorem ToldBy.optionClause {o : Option α} (hg : ∀ a, (∀ e ∈ held a, ToldBy f e) → ToldBy g a)
    (h : ∀ e ∈ o.toList.flatMap held, ToldBy f e) : ToldBy (Option.map g) o :=
  .option fun a ha => hg a fun e he => h e (List.mem_flatMap.2 ⟨a, ha, he⟩)

/-- What is so for each clause is so for a list of them. -/
theorem ToldBy.listClause {as : List α} (hg : ∀ a, (∀ e ∈ held a, ToldBy f e) → ToldBy g a)
    (h : ∀ e ∈ as.flatMap held, ToldBy f e) : ToldBy (List.map g) as :=
  .list fun a ha => hg a fun e he => h e (List.mem_flatMap.2 ⟨a, ha, he⟩)

end Containers

/-! ## Names -/

@[simp] theorem Relabel.untag_tag (t : Tag) : untag.tag t = {} :=
  rfl

@[simp] theorem Relabel.untag_text : untag.text = id :=
  rfl

theorem Collate.toldBy (c : Collate) : ToldBy (relabel .untag) c := by
  intro d
  change instBEqCollate.beq _ _ = true ↔ _
  simp [instBEqCollate.beq, relabel]

theorem TimeUnit.toldBy (u : TimeUnit) : ToldBy (relabel .untag) u := by
  intro v
  change instBEqTimeUnit.beq _ _ = true ↔ _
  simp [instBEqTimeUnit.beq, relabel]

theorem Identifier.toldBy (i : Identifier) : ToldBy (relabel .untag) i := by
  intro j
  have hcollate : ToldBy (Option.map (Collate.relabel .untag)) i.collate :=
    .option fun c _ => c.toldBy
  change instBEqIdentifier.beq _ _ = true ↔ _
  simp [instBEqIdentifier.beq, relabel, hcollate]

theorem Identifier.option_toldBy (o : Option Identifier) : ToldBy (Option.map (relabel .untag)) o :=
  .option fun i _ => i.toldBy

theorem Identifier.list_toldBy (is : List Identifier) : ToldBy (List.map (relabel .untag)) is :=
  .list fun i _ => i.toldBy

/-! ## Clauses -/

section Clauses

variable {ε α : Type} [BEq ε] {f : ε → α}

theorem SelectItem.toldBy (s : SelectItem ε) (h : ∀ e ∈ s.held, ToldBy f e) :
    ToldBy (relabel .untag ∘ map f) s := by
  intro other
  change instBEqSelectItem.beq _ _ = true ↔ _
  simp_all [instBEqSelectItem.beq, held, map, relabel, Identifier.option_toldBy]

theorem WithQuery.toldBy (w : WithQuery ε) (h : ∀ e ∈ w.held, ToldBy f e) :
    ToldBy (relabel .untag ∘ map f) w := by
  intro other
  change instBEqWithQuery.beq _ _ = true ↔ _
  simp_all [instBEqWithQuery.beq, held, map, relabel, Identifier.toldBy,
    Identifier.list_toldBy]

theorem Hint.toldBy (x : Hint ε) (h : ∀ e ∈ x.held, ToldBy f e) :
    ToldBy (relabel .untag ∘ map f) x := by
  intro other
  change instBEqHint.beq _ _ = true ↔ _
  simp_all [instBEqHint.beq, held, map, relabel]

theorem Top.toldBy (t : Top ε) (h : ∀ e ∈ t.held, ToldBy f e) :
    ToldBy (relabel .untag ∘ map f) t := by
  intro other
  change instBEqTop.beq _ _ = true ↔ _
  simp_all [instBEqTop.beq, held, map, relabel]

theorem OrderItem.toldBy (o : OrderItem ε) (h : ∀ e ∈ o.held, ToldBy f e) :
    ToldBy (relabel .untag ∘ map f) o := by
  intro other
  change instBEqOrderItem.beq _ _ = true ↔ _
  simp_all [instBEqOrderItem.beq, held, map, relabel]

theorem CaseItem.toldBy (c : CaseItem ε) (h : ∀ e ∈ c.held, ToldBy f e) :
    ToldBy (relabel .untag ∘ map f) c := by
  intro other
  change instBEqCaseItem.beq _ _ = true ↔ _
  simp_all [instBEqCaseItem.beq, held, map, relabel]

theorem OrderBy.toldBy (o : OrderBy ε) (h : ∀ e ∈ o.held, ToldBy f e) :
    ToldBy (relabel .untag ∘ map f) o := by
  have hitems := ToldBy.listClause (fun item => item.toldBy) h
  intro other
  change instBEqOrderBy.beq _ _ = true ↔ _
  simp [instBEqOrderBy.beq, map, relabel, hitems]

theorem GroupBy.toldBy (g : GroupBy ε) (h : ∀ e ∈ g.held, ToldBy f e) :
    ToldBy (relabel .untag ∘ map f) g := by
  rw [held, List.forall_mem_append] at h
  intro other
  change instBEqGroupBy.beq _ _ = true ↔ _
  simp [instBEqGroupBy.beq, map, relabel, ToldBy.list h.1 _, ToldBy.option h.2 _]

theorem ConnectBy.toldBy (c : ConnectBy ε) (h : ∀ e ∈ c.held, ToldBy f e) :
    ToldBy (relabel .untag ∘ map f) c := by
  rw [held, List.forall_mem_append, List.forall_mem_singleton] at h
  intro other
  change instBEqConnectBy.beq _ _ = true ↔ _
  simp [instBEqConnectBy.beq, map, relabel, ToldBy.option h.1 _, h.2 _]

theorem Limit.toldBy (l : Limit ε) (h : ∀ e ∈ l.held, ToldBy f e) :
    ToldBy (relabel .untag ∘ map f) l := by
  rw [held, List.forall_mem_append] at h
  intro other
  change instBEqLimit.beq _ _ = true ↔ _
  simp [instBEqLimit.beq, map, relabel, ToldBy.option h.1 _, ToldBy.option h.2 _]

theorem PartitionBy.toldBy (p : PartitionBy ε) (h : ∀ e ∈ p.held, ToldBy f e) :
    ToldBy (relabel .untag ∘ map f) p := by
  have hitems : ToldBy (List.map f) p.items := .list h
  intro other
  change instBEqPartitionBy.beq _ _ = true ↔ _
  simp [instBEqPartitionBy.beq, map, relabel, hitems]

theorem WithinGroup.toldBy (w : WithinGroup ε) (h : ∀ e ∈ w.held, ToldBy f e) :
    ToldBy (relabel .untag ∘ map f) w := by
  intro other
  change instBEqWithinGroup.beq _ _ = true ↔ _
  simp [instBEqWithinGroup.beq, map, relabel, w.orderBy.toldBy h _]

theorem Window.toldBy (w : Window ε) (h : ∀ e ∈ w.held, ToldBy f e) :
    ToldBy (relabel .untag ∘ map f) w := by
  rw [held, List.forall_mem_append] at h
  have hpartition := ToldBy.optionClause (fun p => p.toldBy) h.1
  have horder := ToldBy.optionClause (fun o => o.toldBy) h.2
  intro other
  change instBEqWindow.beq _ _ = true ↔ _
  simp [instBEqWindow.beq, map, relabel, hpartition, horder]

theorem Call.toldBy (c : Call ε) (h : ∀ e ∈ c.held, ToldBy f e) :
    ToldBy (relabel .untag ∘ map f) c := by
  rw [held, List.forall_mem_append, List.forall_mem_append] at h
  have harguments := ToldBy.list h.1.1
  have hgroup := ToldBy.optionClause (fun w => w.toldBy) h.1.2
  have hwindow := ToldBy.optionClause (fun w => w.toldBy) h.2
  intro other
  change instBEqCall.beq _ _ = true ↔ _
  simp [instBEqCall.beq, map, relabel, Identifier.list_toldBy _ _, Identifier.toldBy _ _,
    harguments, hgroup, hwindow]

theorem SelectQuery.toldBy (s : SelectQuery ε) (h : ∀ e ∈ s.held, ToldBy f e) :
    ToldBy (relabel .untag ∘ map f) s := by
  simp only [held, List.forall_mem_append] at h
  obtain ⟨⟨⟨⟨⟨⟨⟨⟨⟨⟨hqueries, hhints⟩, htop⟩, hcolumns⟩, hinto⟩, hsource⟩, hcondition⟩, hgroup⟩,
    hconnect⟩, horder⟩, hlimit⟩ := h
  have hqueries := ToldBy.listClause (fun w => w.toldBy) hqueries
  have hhints := ToldBy.listClause (fun x => x.toldBy) hhints
  have htop := ToldBy.optionClause (fun t => t.toldBy) htop
  have hcolumns := ToldBy.listClause (fun item => item.toldBy) hcolumns
  have hgroup := ToldBy.optionClause (fun g => g.toldBy) hgroup
  have hconnect := ToldBy.optionClause (fun c => c.toldBy) hconnect
  have horder := ToldBy.optionClause (fun o => o.toldBy) horder
  have hlimit := ToldBy.optionClause (fun l => l.toldBy) hlimit
  intro other
  change instBEqSelectQuery.beq _ _ = true ↔ _
  simp [instBEqSelectQuery.beq, map, relabel, hqueries, hhints, htop, hcolumns,
    ToldBy.option hinto _, ToldBy.option hsource _, ToldBy.option hcondition _, hgroup, hconnect,
    horder, hlimit]

theorem Table.toldBy (t : Table ε) (h : ∀ e ∈ t.held, ToldBy f e) :
    ToldBy (relabel .untag ∘ map f) t := by
  have hhints := ToldBy.listClause (fun x => x.toldBy) h
  intro other
  change instBEqTable.beq _ _ = true ↔ _
  simp [instBEqTable.beq, map, relabel, Identifier.option_toldBy _ _, Identifier.toldBy _ _, hhints]

theorem Insert.toldBy (i : Insert ε) (h : ∀ e ∈ i.held, ToldBy f e) :
    ToldBy (relabel .untag ∘ map f) i := by
  simp only [held, List.forall_mem_append, List.forall_mem_singleton] at h
  obtain ⟨⟨⟨hhints, htable⟩, hrows⟩, hquery⟩ := h
  rw [← List.flatMap_id] at hrows
  have hhints := ToldBy.listClause (fun x => x.toldBy) hhints
  have hrows := ToldBy.listClause (fun row hrow => ToldBy.list hrow) hrows
  intro other
  change instBEqInsert.beq _ _ = true ↔ _
  simp [instBEqInsert.beq, map, relabel, hhints, htable _, Identifier.list_toldBy _ _, hrows,
    ToldBy.option hquery _]

theorem Update.toldBy (u : Update ε) (h : ∀ e ∈ u.held, ToldBy f e) :
    ToldBy (relabel .untag ∘ map f) u := by
  simp only [held, List.forall_mem_append, List.forall_mem_singleton] at h
  obtain ⟨⟨⟨⟨hhints, htable⟩, hassignments⟩, hsource⟩, hcondition⟩ := h
  have hhints := ToldBy.listClause (fun x => x.toldBy) hhints
  intro other
  change instBEqUpdate.beq _ _ = true ↔ _
  simp [instBEqUpdate.beq, map, relabel, hhints, htable _, ToldBy.list hassignments _,
    ToldBy.option hsource _, ToldBy.option hcondition _]

theorem Delete.toldBy (d : Delete ε) (h : ∀ e ∈ d.held, ToldBy f e) :
    ToldBy (relabel .untag ∘ map f) d := by
  simp only [held, List.forall_mem_append, List.forall_mem_singleton] at h
  obtain ⟨⟨⟨hhints, htable⟩, hsource⟩, hcondition⟩ := h
  have hhints := ToldBy.listClause (fun x => x.toldBy) hhints
  intro other
  change instBEqDelete.beq _ _ = true ↔ _
  simp [instBEqDelete.beq, map, relabel, hhints, htable _, ToldBy.option hsource _,
    ToldBy.option hcondition _]

omit [BEq ε] in
theorem Node.ctorIdx_relabel_map (r : Relabel) (n : Node ε) :
    ((n.map f).relabel r).ctorIdx = n.ctorIdx := by
  cases n <;> rfl

theorem Node.toldBy (n : Node ε) (h : ∀ e ∈ n.held, ToldBy f e) :
    ToldBy (relabel .untag ∘ map f) n := by
  intro m
  change instBEqNode.beq n m = true ↔ _
  -- a case for each constructor, in their order, and one for two different constructors
  fun_cases instBEqNode.beq n m
  all_goals
    simp only [held, List.forall_mem_append, List.forall_mem_cons, List.not_mem_nil, false_implies,
      implies_true, and_true] at h
  case case1 => simp [map, relabel, h _, Identifier.option_toldBy _ _]
  case case2 query other _ _ => simp [map, relabel, query.toldBy h other]
  case case3 =>
    have hqueries := ToldBy.listClause (fun w => w.toldBy) h.1
    simp [map, relabel, hqueries, h.2.1 _, h.2.2 _]
  case case4 source other _ _ => simp [map, relabel, source.toldBy h other]
  case case5 => simp [map, relabel, h.1.1 _, h.1.2 _, ToldBy.option h.2 _]
  case case6 function _ _ other _ _ _ _ =>
    simp [map, relabel, function.toldBy h other, Identifier.option_toldBy _ _]
  case case7 aggregate _ _ _ _ _ other _ _ _ _ _ _ =>
    have hvalues := ToldBy.listClause (fun item => item.toldBy) h.2
    simp [map, relabel, h.1.1.1 _, aggregate.toldBy h.1.1.2 other, h.1.2 _, hvalues,
      Identifier.option_toldBy _ _]
  case case8 name other _ _ => simp [map, relabel, name.toldBy other]
  case case9 =>
    have hcollate (o : Option Collate) : ToldBy (Option.map (Collate.relabel .untag)) o :=
      .option fun c _ => c.toldBy
    simp [map, relabel, Identifier.option_toldBy _ _, Identifier.toldBy _ _, hcollate _ _]
  case case10 => simp [map, relabel, Identifier.list_toldBy _ _]
  case case16 =>
    have hunit (o : Option TimeUnit) : ToldBy (Option.map (TimeUnit.relabel .untag)) o :=
      .option fun u _ => u.toldBy
    simp [map, relabel, h _, hunit _ _]
  case case17 =>
    have helements := ToldBy.list h
    simp [map, relabel, helements _]
  case case22 => simp [map, relabel, h.1.1 _, ToldBy.list h.1.2 _, ToldBy.option h.2 _]
  case case27 =>
    have hitems := ToldBy.listClause (fun item => item.toldBy) h.1.2
    simp [map, relabel, ToldBy.option h.1.1 _, hitems, ToldBy.option h.2 _]
  case case28 function other _ _ => simp [map, relabel, function.toldBy h other]
  case case31 => simp [map, relabel, h.1.1 _, ToldBy.option h.1.2 _, ToldBy.option h.2 _]
  case case32 statement other _ _ => simp [map, relabel, statement.toldBy h other]
  case case33 statement other _ _ => simp [map, relabel, statement.toldBy h other]
  case case34 statement other _ _ => simp [map, relabel, statement.toldBy h other]
  case case35 hne _ =>
    refine ⟨fun h => absurd h Bool.false_ne_true, fun hsame => absurd ?_ hne⟩
    rw [← ctorIdx_relabel_map .untag n, ← ctorIdx_relabel_map .untag m]
    exact congrArg Node.ctorIdx hsame
  all_goals simp_all [map, relabel]

end Clauses

/-! ## Trees -/

namespace Expr

theorem untagged_node (n : Node Expr) :
    untagged (.node n) = .node ((n.map untagged).relabel .untag) :=
  relabel_node _ n

/-- As many levels as the first tree has are enough to compare two trees. -/
theorem equalWithin_iff_untagged (a : Expr) {levels : Nat} (hlevels : a.height < levels)
    (b : Expr) :
    equalWithin levels a b = true ↔ a.untagged = b.untagged := by
  induction a using Expr.induction generalizing levels b with
  | step n ih =>
      obtain ⟨m⟩ := b
      obtain ⟨levels, rfl⟩ : ∃ k, levels = k + 1 := ⟨levels - 1, by omega⟩
      let _ : BEq Expr := ⟨equalWithin levels⟩
      have hheld : ∀ c ∈ n.held, ToldBy untagged c := by
        intro c hc d
        have hheight := height_lt_of_mem_held hc
        exact ih c hc (by omega) d
      rw [untagged_node, untagged_node, Expr.node.injEq]
      exact n.toldBy hheld m

/-- Two trees compare equal just when they are the same tree without their tags. -/
theorem beq_iff_untagged (a b : Expr) : (a == b) = true ↔ a.untagged = b.untagged :=
  a.equalWithin_iff_untagged (Nat.lt_succ_self _) b

instance : EquivBEq Expr where
  rfl := fun {a} => (a.beq_iff_untagged a).2 rfl
  symm := fun {a b} h => (b.beq_iff_untagged a).2 ((a.beq_iff_untagged b).1 h).symm
  trans := fun {a b c} hab hbc =>
    (a.beq_iff_untagged c).2 (((a.beq_iff_untagged b).1 hab).trans ((b.beq_iff_untagged c).1 hbc))

end Expr

end SqlTree

import SqlTree.Tree.Distinct

/-!
# Equality does not see tags

A tree compares equal to itself with another tag on all of its nodes.  The clauses come first: each
of them compares equal to itself with another tag, if the expressions that it holds do.  Main
statement: `Expr.beq_stamp`.
-/

namespace SqlTree

section Containers

variable {ε α : Type} [BEq ε] [BEq α] {f : ε → ε} {g : α → α} {held : α → List ε}

/-- An optional clause compares equal to itself changed if what it holds does. -/
theorem option_beq_map {o : Option α}
    (hg : ∀ a, (∀ e ∈ held a, (e == f e) = true) → (a == g a) = true)
    (h : ∀ e ∈ o.toList.flatMap held, (e == f e) = true) : (o == o.map g) = true := by
  cases o with
  | none => rfl
  | some a => exact hg a fun e he => h e (List.mem_flatMap.2 ⟨a, List.mem_singleton.2 rfl, he⟩)

/-- Clauses compare equal to themselves changed if what they hold does. -/
theorem list_beq_map {as : List α}
    (hg : ∀ a, (∀ e ∈ held a, (e == f e) = true) → (a == g a) = true)
    (h : ∀ e ∈ as.flatMap held, (e == f e) = true) : (as == as.map g) = true := by
  induction as with
  | nil => rfl
  | cons a as ih =>
      rw [List.flatMap_cons, List.forall_mem_append] at h
      rw [List.map_cons, List.cons_beq_cons, Bool.and_eq_true]
      exact ⟨hg a h.1, ih h.2⟩

theorem option_beq_map_self {o : Option ε} (h : ∀ e ∈ o.toList, (e == f e) = true) :
    (o == o.map f) = true := by
  cases o with
  | none => rfl
  | some e => exact h e (List.mem_singleton.2 rfl)

theorem list_beq_map_self {es : List ε} (h : ∀ e ∈ es, (e == f e) = true) :
    (es == es.map f) = true := by
  induction es with
  | nil => rfl
  | cons e es ih =>
      rw [List.forall_mem_cons] at h
      rw [List.map_cons, List.cons_beq_cons, Bool.and_eq_true]
      exact ⟨h.1, ih h.2⟩

end Containers

variable {tag : Tag}

/-! ## Names -/

@[simp] theorem Tag.beq_eq_true (a b : Tag) : (a == b) = true :=
  rfl

theorem Collate.beq_stamp (c : Collate) : (c == c.relabel (.stamp tag)) = true := by
  change instBEqCollate.beq _ _ = true
  simp [instBEqCollate.beq, relabel, Relabel.stamp]

theorem TimeUnit.beq_stamp (u : TimeUnit) : (u == u.relabel (.stamp tag)) = true := by
  change instBEqTimeUnit.beq _ _ = true
  simp [instBEqTimeUnit.beq, relabel, Relabel.stamp]

theorem Identifier.beq_stamp (i : Identifier) : (i == i.relabel (.stamp tag)) = true := by
  have hcollate : (i.collate == i.collate.map (Collate.relabel (.stamp tag))) = true :=
    option_beq_map_self fun c _ => c.beq_stamp
  change instBEqIdentifier.beq _ _ = true
  simp [instBEqIdentifier.beq, relabel, Relabel.stamp] at hcollate ⊢
  exact hcollate

theorem Identifier.option_beq_stamp (o : Option Identifier) :
    (o == o.map (relabel (.stamp tag))) = true :=
  option_beq_map_self fun i _ => i.beq_stamp

theorem Identifier.list_beq_stamp (is : List Identifier) :
    (is == is.map (relabel (.stamp tag))) = true :=
  list_beq_map_self fun i _ => i.beq_stamp

/-! ## Clauses -/

section Clauses

variable {ε : Type} [BEq ε] {f : ε → ε}

theorem SelectItem.beq_stamp (s : SelectItem ε) (h : ∀ e ∈ s.held, (e == f e) = true) :
    (s == (s.map f).relabel (.stamp tag)) = true := by
  change instBEqSelectItem.beq _ _ = true
  simp_all [instBEqSelectItem.beq, held, map, relabel, Identifier.option_beq_stamp]

theorem WithQuery.beq_stamp (w : WithQuery ε) (h : ∀ e ∈ w.held, (e == f e) = true) :
    (w == (w.map f).relabel (.stamp tag)) = true := by
  change instBEqWithQuery.beq _ _ = true
  simp_all [instBEqWithQuery.beq, held, map, relabel, Identifier.beq_stamp,
    Identifier.list_beq_stamp]

theorem Hint.beq_stamp (x : Hint ε) (h : ∀ e ∈ x.held, (e == f e) = true) :
    (x == (x.map f).relabel (.stamp tag)) = true := by
  change instBEqHint.beq _ _ = true
  simp_all [instBEqHint.beq, held, map, relabel]

theorem Top.beq_stamp (t : Top ε) (h : ∀ e ∈ t.held, (e == f e) = true) :
    (t == (t.map f).relabel (.stamp tag)) = true := by
  change instBEqTop.beq _ _ = true
  simp_all [instBEqTop.beq, held, map, relabel]

theorem OrderItem.beq_stamp (o : OrderItem ε) (h : ∀ e ∈ o.held, (e == f e) = true) :
    (o == (o.map f).relabel (.stamp tag)) = true := by
  change instBEqOrderItem.beq _ _ = true
  simp_all [instBEqOrderItem.beq, held, map, relabel]

theorem CaseItem.beq_stamp (c : CaseItem ε) (h : ∀ e ∈ c.held, (e == f e) = true) :
    (c == (c.map f).relabel (.stamp tag)) = true := by
  change instBEqCaseItem.beq _ _ = true
  simp_all [instBEqCaseItem.beq, held, map, relabel]

theorem OrderBy.beq_stamp (o : OrderBy ε) (h : ∀ e ∈ o.held, (e == f e) = true) :
    (o == (o.map f).relabel (.stamp tag)) = true := by
  change instBEqOrderBy.beq _ _ = true
  simp only [instBEqOrderBy.beq, map, relabel, List.map_map, Tag.beq_eq_true, beq_self_eq_true,
    Bool.and_true]
  exact list_beq_map (fun item => item.beq_stamp) h

theorem GroupBy.beq_stamp (g : GroupBy ε) (h : ∀ e ∈ g.held, (e == f e) = true) :
    (g == (g.map f).relabel (.stamp tag)) = true := by
  rw [held, List.forall_mem_append] at h
  change instBEqGroupBy.beq _ _ = true
  simp only [instBEqGroupBy.beq, map, relabel, Tag.beq_eq_true, Bool.and_true, Bool.and_eq_true]
  exact ⟨list_beq_map_self h.1, option_beq_map_self h.2⟩

theorem ConnectBy.beq_stamp (c : ConnectBy ε) (h : ∀ e ∈ c.held, (e == f e) = true) :
    (c == (c.map f).relabel (.stamp tag)) = true := by
  rw [held, List.forall_mem_append] at h
  change instBEqConnectBy.beq _ _ = true
  simp only [instBEqConnectBy.beq, map, relabel, Tag.beq_eq_true, beq_self_eq_true, Bool.and_true,
    Bool.and_eq_true]
  exact ⟨option_beq_map_self h.1, h.2 _ (List.mem_singleton.2 rfl)⟩

theorem Limit.beq_stamp (l : Limit ε) (h : ∀ e ∈ l.held, (e == f e) = true) :
    (l == (l.map f).relabel (.stamp tag)) = true := by
  rw [held, List.forall_mem_append] at h
  change instBEqLimit.beq _ _ = true
  simp only [instBEqLimit.beq, map, relabel, Tag.beq_eq_true, Bool.and_true, Bool.and_eq_true]
  exact ⟨option_beq_map_self h.1, option_beq_map_self h.2⟩

theorem PartitionBy.beq_stamp (p : PartitionBy ε) (h : ∀ e ∈ p.held, (e == f e) = true) :
    (p == (p.map f).relabel (.stamp tag)) = true := by
  change instBEqPartitionBy.beq _ _ = true
  simp only [instBEqPartitionBy.beq, map, relabel, Tag.beq_eq_true, Bool.and_true]
  exact list_beq_map_self h

theorem WithinGroup.beq_stamp (w : WithinGroup ε) (h : ∀ e ∈ w.held, (e == f e) = true) :
    (w == (w.map f).relabel (.stamp tag)) = true := by
  change instBEqWithinGroup.beq _ _ = true
  simp only [instBEqWithinGroup.beq, map, relabel, Tag.beq_eq_true, Bool.and_true]
  exact w.orderBy.beq_stamp h

theorem Window.beq_stamp (w : Window ε) (h : ∀ e ∈ w.held, (e == f e) = true) :
    (w == (w.map f).relabel (.stamp tag)) = true := by
  rw [held, List.forall_mem_append] at h
  change instBEqWindow.beq _ _ = true
  simp only [instBEqWindow.beq, map, relabel, Option.map_map, Tag.beq_eq_true, Bool.and_true,
    Bool.and_eq_true]
  refine ⟨option_beq_map (fun p => p.beq_stamp) h.1, ?_⟩
  exact option_beq_map (fun o => o.beq_stamp) h.2

theorem Call.beq_stamp (c : Call ε) (h : ∀ e ∈ c.held, (e == f e) = true) :
    (c == (c.map f).relabel (.stamp tag)) = true := by
  rw [held, List.forall_mem_append, List.forall_mem_append] at h
  obtain ⟨⟨harguments, hgroup⟩, hwindow⟩ := h
  change instBEqCall.beq _ _ = true
  simp only [instBEqCall.beq, map, relabel, Option.map_map, Tag.beq_eq_true, beq_self_eq_true,
    Bool.and_true, Bool.true_and, Bool.and_eq_true]
  refine ⟨Identifier.list_beq_stamp _, Identifier.beq_stamp _, list_beq_map_self harguments, ?_, ?_⟩
  · exact option_beq_map (fun w => w.beq_stamp) hgroup
  · exact option_beq_map (fun w => w.beq_stamp) hwindow

theorem SelectQuery.beq_stamp (s : SelectQuery ε) (h : ∀ e ∈ s.held, (e == f e) = true) :
    (s == (s.map f).relabel (.stamp tag)) = true := by
  simp only [held, List.forall_mem_append] at h
  obtain ⟨⟨⟨⟨⟨⟨⟨⟨⟨⟨hqueries, hhints⟩, htop⟩, hcolumns⟩, hinto⟩, hsource⟩, hcondition⟩, hgroup⟩,
    hconnect⟩, horder⟩, hlimit⟩ := h
  change instBEqSelectQuery.beq _ _ = true
  simp only [instBEqSelectQuery.beq, map, relabel, List.map_map, Option.map_map, Tag.beq_eq_true,
    beq_self_eq_true, Bool.and_true, Bool.true_and, Bool.and_eq_true]
  refine ⟨?_, ?_, ?_, ?_, option_beq_map_self hinto, option_beq_map_self hsource,
    option_beq_map_self hcondition, ?_, ?_, ?_, ?_⟩
  · exact list_beq_map (fun w => w.beq_stamp) hqueries
  · exact list_beq_map (fun x => x.beq_stamp) hhints
  · exact option_beq_map (fun t => t.beq_stamp) htop
  · exact list_beq_map (fun item => item.beq_stamp) hcolumns
  · exact option_beq_map (fun g => g.beq_stamp) hgroup
  · exact option_beq_map (fun c => c.beq_stamp) hconnect
  · exact option_beq_map (fun o => o.beq_stamp) horder
  · exact option_beq_map (fun l => l.beq_stamp) hlimit

theorem Table.beq_stamp (t : Table ε) (h : ∀ e ∈ t.held, (e == f e) = true) :
    (t == (t.map f).relabel (.stamp tag)) = true := by
  change instBEqTable.beq _ _ = true
  simp only [instBEqTable.beq, map, relabel, List.map_map, Tag.beq_eq_true, Bool.and_true,
    Bool.and_eq_true]
  refine ⟨Identifier.option_beq_stamp _, Identifier.option_beq_stamp _, Identifier.beq_stamp _,
    Identifier.option_beq_stamp _, Identifier.option_beq_stamp _, ?_⟩
  exact list_beq_map (fun x => x.beq_stamp) h

theorem Insert.beq_stamp (i : Insert ε) (h : ∀ e ∈ i.held, (e == f e) = true) :
    (i == (i.map f).relabel (.stamp tag)) = true := by
  simp only [held, List.forall_mem_append, List.forall_mem_singleton] at h
  obtain ⟨⟨⟨hhints, htable⟩, hrows⟩, hquery⟩ := h
  change instBEqInsert.beq _ _ = true
  simp only [instBEqInsert.beq, map, relabel, List.map_map, Tag.beq_eq_true, Bool.and_true,
    Bool.and_eq_true]
  refine ⟨list_beq_map (fun x => x.beq_stamp) hhints, htable, Identifier.list_beq_stamp _, ?_,
    option_beq_map_self hquery⟩
  rw [← List.flatMap_id] at hrows
  exact list_beq_map (fun row hrow => list_beq_map_self hrow) hrows

theorem Update.beq_stamp (u : Update ε) (h : ∀ e ∈ u.held, (e == f e) = true) :
    (u == (u.map f).relabel (.stamp tag)) = true := by
  simp only [held, List.forall_mem_append, List.forall_mem_singleton] at h
  obtain ⟨⟨⟨⟨hhints, htable⟩, hassignments⟩, hsource⟩, hcondition⟩ := h
  change instBEqUpdate.beq _ _ = true
  simp only [instBEqUpdate.beq, map, relabel, List.map_map, Tag.beq_eq_true, Bool.and_true,
    Bool.and_eq_true]
  refine ⟨list_beq_map (fun x => x.beq_stamp) hhints, htable, list_beq_map_self hassignments, ?_⟩
  exact ⟨option_beq_map_self hsource, option_beq_map_self hcondition⟩

theorem Delete.beq_stamp (d : Delete ε) (h : ∀ e ∈ d.held, (e == f e) = true) :
    (d == (d.map f).relabel (.stamp tag)) = true := by
  simp only [held, List.forall_mem_append, List.forall_mem_singleton] at h
  obtain ⟨⟨⟨hhints, htable⟩, hsource⟩, hcondition⟩ := h
  change instBEqDelete.beq _ _ = true
  simp only [instBEqDelete.beq, map, relabel, List.map_map, Tag.beq_eq_true, Bool.and_true,
    Bool.and_eq_true]
  refine ⟨list_beq_map (fun x => x.beq_stamp) hhints, htable, ?_⟩
  exact ⟨option_beq_map_self hsource, option_beq_map_self hcondition⟩

theorem Node.beq_stamp (n : Node ε) (h : ∀ e ∈ n.held, (e == f e) = true) :
    (n == (n.map f).relabel (.stamp tag)) = true := by
  change instBEqNode.beq _ _ = true
  cases n <;>
    simp only [held, List.forall_mem_append, List.forall_mem_cons, List.not_mem_nil, false_implies,
      implies_true, and_true] at h <;>
    simp only [instBEqNode.beq, Node.ctorIdx, map, relabel, List.map_map, Tag.beq_eq_true,
      beq_self_eq_true, Bool.and_true, Bool.true_and, Bool.and_eq_true]
  case select => exact ⟨h, Identifier.option_beq_stamp _⟩
  case selectQuery query => exact query.beq_stamp h
  case union => exact ⟨list_beq_map (fun w => w.beq_stamp) h.1, h.2⟩
  case table source => exact source.beq_stamp h
  case joinTable => exact ⟨h.1.1, h.1.2, option_beq_map_self h.2⟩
  case tableFunction function _ _ => exact ⟨function.beq_stamp h, Identifier.option_beq_stamp _⟩
  case pivotTable aggregate _ _ _ _ =>
    obtain ⟨⟨⟨hsource, haggregate⟩, hcolumn⟩, hvalues⟩ := h
    refine ⟨hsource, aggregate.beq_stamp haggregate, hcolumn, ?_, Identifier.option_beq_stamp _⟩
    exact list_beq_map (fun item => item.beq_stamp) hvalues
  case identifier name => exact name.beq_stamp
  case property collate _ =>
    refine ⟨Identifier.option_beq_stamp _, Identifier.beq_stamp _, Identifier.beq_stamp _, ?_⟩
    exact option_beq_map_self fun c _ => c.beq_stamp
  case allColumns => exact Identifier.list_beq_stamp _
  case «variable» | number | string => simp [Relabel.stamp]
  case interval => exact ⟨h, option_beq_map_self fun u _ => u.beq_stamp⟩
  case array => exact list_beq_map_self h
  case binary | not | negate | between | existence | any | all | regex | atTimeZone | arrayIndex =>
    exact h
  case membership => exact ⟨h.1.1, list_beq_map_self h.1.2, option_beq_map_self h.2⟩
  case caseOf =>
    refine ⟨option_beq_map_self h.1.1, ?_, option_beq_map_self h.2⟩
    exact list_beq_map (fun item => item.beq_stamp) h.1.2
  case call function => exact function.beq_stamp h
  case arraySlice => exact ⟨h.1.1, option_beq_map_self h.1.2, option_beq_map_self h.2⟩
  case insert statement => exact statement.beq_stamp h
  case update statement => exact statement.beq_stamp h
  case delete statement => exact statement.beq_stamp h

end Clauses

/-! ## Trees -/

namespace Expr

/-- As many levels as a tree has are enough to compare it with itself. -/
theorem equalWithin_stamp (e : Expr) {levels : Nat} (hlevels : e.height < levels) :
    equalWithin levels e (e.relabel (.stamp tag)) = true := by
  induction e using Expr.induction generalizing levels with
  | step n ih =>
      obtain ⟨levels, rfl⟩ : ∃ k, levels = k + 1 := ⟨levels - 1, by omega⟩
      let _ : BEq Expr := ⟨equalWithin levels⟩
      have hheld : ∀ c ∈ n.held, (c == c.relabel (.stamp tag)) = true := by
        intro c hc
        have hheight := height_lt_of_mem_held hc
        exact ih c hc (by omega)
      rw [relabel_node, equalWithin]
      exact n.beq_stamp hheld

/-- A tree compares equal to itself with another tag on all of its nodes. -/
theorem beq_stamp (e : Expr) (tag : Tag) : (e == e.relabel (.stamp tag)) = true :=
  e.equalWithin_stamp (Nat.lt_succ_self _)

end Expr

end SqlTree

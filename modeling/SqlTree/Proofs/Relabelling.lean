import SqlTree.Tree.Distinct

/-!
# Relabelling that changes nothing

A tree that is relabelled with its own tags and texts stays the same.  As for equality, the clauses
come first: each of them stays the same if the expressions that it holds do.  Main statement:
`Expr.relabel_same`.
-/

namespace SqlTree

section Containers

variable {ε α : Type} {f : ε → ε} {g : α → α} {held : α → List ε}

/-- An optional clause stays the same if what it holds does. -/
theorem option_map_same {o : Option α} (hg : ∀ a, (∀ e ∈ held a, f e = e) → g a = a)
    (h : ∀ e ∈ o.toList.flatMap held, f e = e) : o.map g = o := by
  cases o with
  | none => rfl
  | some a =>
      have hheld := fun e he => h e (List.mem_flatMap.2 ⟨a, List.mem_singleton.2 rfl, he⟩)
      exact congrArg some (hg a hheld)

/-- Clauses stay the same if what they hold does. -/
theorem list_map_same {as : List α} (hg : ∀ a, (∀ e ∈ held a, f e = e) → g a = a)
    (h : ∀ e ∈ as.flatMap held, f e = e) : as.map g = as := by
  induction as with
  | nil => rfl
  | cons a as ih =>
      rw [List.flatMap_cons, List.forall_mem_append] at h
      rw [List.map_cons, hg a h.1, ih h.2]

theorem option_map_self {o : Option ε} (h : ∀ e ∈ o.toList, f e = e) : o.map f = o := by
  cases o with
  | none => rfl
  | some e => exact congrArg some (h e (List.mem_singleton.2 rfl))

theorem list_map_self {es : List ε} (h : ∀ e ∈ es, f e = e) : es.map f = es :=
  (List.map_congr_left h).trans (List.map_id' es)

end Containers

/-! ## Names -/

@[simp] theorem Collate.relabel_same (c : Collate) : c.relabel {} = c :=
  rfl

@[simp] theorem TimeUnit.relabel_same (u : TimeUnit) : u.relabel {} = u :=
  rfl

@[simp] theorem Identifier.relabel_same (i : Identifier) : i.relabel {} = i := by
  obtain ⟨value, left, right, collate, tag⟩ := i
  cases left <;> cases right <;> cases collate <;> rfl

@[simp] theorem Identifier.option_relabel_same (o : Option Identifier) : o.map (relabel {}) = o :=
  option_map_self fun i _ => i.relabel_same

@[simp] theorem Identifier.list_relabel_same (is : List Identifier) : is.map (relabel {}) = is :=
  list_map_self fun i _ => i.relabel_same

/-! ## Clauses -/

section Clauses

variable {ε : Type} {f : ε → ε}

theorem SelectItem.relabel_same (s : SelectItem ε) (h : ∀ e ∈ s.held, f e = e) :
    (s.map f).relabel {} = s := by
  simp_all [held, map, relabel]

theorem WithQuery.relabel_same (w : WithQuery ε) (h : ∀ e ∈ w.held, f e = e) :
    (w.map f).relabel {} = w := by
  simp_all [held, map, relabel]

theorem Hint.relabel_same (x : Hint ε) (h : ∀ e ∈ x.held, f e = e) : (x.map f).relabel {} = x := by
  simp_all [held, map, relabel]

theorem Top.relabel_same (t : Top ε) (h : ∀ e ∈ t.held, f e = e) : (t.map f).relabel {} = t := by
  simp_all [held, map, relabel]

theorem OrderItem.relabel_same (o : OrderItem ε) (h : ∀ e ∈ o.held, f e = e) :
    (o.map f).relabel {} = o := by
  simp_all [held, map, relabel]

theorem CaseItem.relabel_same (c : CaseItem ε) (h : ∀ e ∈ c.held, f e = e) :
    (c.map f).relabel {} = c := by
  simp_all [held, map, relabel]

theorem OrderBy.relabel_same (o : OrderBy ε) (h : ∀ e ∈ o.held, f e = e) :
    (o.map f).relabel {} = o := by
  have hitems : (o.items.map (OrderItem.map f)).map (OrderItem.relabel {}) = o.items := by
    rw [List.map_map]
    exact list_map_same (fun item => item.relabel_same) h
  simp only [map, relabel, hitems, id]

theorem GroupBy.relabel_same (g : GroupBy ε) (h : ∀ e ∈ g.held, f e = e) :
    (g.map f).relabel {} = g := by
  rw [held, List.forall_mem_append] at h
  simp only [map, relabel, list_map_self h.1, option_map_self h.2, id]

theorem ConnectBy.relabel_same (c : ConnectBy ε) (h : ∀ e ∈ c.held, f e = e) :
    (c.map f).relabel {} = c := by
  rw [held, List.forall_mem_append] at h
  simp only [map, relabel, option_map_self h.1, h.2 _ (List.mem_singleton.2 rfl), id]

theorem Limit.relabel_same (l : Limit ε) (h : ∀ e ∈ l.held, f e = e) :
    (l.map f).relabel {} = l := by
  rw [held, List.forall_mem_append] at h
  simp only [map, relabel, option_map_self h.1, option_map_self h.2, id]

theorem PartitionBy.relabel_same (p : PartitionBy ε) (h : ∀ e ∈ p.held, f e = e) :
    (p.map f).relabel {} = p := by
  have hitems : p.items.map f = p.items := list_map_self h
  simp only [map, relabel, hitems, id]

theorem WithinGroup.relabel_same (w : WithinGroup ε) (h : ∀ e ∈ w.held, f e = e) :
    (w.map f).relabel {} = w := by
  simp only [map, relabel, w.orderBy.relabel_same h, id]

theorem Window.relabel_same (w : Window ε) (h : ∀ e ∈ w.held, f e = e) :
    (w.map f).relabel {} = w := by
  rw [held, List.forall_mem_append] at h
  simp only [map, relabel, Option.map_map, id]
  congr 1
  · exact option_map_same (fun p => p.relabel_same) h.1
  · exact option_map_same (fun o => o.relabel_same) h.2

theorem Call.relabel_same (c : Call ε) (h : ∀ e ∈ c.held, f e = e) : (c.map f).relabel {} = c := by
  rw [held, List.forall_mem_append, List.forall_mem_append] at h
  obtain ⟨⟨harguments, hgroup⟩, hwindow⟩ := h
  simp only [map, relabel, Option.map_map, Identifier.list_relabel_same, Identifier.relabel_same,
    list_map_self harguments, id]
  congr 1
  · exact option_map_same (fun w => w.relabel_same) hgroup
  · exact option_map_same (fun w => w.relabel_same) hwindow

theorem SelectQuery.relabel_same (s : SelectQuery ε) (h : ∀ e ∈ s.held, f e = e) :
    (s.map f).relabel {} = s := by
  simp only [held, List.forall_mem_append] at h
  obtain ⟨⟨⟨⟨⟨⟨⟨⟨⟨⟨hqueries, hhints⟩, htop⟩, hcolumns⟩, hinto⟩, hsource⟩, hcondition⟩, hgroup⟩,
    hconnect⟩, horder⟩, hlimit⟩ := h
  simp only [map, relabel, List.map_map, Option.map_map, option_map_self hinto,
    option_map_self hsource, option_map_self hcondition, id]
  congr 1
  · exact list_map_same (fun w => w.relabel_same) hqueries
  · exact list_map_same (fun x => x.relabel_same) hhints
  · exact option_map_same (fun t => t.relabel_same) htop
  · exact list_map_same (fun item => item.relabel_same) hcolumns
  · exact option_map_same (fun g => g.relabel_same) hgroup
  · exact option_map_same (fun c => c.relabel_same) hconnect
  · exact option_map_same (fun o => o.relabel_same) horder
  · exact option_map_same (fun l => l.relabel_same) hlimit

theorem Table.relabel_same (t : Table ε) (h : ∀ e ∈ t.held, f e = e) :
    (t.map f).relabel {} = t := by
  have hhints : t.hints.map (Hint.relabel {} ∘ Hint.map f) = t.hints :=
    list_map_same (fun x => x.relabel_same) h
  simp only [map, relabel, List.map_map, Identifier.option_relabel_same, Identifier.relabel_same,
    hhints, id]

theorem Insert.relabel_same (i : Insert ε) (h : ∀ e ∈ i.held, f e = e) :
    (i.map f).relabel {} = i := by
  simp only [held, List.forall_mem_append, List.forall_mem_singleton] at h
  obtain ⟨⟨⟨hhints, htable⟩, hrows⟩, hquery⟩ := h
  rw [← List.flatMap_id] at hrows
  simp only [map, relabel, List.map_map, htable, Identifier.list_relabel_same,
    option_map_self hquery, id]
  congr 1
  · exact list_map_same (fun x => x.relabel_same) hhints
  · exact list_map_same (fun row hrow => list_map_self hrow) hrows

theorem Update.relabel_same (u : Update ε) (h : ∀ e ∈ u.held, f e = e) :
    (u.map f).relabel {} = u := by
  simp only [held, List.forall_mem_append, List.forall_mem_singleton] at h
  obtain ⟨⟨⟨⟨hhints, htable⟩, hassignments⟩, hsource⟩, hcondition⟩ := h
  have hhints : u.hints.map (Hint.relabel {} ∘ Hint.map f) = u.hints :=
    list_map_same (fun x => x.relabel_same) hhints
  simp only [map, relabel, List.map_map, hhints, htable, list_map_self hassignments,
    option_map_self hsource, option_map_self hcondition, id]

theorem Delete.relabel_same (d : Delete ε) (h : ∀ e ∈ d.held, f e = e) :
    (d.map f).relabel {} = d := by
  simp only [held, List.forall_mem_append, List.forall_mem_singleton] at h
  obtain ⟨⟨⟨hhints, htable⟩, hsource⟩, hcondition⟩ := h
  have hhints : d.hints.map (Hint.relabel {} ∘ Hint.map f) = d.hints :=
    list_map_same (fun x => x.relabel_same) hhints
  simp only [map, relabel, List.map_map, hhints, htable, option_map_self hsource,
    option_map_self hcondition, id]

theorem Node.relabel_same (n : Node ε) (h : ∀ e ∈ n.held, f e = e) : (n.map f).relabel {} = n := by
  cases n <;>
    simp only [held, List.forall_mem_append, List.forall_mem_cons, List.not_mem_nil, false_implies,
      implies_true, and_true] at h <;>
    simp only [map, relabel, List.map_map, Function.comp_def, Identifier.option_relabel_same,
      Identifier.relabel_same, Identifier.list_relabel_same, id]
  case select => rw [h]
  case selectQuery query => rw [query.relabel_same h]
  case union => rw [list_map_same (fun w => w.relabel_same) h.1, h.2.1, h.2.2]
  case table source => rw [source.relabel_same h]
  case joinTable => rw [h.1.1, h.1.2, option_map_self h.2]
  case tableFunction function _ _ => rw [function.relabel_same h]
  case pivotTable aggregate _ _ _ _ =>
    obtain ⟨⟨⟨hsource, haggregate⟩, hcolumn⟩, hvalues⟩ := h
    rw [hsource, aggregate.relabel_same haggregate, hcolumn,
      list_map_same (fun item => item.relabel_same) hvalues]
  case property collate _ => rw [option_map_self fun c _ => c.relabel_same]
  case interval => rw [h, option_map_self fun u _ => u.relabel_same]
  case array => rw [list_map_self h]
  case not | negate | existence | any | all => rw [h]
  case binary | regex | atTimeZone | arrayIndex => rw [h.1, h.2]
  case between => rw [h.1, h.2.1, h.2.2]
  case membership => rw [h.1.1, list_map_self h.1.2, option_map_self h.2]
  case caseOf =>
    rw [option_map_self h.1.1, list_map_same (fun item => item.relabel_same) h.1.2,
      option_map_self h.2]
  case call function => rw [function.relabel_same h]
  case arraySlice => rw [h.1.1, option_map_self h.1.2, option_map_self h.2]
  case insert statement => rw [statement.relabel_same h]
  case update statement => rw [statement.relabel_same h]
  case delete statement => rw [statement.relabel_same h]

end Clauses

/-! ## Trees -/

/-- A tree keeps its tags and texts when they are not changed. -/
theorem Expr.relabel_same (e : Expr) : e.relabel {} = e := by
  induction e using Expr.induction with
  | step n ih => rw [relabel_node, n.relabel_same ih]

end SqlTree

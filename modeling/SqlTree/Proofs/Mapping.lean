import SqlTree.Proofs.Relabelling

/-!
# Changing what nodes hold, twice

To change what a node holds and to change it again is to change it once.  Main statement:
`Node.map_map_same`, which says that a node comes back if the second change undoes the first one.

Two changes that agree on what a node holds make the same node of it (`Node.map_congr`), and it
does not matter whether its tags are changed before or after (`Node.map_relabel`).
-/

namespace SqlTree

variable {ε α β : Type} (g : α → β) (f : ε → α)

/-! ## Clauses -/

@[simp] theorem SelectItem.map_map (s : SelectItem ε) : (s.map f).map g = s.map (g ∘ f) := rfl

@[simp] theorem WithQuery.map_map (w : WithQuery ε) : (w.map f).map g = w.map (g ∘ f) := rfl

@[simp] theorem Hint.map_map (h : Hint ε) : (h.map f).map g = h.map (g ∘ f) := rfl

@[simp] theorem Top.map_map (t : Top ε) : (t.map f).map g = t.map (g ∘ f) := rfl

@[simp] theorem OrderItem.map_map (o : OrderItem ε) : (o.map f).map g = o.map (g ∘ f) := rfl

@[simp] theorem CaseItem.map_map (c : CaseItem ε) : (c.map f).map g = c.map (g ∘ f) := rfl

@[simp] theorem OrderBy.map_map (o : OrderBy ε) : (o.map f).map g = o.map (g ∘ f) := by
  simp [map, Function.comp_def]

@[simp] theorem GroupBy.map_map (b : GroupBy ε) : (b.map f).map g = b.map (g ∘ f) := by
  simp [map]

@[simp] theorem ConnectBy.map_map (c : ConnectBy ε) : (c.map f).map g = c.map (g ∘ f) := by
  simp [map]

@[simp] theorem Limit.map_map (l : Limit ε) : (l.map f).map g = l.map (g ∘ f) := by
  simp [map]

@[simp] theorem PartitionBy.map_map (p : PartitionBy ε) : (p.map f).map g = p.map (g ∘ f) := by
  simp [map]

@[simp] theorem WithinGroup.map_map (w : WithinGroup ε) : (w.map f).map g = w.map (g ∘ f) := by
  simp [map]

@[simp] theorem Window.map_map (w : Window ε) : (w.map f).map g = w.map (g ∘ f) := by
  simp [map, Function.comp_def]

@[simp] theorem Call.map_map (c : Call ε) : (c.map f).map g = c.map (g ∘ f) := by
  simp [map, Function.comp_def]

@[simp] theorem SelectQuery.map_map (s : SelectQuery ε) : (s.map f).map g = s.map (g ∘ f) := by
  simp [map, Function.comp_def]

@[simp] theorem Table.map_map (t : Table ε) : (t.map f).map g = t.map (g ∘ f) := by
  simp [map, Function.comp_def]

@[simp] theorem Insert.map_map (i : Insert ε) : (i.map f).map g = i.map (g ∘ f) := by
  simp [map, Function.comp_def]

@[simp] theorem Update.map_map (u : Update ε) : (u.map f).map g = u.map (g ∘ f) := by
  simp [map, Function.comp_def]

@[simp] theorem Delete.map_map (d : Delete ε) : (d.map f).map g = d.map (g ∘ f) := by
  simp [map, Function.comp_def]

/-! ## Nodes -/

@[simp] theorem Node.map_map (n : Node ε) : (n.map f).map g = n.map (g ∘ f) := by
  cases n <;> simp [map, Function.comp_def]

theorem Node.map_self {h : ε → ε} (n : Node ε) (hh : ∀ e ∈ n.held, h e = e) : n.map h = n := by
  have hsame : (n.map h).relabel {} = n := n.relabel_same hh
  have hid : (n.map h).map id = n.map h := n.map_map id h
  have hagain := (n.map h).relabel_same (f := id) fun _ _ => rfl
  rwa [hid, hsame, eq_comm] at hagain

/-- A node comes back if the second change of what it holds undoes the first one. -/
theorem Node.map_map_same {u : α → ε} (n : Node ε) (hu : ∀ e ∈ n.held, u (f e) = e) :
    (n.map f).map u = n :=
  (n.map_map u f).trans (n.map_self hu)

/-- A change is known by what it does to what a node holds. -/
theorem Node.map_congr {h : ε → α} (n : Node ε) (hh : ∀ e ∈ n.held, f e = h e) :
    n.map f = n.map h := by
  -- both changes are made at once, and then the second result is the first one again
  let both := n.map fun e => (f e, h e)
  have hsame : both.map (fun p => (p.1, p.1)) = both := by
    refine both.map_self fun p hp => ?_
    rw [held_map] at hp
    obtain ⟨e, he, rfl⟩ := List.mem_map.1 hp
    exact Prod.ext rfl (hh e he)
  calc n.map f = (both.map fun p => (p.1, p.1)).map Prod.snd := by simp [both, Function.comp_def]
    _ = both.map Prod.snd := by rw [hsame]
    _ = n.map h := by simp [both, Function.comp_def]

/-! ## Tags -/

section Tags

variable (r : Relabel)

theorem SelectItem.map_relabel (s : SelectItem ε) : (s.relabel r).map f = (s.map f).relabel r :=
  rfl

theorem WithQuery.map_relabel (w : WithQuery ε) : (w.relabel r).map f = (w.map f).relabel r :=
  rfl

theorem Hint.map_relabel (h : Hint ε) : (h.relabel r).map f = (h.map f).relabel r := rfl

theorem Top.map_relabel (t : Top ε) : (t.relabel r).map f = (t.map f).relabel r := rfl

theorem OrderItem.map_relabel (o : OrderItem ε) : (o.relabel r).map f = (o.map f).relabel r :=
  rfl

theorem CaseItem.map_relabel (c : CaseItem ε) : (c.relabel r).map f = (c.map f).relabel r :=
  rfl

theorem OrderBy.map_relabel (o : OrderBy ε) : (o.relabel r).map f = (o.map f).relabel r := by
  simp [map, relabel, Function.comp_def, OrderItem.map_relabel]

theorem GroupBy.map_relabel (b : GroupBy ε) : (b.relabel r).map f = (b.map f).relabel r :=
  rfl

theorem ConnectBy.map_relabel (c : ConnectBy ε) : (c.relabel r).map f = (c.map f).relabel r :=
  rfl

theorem Limit.map_relabel (l : Limit ε) : (l.relabel r).map f = (l.map f).relabel r := rfl

theorem PartitionBy.map_relabel (p : PartitionBy ε) : (p.relabel r).map f = (p.map f).relabel r :=
  rfl

theorem WithinGroup.map_relabel (w : WithinGroup ε) :
    (w.relabel r).map f = (w.map f).relabel r := by
  simp [map, relabel, OrderBy.map_relabel]

theorem Window.map_relabel (w : Window ε) : (w.relabel r).map f = (w.map f).relabel r := by
  simp [map, relabel, Function.comp_def, PartitionBy.map_relabel, OrderBy.map_relabel]

theorem Call.map_relabel (c : Call ε) : (c.relabel r).map f = (c.map f).relabel r := by
  simp [map, relabel, Function.comp_def, WithinGroup.map_relabel, Window.map_relabel]

theorem SelectQuery.map_relabel (s : SelectQuery ε) :
    (s.relabel r).map f = (s.map f).relabel r := by
  simp [map, relabel, Function.comp_def, WithQuery.map_relabel, Hint.map_relabel, Top.map_relabel,
    SelectItem.map_relabel, GroupBy.map_relabel, ConnectBy.map_relabel, OrderBy.map_relabel,
    Limit.map_relabel]

theorem Table.map_relabel (t : Table ε) : (t.relabel r).map f = (t.map f).relabel r := by
  simp [map, relabel, Function.comp_def, Hint.map_relabel]

theorem Insert.map_relabel (i : Insert ε) : (i.relabel r).map f = (i.map f).relabel r := by
  simp [map, relabel, Function.comp_def, Hint.map_relabel]

theorem Update.map_relabel (u : Update ε) : (u.relabel r).map f = (u.map f).relabel r := by
  simp [map, relabel, Function.comp_def, Hint.map_relabel]

theorem Delete.map_relabel (d : Delete ε) : (d.relabel r).map f = (d.map f).relabel r := by
  simp [map, relabel, Function.comp_def, Hint.map_relabel]

theorem Node.map_relabel (n : Node ε) : (n.relabel r).map f = (n.map f).relabel r := by
  cases n <;> simp [map, relabel, Function.comp_def, SelectItem.map_relabel, WithQuery.map_relabel,
    CaseItem.map_relabel, Call.map_relabel, SelectQuery.map_relabel, Table.map_relabel,
    Insert.map_relabel, Update.map_relabel, Delete.map_relabel]

end Tags

end SqlTree

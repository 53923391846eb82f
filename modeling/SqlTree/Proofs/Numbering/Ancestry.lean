import Mathlib.Data.List.Sort
import SqlTree.Proofs.Numbering.Station

/-!
# Parent tables

The table of a tree says of every node where it stands, and nothing else: its numbers are those of
the pre-order, the nodes with a given parent are the children of that parent in their order, and
the way up from a node is the way that a walk has taken down to it.
-/

namespace SqlTree

namespace ParentTable

/-- The way up from a node, one parent after another, ends with a node that has none. -/
inductive Climbs (table : ParentTable) : Nat → List Nat → Prop
  | top {id : Nat} (hid : table.parentOf id = none) : Climbs table id []
  | step {id parent : Nat} {way : List Nat} (hid : table.parentOf id = some parent)
      (hway : Climbs table parent way) : Climbs table id (parent :: way)

/-- What is recorded of the node with a given number, with the node itself. -/
def childAt? (table : ParentTable) (e : Expr) (id : Nat) : Option (Child Expr) :=
  (table.get? id).bind fun place => e.preorder[id]?.map fun x => ⟨place.key, place.index, x⟩

variable {e : Expr} {s c p : Station} {id : Nat}

/-! ## Stations in the table -/

theorem visit_root_id (e : Expr) : (Station.root e).visit.map Station.id = List.range e.size := by
  rw [Station.visit_id, List.range_eq_range']
  rfl

theorem entries_ofExpr (e : Expr) :
    (ofExpr e).entries.toList = (Station.root e).visit.map Station.place := by
  rw [Station.visit_place]
  rfl

theorem length_preorder (e : Expr) : e.preorder.length = e.size := by
  have hvisit := congrArg List.length (Station.visit_expr (.root e))
  rw [List.length_map, Station.visit_length] at hvisit
  exact hvisit.symm

theorem size_ofExpr (e : Expr) : (ofExpr e).size = e.size := by
  rw [size, ← Array.length_toList, entries_ofExpr, List.length_map, Station.visit_length]
  rfl

/-- A station stands in a walk where its number says. -/
theorem getElem?_visit_root (hs : s ∈ (Station.root e).visit) :
    (Station.root e).visit[s.id]? = some s := by
  obtain ⟨i, hi⟩ := List.mem_iff_getElem?.1 hs
  have hid : (List.range e.size)[i]? = some s.id := by
    rw [← visit_root_id, List.getElem?_map, hi, Option.map_some]
  rw [List.getElem?_eq_some_iff] at hid
  obtain ⟨_, hid⟩ := hid
  rw [List.getElem_range] at hid
  rwa [← hid]

theorem exists_station (hid : id < e.size) : ∃ s ∈ (Station.root e).visit, s.id = id := by
  have hmem := List.mem_range.2 hid
  rw [← visit_root_id] at hmem
  exact List.mem_map.1 hmem

theorem id_lt_of_mem (hs : s ∈ (Station.root e).visit) : s.id < e.size := by
  have hlt := (Station.id_bounds hs).2
  rwa [Station.root, Nat.zero_add] at hlt

/-- Two stations of a walk with one number are the same. -/
theorem eq_of_id_eq {t : Station} (hs : s ∈ (Station.root e).visit)
    (ht : t ∈ (Station.root e).visit) (hid : s.id = t.id) : s = t :=
  Option.some.inj <| by
    rw [← getElem?_visit_root hs, ← getElem?_visit_root ht, hid]

theorem getElem?_preorder (hs : s ∈ (Station.root e).visit) : e.preorder[s.id]? = some s.expr := by
  change (Station.root e).expr.preorder[s.id]? = _
  rw [← Station.visit_expr, List.getElem?_map, getElem?_visit_root hs, Option.map_some]

theorem get?_ofExpr (hs : s ∈ (Station.root e).visit) : (ofExpr e).get? s.id = some s.place := by
  rw [get?, ← Array.getElem?_toList, entries_ofExpr, List.getElem?_map, getElem?_visit_root hs,
    Option.map_some]

theorem parentOf_ofExpr (hs : s ∈ (Station.root e).visit) :
    (ofExpr e).parentOf s.id = s.place.parent := by
  rw [parentOf, get?_ofExpr hs, Option.bind_some]

theorem childAt?_ofExpr (hs : s ∈ (Station.root e).visit) :
    (ofExpr e).childAt? e s.id = some s.toChild := by
  rw [childAt?, get?_ofExpr hs, getElem?_preorder hs]
  rfl

theorem get?_eq_none (hid : e.size ≤ id) : (ofExpr e).get? id = none := by
  rw [get?, Array.getElem?_eq_none_iff]
  exact Nat.le_trans (Nat.le_of_eq (size_ofExpr e)) hid

theorem parentOf_eq_none (hid : e.size ≤ id) : (ofExpr e).parentOf id = none := by
  rw [parentOf, get?_eq_none hid]
  rfl

/-! ## The way up -/

theorem ancestorsOf_eq_nil {table : ParentTable} (hid : table.parentOf id = none) :
    table.ancestorsOf id = [] := by
  rw [ancestorsOf, hid]

theorem ancestorsOf_eq_cons {table : ParentTable} {parent : Nat}
    (hid : table.parentOf id = some parent) (hlt : parent < id) :
    table.ancestorsOf id = parent :: table.ancestorsOf parent := by
  rw [ancestorsOf, hid]
  exact if_pos hlt

/-- The way up from a node is the way that the walk has taken to it. -/
theorem ancestorsOf_ofExpr :
    ∀ s ∈ (Station.root e).visit, (ofExpr e).ancestorsOf s.id = s.way.map Prod.fst := by
  refine Station.visit_induction ?_ fun p hp hway c hc => ?_
  · exact ancestorsOf_eq_nil (parentOf_ofExpr (Station.mem_visit_self _))
  · have hparent := parentOf_ofExpr (Station.mem_visit_of_childOf hp hc)
    have hchild := Station.childOf_of_mem hc
    rw [hchild.parent_eq] at hparent
    rw [ancestorsOf_eq_cons hparent hchild.id_lt, hway, hchild.way_eq, List.map_cons]

theorem depthOf_ofExpr (hs : s ∈ (Station.root e).visit) :
    (ofExpr e).depthOf s.id = s.way.length := by
  rw [depthOf, ancestorsOf_ofExpr s hs, List.length_map]

theorem climbs_way :
    ∀ s ∈ (Station.root e).visit, (ofExpr e).Climbs s.id (s.way.map Prod.fst) := by
  refine Station.visit_induction ?_ fun p hp hway c hc => ?_
  · exact .top (parentOf_ofExpr (Station.mem_visit_self _))
  · have hparent := parentOf_ofExpr (Station.mem_visit_of_childOf hp hc)
    have hchild := Station.childOf_of_mem hc
    rw [hchild.way_eq]
    exact .step (hparent.trans hchild.parent_eq) hway

/-- The way up from every node comes to its end. -/
theorem climbs_ofExpr (e : Expr) (id : Nat) : (ofExpr e).Climbs id ((ofExpr e).ancestorsOf id) := by
  rcases Nat.lt_or_ge id e.size with hid | hid
  · obtain ⟨s, hs, rfl⟩ := exists_station hid
    rw [ancestorsOf_ofExpr s hs]
    exact climbs_way s hs
  · have hparent := parentOf_eq_none hid
    rw [ancestorsOf_eq_nil hparent]
    exact .top hparent

/-- The numbers on the way up decrease down to that of the root. -/
theorem way_descends : ∀ s ∈ (Station.root e).visit,
    (s.id :: s.way.map Prod.fst).Pairwise (· > ·) ∧
      (s.id :: s.way.map Prod.fst).getLast? = some 0 := by
  refine Station.visit_induction ⟨List.pairwise_singleton _ _, rfl⟩ fun p _ hway c hc => ?_
  have hchild := Station.childOf_of_mem hc
  have habove : ∀ id ∈ p.way.map Prod.fst, p.id > id := (List.pairwise_cons.1 hway.1).1
  rw [hchild.way_eq, List.map_cons]
  refine ⟨List.pairwise_cons.2 ⟨fun id hid => ?_, hway.1⟩, ?_⟩
  · rcases List.mem_cons.1 hid with rfl | hid
    · exact hchild.id_lt
    · exact Nat.lt_trans (habove id hid) hchild.id_lt
  · rw [List.getLast?_cons_cons]
    exact hway.2

/-! ## The way down -/

/-- The children of a node in the table are its children in the walk. -/
theorem childrenOf_ofExpr (hp : p ∈ (Station.root e).visit) :
    (ofExpr e).childrenOf p.id = p.children.map Station.id := by
  have htable : ((ofExpr e).childrenOf p.id).Pairwise (· < ·) := List.pairwise_lt_range.filter _
  have hwalk : (p.children.map Station.id).Pairwise (· < ·) :=
    List.pairwise_map.2 (p.children_pairwise_before.imp Station.Before.id_lt)
  refine htable.sortedLT.eq_of_mem_iff hwalk.sortedLT fun id => ?_
  rw [childrenOf, List.mem_filter, List.mem_range, size_ofExpr, beq_iff_eq, List.mem_map]
  constructor
  · rintro ⟨hid, hparent⟩
    obtain ⟨s, hs, rfl⟩ := exists_station hid
    rw [parentOf_ofExpr hs] at hparent
    rcases Station.eq_or_mem_children_of_mem_visit s hs with rfl | ⟨q, hq, hsq⟩
    · cases hparent
    · have hqp : q.id = p.id :=
        Option.some.inj ((Station.childOf_of_mem hsq).parent_eq.symm.trans hparent)
      exact ⟨s, eq_of_id_eq hq hp hqp ▸ hsq, rfl⟩
  · rintro ⟨c, hc, rfl⟩
    have hmem := Station.mem_visit_of_childOf hp hc
    exact ⟨id_lt_of_mem hmem, (parentOf_ofExpr hmem).trans (Station.childOf_of_mem hc).parent_eq⟩

theorem ancestorsOf_descends (e : Expr) (id : Nat) :
    (id :: (ofExpr e).ancestorsOf id).Pairwise (· > ·) := by
  rcases Nat.lt_or_ge id e.size with hid | hid
  · obtain ⟨s, hs, rfl⟩ := exists_station hid
    rw [ancestorsOf_ofExpr s hs]
    exact (way_descends s hs).1
  · rw [ancestorsOf_eq_nil (parentOf_eq_none hid)]
    exact List.pairwise_singleton _ _

/-- Above every node but the root there is the root in the end. -/
theorem getLast?_ancestorsOf (hpos : 0 < id) (hid : id < e.size) :
    ((ofExpr e).ancestorsOf id).getLast? = some 0 := by
  obtain ⟨s, hs, rfl⟩ := exists_station hid
  have hlast := (way_descends s hs).2
  rw [ancestorsOf_ofExpr s hs]
  cases hway : s.way.map Prod.fst with
  | nil =>
      rw [hway] at hlast
      exact absurd (Option.some.inj hlast) (Nat.ne_of_gt hpos)
  | cons parent above => rwa [hway, List.getLast?_cons_cons] at hlast

/-- A tree is as deep as its deepest node. -/
theorem max?_depthOf (e : Expr) :
    ((List.range (ofExpr e).size).map (ofExpr e).depthOf).max? = some e.depth := by
  rw [List.max?_eq_some_iff, size_ofExpr, List.mem_map]
  constructor
  · obtain ⟨s, hs, hdeepest⟩ := Station.exists_way_length (.root e)
    refine ⟨s.id, List.mem_range.2 (id_lt_of_mem hs), ?_⟩
    rw [depthOf_ofExpr hs, hdeepest]
    exact Nat.zero_add _
  · intro d hd
    obtain ⟨id, hid, rfl⟩ := List.mem_map.1 hd
    obtain ⟨s, hs, rfl⟩ := exists_station (List.mem_range.1 hid)
    rw [depthOf_ofExpr hs]
    exact Nat.le_trans (Station.way_length_le s hs) (Nat.le_of_eq (Nat.zero_add _))

/-! ## The table and the walks -/

/-- The table says of a tree what the walks through it say. -/
structure Describes (table : ParentTable) (e : Expr) : Prop where
  /-- There is one entry for each node that the walk with a stack visits, -/
  size_eq : table.size = e.preorder.length
  /-- and the numbers of these are those from zero on. -/
  isSome_get?_iff : ∀ id, (table.get? id).isSome ↔ id < e.preorder.length
  /-- The walk that goes from a node to its children and counts as it goes on comes to the same
  nodes under these numbers, and finds the recorded places. -/
  visit_eq : (Station.root e).visit.map Station.id = List.range e.preorder.length ∧
    (Station.root e).visit.map Station.expr = e.preorder ∧
    (Station.root e).visit.map Station.place = table.entries.toList
  /-- The nodes with one parent are the children of this parent, under their keys and indices and in
  their order. -/
  children_eq : ∀ id x, e.preorder[id]? = some x →
    (table.childrenOf id).map (table.childAt? e) = x.toNode.children.map some
  /-- Every node but the root, which has no parent, is a child of its parent. -/
  parent_eq : ∀ id, id < e.preorder.length →
    id = 0 ∧ table.get? id = some ⟨none, "", none⟩ ∨
      ∃ parent x c, table.parentOf id = some parent ∧ e.preorder[parent]? = some x ∧
        table.childAt? e id = some c ∧ c ∈ x.toNode.children
  /-- The way up comes to its end, -/
  climbs : ∀ id, table.Climbs id (table.ancestorsOf id)
  /-- the numbers decrease on it, -/
  descends : ∀ id, (id :: table.ancestorsOf id).Pairwise (· > ·)
  /-- and unless it starts at the root it ends there. -/
  getLast?_eq : ∀ id, 0 < id → id < e.preorder.length →
    (table.ancestorsOf id).getLast? = some 0
  /-- The tree is as deep as its deepest node. -/
  max?_eq : ((List.range table.size).map table.depthOf).max? = some e.depth

theorem ofExpr_describes (e : Expr) : (ofExpr e).Describes e where
  size_eq := (size_ofExpr e).trans (length_preorder e).symm
  isSome_get?_iff id := by
    rw [get?, Option.isSome_iff_ne_none, Ne, Array.getElem?_eq_none_iff, Nat.not_le,
      length_preorder, ← size_ofExpr]
    exact Iff.rfl
  visit_eq := by
    rw [length_preorder]
    exact ⟨visit_root_id e, Station.visit_expr (.root e), (entries_ofExpr e).symm⟩
  children_eq id x hx := by
    obtain ⟨hid, _⟩ := List.getElem?_eq_some_iff.1 hx
    obtain ⟨p, hp, rfl⟩ := exists_station (length_preorder e ▸ hid)
    obtain rfl : p.expr = x := Option.some.inj ((getElem?_preorder hp).symm.trans hx)
    rw [childrenOf_ofExpr hp, ← p.children_toChild, List.map_map, List.map_map]
    exact List.map_congr_left fun c hc => childAt?_ofExpr (Station.mem_visit_of_childOf hp hc)
  parent_eq id hid := by
    obtain ⟨s, hs, rfl⟩ := exists_station (length_preorder e ▸ hid)
    rcases Station.eq_or_mem_children_of_mem_visit s hs with rfl | ⟨p, hp, hsp⟩
    · exact .inl ⟨rfl, get?_ofExpr hs⟩
    · refine .inr ⟨p.id, p.expr, s.toChild, ?_, getElem?_preorder hp, childAt?_ofExpr hs, ?_⟩
      · exact (parentOf_ofExpr hs).trans (Station.childOf_of_mem hsp).parent_eq
      · exact p.children_toChild ▸ List.mem_map_of_mem hsp
  climbs := climbs_ofExpr e
  descends := ancestorsOf_descends e
  getLast?_eq id hpos hid := getLast?_ancestorsOf hpos (length_preorder e ▸ hid)
  max?_eq := max?_depthOf e

end ParentTable

end SqlTree

import Mathlib.Algebra.GroupWithZero.Nat
import Mathlib.Algebra.Order.Group.Nat
import Mathlib.Algebra.Order.BigOperators.Group.List
import SqlTree.Proofs.Traversal
import SqlTree.Tree.Ancestry

/-!
# The stations of a walk

A node is known by where it stands and not by what stands there, since equal trees may stand at
several places.  A `Station` is a node together with its number, its place and the way to it.  The
stations of a walk that goes down before it goes on have the numbers that follow each other, and all
other walks and searches are compared with this one.
-/

namespace SqlTree

theorem foldr_max_le_iff {ds : List Nat} {k : Nat} :
    ds.foldr (fun d above => max (d + 1) above) 0 ≤ k ↔ ∀ d ∈ ds, d < k := by
  induction ds with
  | nil => simp
  | cons d ds ih => rw [List.foldr_cons, Nat.max_le, ih, List.forall_mem_cons, Nat.succ_le_iff]

theorem exists_mem_foldr_max {ds : List Nat} (hne : ds ≠ []) :
    ∃ d ∈ ds, ds.foldr (fun d above => max (d + 1) above) 0 = d + 1 := by
  induction ds with
  | nil => exact absurd rfl hne
  | cons d ds ih =>
      rw [List.foldr_cons]
      by_cases hlast : ds = []
      · subst hlast
        exact ⟨d, List.mem_cons_self, Nat.max_zero _⟩
      · obtain ⟨d', hd', hmax⟩ := ih hlast
        rw [hmax]
        rcases Nat.le_total (d' + 1) (d + 1) with hle | hle
        · exact ⟨d, List.mem_cons_self, Nat.max_eq_left hle⟩
        · exact ⟨d', List.mem_cons_of_mem _ hd', Nat.max_eq_right hle⟩

namespace Expr

theorem size_pos (e : Expr) : 0 < e.size := by
  rw [size_eq]
  omega

/-- The values that a fold gives to the children of a node. -/
theorem children_map_fold {α : Type} (algebra : Node α → α) (n : Node Expr) :
    (n.map (fold algebra)).children.map Child.expr = (node n).children.map (fold algebra) := by
  rw [Node.children_map, List.map_map, children, List.map_map]
  rfl

theorem depth_eq (e : Expr) :
    e.depth = (e.children.map depth).foldr (fun d above => max (d + 1) above) 0 := by
  obtain ⟨n⟩ := e
  rw [depth, fold_node, children_map_fold]

end Expr

/-- A node as a walk comes to it: its number, its place, the nodes on the way to it with their
numbers, the nearest first, and the tree that stands there. -/
structure Station where
  id : Nat
  place : ParentInfo
  way : List (Nat × Expr)
  expr : Expr

namespace Station

def root (e : Expr) : Station :=
  ⟨0, ⟨none, "", none⟩, [], e⟩

/-- The stations of children, of which the first has the number `next`.  Behind the number of a
child come those of all nodes below it, and then the number of its next sibling. -/
def childrenFrom (s : Station) : Nat → List (Child Expr) → List Station
  | _, [] => []
  | next, c :: cs =>
    ⟨next, ⟨some s.id, c.key, c.index⟩, (s.id, s.expr) :: s.way, c.expr⟩ ::
      s.childrenFrom (next + c.expr.size) cs

def children (s : Station) : List Station :=
  s.childrenFrom (s.id + 1) s.expr.toNode.children

/-- What a station is to its parent. -/
def toChild (s : Station) : Child Expr :=
  ⟨s.place.key, s.place.index, s.expr⟩

variable {s t c p : Station}

theorem childrenFrom_toChild (next : Nat) (cs : List (Child Expr)) :
    (s.childrenFrom next cs).map toChild = cs := by
  induction cs generalizing next with
  | nil => rfl
  | cons c cs ih =>
      rw [childrenFrom, List.map_cons, ih]
      rfl

theorem children_toChild (s : Station) : s.children.map toChild = s.expr.toNode.children :=
  childrenFrom_toChild _ _

theorem children_expr (s : Station) : s.children.map expr = s.expr.children := by
  rw [Expr.children, ← children_toChild, List.map_map]
  rfl

/-- What a node hands on to its children. -/
structure ChildOf (c p : Station) : Prop where
  parent_eq : c.place.parent = some p.id
  way_eq : c.way = (p.id, p.expr) :: p.way
  id_lt : p.id < c.id

theorem childOf_of_mem_childrenFrom {next : Nat} {cs : List (Child Expr)} (hnext : s.id < next)
    (hc : c ∈ s.childrenFrom next cs) : c.ChildOf s := by
  induction cs generalizing next with
  | nil => cases hc
  | cons child cs ih =>
      rcases List.mem_cons.1 hc with rfl | hc
      · exact ⟨rfl, rfl, hnext⟩
      · exact ih (by omega) hc

theorem childOf_of_mem (hc : c ∈ s.children) : c.ChildOf s :=
  childOf_of_mem_childrenFrom (Nat.lt_succ_self _) hc

theorem le_id_of_mem_childrenFrom {next : Nat} {cs : List (Child Expr)}
    (hc : c ∈ s.childrenFrom next cs) : next ≤ c.id := by
  induction cs generalizing next with
  | nil => cases hc
  | cons child cs ih =>
      rcases List.mem_cons.1 hc with rfl | hc
      · exact Nat.le_refl _
      · exact Nat.le_trans (Nat.le_add_right _ _) (ih hc)

/-- The numbers of a station and of all below it are smaller than those of its later siblings. -/
def Before (s t : Station) : Prop :=
  s.id + s.expr.size ≤ t.id

theorem Before.id_lt (hst : s.Before t) : s.id < t.id :=
  Nat.lt_of_lt_of_le (Nat.lt_add_of_pos_right s.expr.size_pos) hst

theorem children_pairwise_before (s : Station) : s.children.Pairwise Before := by
  rw [children]
  generalize s.id + 1 = next
  induction s.expr.toNode.children generalizing next with
  | nil => exact .nil
  | cons c cs ih => exact List.pairwise_cons.2 ⟨fun _ => le_id_of_mem_childrenFrom, ih _⟩

theorem size_lt_of_mem (hc : c ∈ s.children) : c.expr.size < s.expr.size := by
  have hsize : c.expr.size ∈ s.expr.children.map Expr.size :=
    List.mem_map_of_mem (children_expr s ▸ List.mem_map_of_mem hc)
  have hle := List.le_sum_of_mem hsize
  rw [Expr.size_eq s.expr]
  omega

/-- What holds of a station whenever it holds of its children holds of every station. -/
theorem induction {P : Station → Prop} (step : ∀ s : Station, (∀ c ∈ s.children, P c) → P s)
    (s : Station) : P s := by
  induction hk : s.expr.size using Nat.strongRecOn generalizing s with
  | ind k ih => exact step s fun c hc => ih c.expr.size (hk ▸ size_lt_of_mem hc) c rfl

/-- The stations of a walk that starts at a given one: that one, and then those of the walks that
start at its children. -/
def visit (s : Station) : List Station :=
  s :: s.children.attach.flatMap fun c => c.1.visit
termination_by s.expr.size
decreasing_by exact size_lt_of_mem c.2

theorem visit_eq (s : Station) : s.visit = s :: s.children.flatMap visit := by
  rw [visit, List.flatMap_def, List.flatMap_def, List.attach_map_val]

theorem mem_visit_self (s : Station) : s ∈ s.visit := by
  rw [visit_eq]
  exact List.mem_cons_self

theorem mem_visit_of_mem_children (hc : c ∈ s.children) (ht : t ∈ c.visit) : t ∈ s.visit := by
  rw [visit_eq]
  exact List.mem_cons_of_mem _ (List.mem_flatMap.2 ⟨c, hc, ht⟩)

/-- What holds of the first station of a walk, and of the children of each station of which it
holds, holds of all stations of the walk. -/
theorem visit_induction {P : Station → Prop} (hs : P s)
    (step : ∀ p ∈ s.visit, P p → ∀ c ∈ p.children, P c) : ∀ t ∈ s.visit, P t := by
  induction s using induction with
  | step s ih =>
      intro t ht
      rw [visit_eq] at ht
      rcases List.mem_cons.1 ht with rfl | ht
      · exact hs
      · obtain ⟨c, hc, ht⟩ := List.mem_flatMap.1 ht
        exact ih c hc (step s (mem_visit_self s) hs c hc)
          (fun p hp => step p (mem_visit_of_mem_children hc hp)) t ht

/-- The children of the stations of a walk are stations of the walk. -/
theorem mem_visit_of_childOf (hp : p ∈ s.visit) (hc : c ∈ p.children) : c ∈ s.visit := by
  induction s using induction with
  | step s ih =>
      rw [visit_eq] at hp
      rcases List.mem_cons.1 hp with rfl | hp
      · exact mem_visit_of_mem_children hc (mem_visit_self c)
      · obtain ⟨d, hd, hp⟩ := List.mem_flatMap.1 hp
        exact mem_visit_of_mem_children hd (ih d hd hp)

theorem eq_or_mem_children_of_mem_visit :
    ∀ t ∈ s.visit, t = s ∨ ∃ p ∈ s.visit, t ∈ p.children :=
  visit_induction (.inl rfl) fun p hp _ _ hc => .inr ⟨p, hp, hc⟩

/-! ## Numbers, nodes and places -/

/-- A walk comes to the nodes in the order of the pre-order. -/
theorem visit_expr (s : Station) : s.visit.map expr = s.expr.preorder := by
  induction s using induction with
  | step s ih =>
      rw [visit_eq, Expr.preorder_eq, List.map_cons, List.map_flatMap, ← children_expr,
        List.flatMap_map]
      exact congrArg _ (List.flatMap_congr ih)

theorem visit_id_childrenFrom {next : Nat} {cs : List (Child Expr)}
    (hcs : ∀ c ∈ s.childrenFrom next cs, c.visit.map id = List.range' c.id c.expr.size) :
    ((s.childrenFrom next cs).flatMap visit).map id =
      List.range' next (cs.map fun c => c.expr.size).sum := by
  induction cs generalizing next with
  | nil => rfl
  | cons c cs ih =>
      rw [childrenFrom] at hcs ⊢
      obtain ⟨hc, hcs⟩ := List.forall_mem_cons.1 hcs
      rw [List.flatMap_cons, List.map_append, hc, ih hcs, List.map_cons, List.sum_cons,
        List.range'_append_1]

/-- The numbers of a walk follow each other. -/
theorem visit_id (s : Station) : s.visit.map id = List.range' s.id s.expr.size := by
  induction s using induction with
  | step s ih =>
      rw [visit_eq, List.map_cons, children, visit_id_childrenFrom ih, Expr.size_eq,
        Nat.add_comm 1, List.range'_succ, Expr.children, List.map_map]
      rfl

theorem id_bounds (ht : t ∈ s.visit) : s.id ≤ t.id ∧ t.id < s.id + s.expr.size := by
  have hmem := List.mem_map_of_mem (f := id) ht
  rwa [visit_id, List.mem_range'_1] at hmem

theorem visit_length (s : Station) : s.visit.length = s.expr.size := by
  rw [← List.length_map (f := id), visit_id, List.length_range']

end Station

namespace ParentTable

theorem placesBelow_eq (e : Expr) (id : Nat) (place : ParentInfo) :
    placesBelow e id place =
      place :: ofChildren id (id + 1) (e.toNode.children.map (Child.map placesBelow)) := by
  obtain ⟨n⟩ := e
  rw [placesBelow, Expr.fold_node, Node.children_map]
  rfl

end ParentTable

namespace Station

variable {s : Station}

theorem visit_place_childrenFrom {next : Nat} {cs : List (Child Expr)}
    (hcs : ∀ c ∈ s.childrenFrom next cs,
      c.visit.map place = ParentTable.placesBelow c.expr c.id c.place) :
    ((s.childrenFrom next cs).flatMap visit).map place =
      ParentTable.ofChildren s.id next (cs.map (Child.map ParentTable.placesBelow)) := by
  induction cs generalizing next with
  | nil => rfl
  | cons c cs ih =>
      rw [childrenFrom] at hcs ⊢
      obtain ⟨hc, hcs⟩ := List.forall_mem_cons.1 hcs
      have hlength : (ParentTable.placesBelow c.expr next ⟨some s.id, c.key, c.index⟩).length =
          c.expr.size := by
        rw [← hc, List.length_map, visit_length]
      rw [List.flatMap_cons, List.map_append, hc, ih hcs, List.map_cons, ParentTable.ofChildren]
      simp only [Child.map, hlength]

/-- The places are recorded in the order in which the walk comes to the nodes. -/
theorem visit_place (s : Station) :
    s.visit.map place = ParentTable.placesBelow s.expr s.id s.place := by
  induction s using induction with
  | step s ih =>
      rw [visit_eq, List.map_cons, children, visit_place_childrenFrom ih,
        ParentTable.placesBelow_eq]

/-! ## Depth -/

theorem way_length_of_mem {c : Station} (hc : c ∈ s.children) :
    c.way.length = s.way.length + 1 := by
  rw [(childOf_of_mem hc).way_eq, List.length_cons]

/-- No way in a walk is longer than the tree is deep. -/
theorem way_length_le : ∀ t ∈ s.visit, t.way.length ≤ s.way.length + s.expr.depth := by
  induction s using induction with
  | step s ih =>
      intro t ht
      rw [visit_eq] at ht
      rcases List.mem_cons.1 ht with rfl | ht
      · exact Nat.le_add_right _ _
      · obtain ⟨c, hc, ht⟩ := List.mem_flatMap.1 ht
        have hle := ih c hc t ht
        have hdepth : c.expr.depth < s.expr.depth := by
          rw [s.expr.depth_eq]
          refine foldr_max_le_iff.1 (Nat.le_refl _) _ (List.mem_map_of_mem ?_)
          exact children_expr s ▸ List.mem_map_of_mem hc
        rw [way_length_of_mem hc] at hle
        omega

/-- Some way in a walk is as long as the tree is deep. -/
theorem exists_way_length (s : Station) :
    ∃ t ∈ s.visit, t.way.length = s.way.length + s.expr.depth := by
  induction s using induction with
  | step s ih =>
      rw [s.expr.depth_eq, ← children_expr, List.map_map]
      by_cases hleaf : s.children = []
      · refine ⟨s, mem_visit_self s, ?_⟩
        rw [hleaf]
        rfl
      · obtain ⟨d, hd, hdepth⟩ := exists_mem_foldr_max (List.map_eq_nil_iff.not.2 hleaf)
        obtain ⟨c, hc, rfl⟩ := List.mem_map.1 hd
        obtain ⟨t, ht, hway⟩ := ih c hc
        refine ⟨t, mem_visit_of_mem_children hc ht, ?_⟩
        rw [hdepth, hway, way_length_of_mem hc, Function.comp]
        omega

end Station

end SqlTree

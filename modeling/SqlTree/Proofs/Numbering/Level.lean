import SqlTree.Proofs.Numbering.Ancestry

/-!
# Levels

A walk with a queue goes through a tree level by level: the nodes that are in the queue at the
same time belong to two levels at most, those of the first in front, and each level is in the
order of the numbers.  So this walk is the pre-order, sorted by depth in a way that keeps the
order of nodes that are equally deep.
-/

namespace SqlTree

open scoped List

/-- Sorting by a key keeps the order of members with the same key. -/
theorem mergeSort_key_pairwise {α : Type} (key : α → Nat) {R : α → α → Prop} {xs : List α}
    (hxs : xs.Pairwise R) :
    (xs.mergeSort fun a b => key a ≤ key b).Pairwise fun a b =>
      key a ≤ key b ∧ (key b ≤ key a → R a b) := by
  have htrans : ∀ a b c : α, decide (key a ≤ key b) → decide (key b ≤ key c) →
      decide (key a ≤ key c) := fun a b c hab hbc =>
    decide_eq_true (Nat.le_trans (of_decide_eq_true hab) (of_decide_eq_true hbc))
  have htotal : ∀ a b : α, decide (key a ≤ key b) || decide (key b ≤ key a) := fun a b => by
    simp [Nat.le_total]
  induction xs with
  | nil =>
      rw [List.mergeSort_nil]
      exact .nil
  | cons x xs ih =>
      obtain ⟨hx, hxs⟩ := List.pairwise_cons.1 hxs
      obtain ⟨before, after, hcons, hsort, hbefore⟩ := List.mergeSort_cons htrans htotal x xs
      have hle := (List.pairwise_mergeSort htrans htotal (x :: xs)).imp of_decide_eq_true
      have hall := ih hxs
      rw [hcons] at hle ⊢
      rw [hsort] at hall
      obtain ⟨-, hleAfter, hleAcross⟩ := List.pairwise_append.1 hle
      obtain ⟨hallBefore, hallAfter, hallAcross⟩ := List.pairwise_append.1 hall
      have hafter : ∀ y ∈ after, R x y := fun y hy =>
        hx y (List.mem_mergeSort.1 (hsort ▸ List.mem_append_right _ hy))
      refine List.pairwise_append.2 ⟨hallBefore, ?_, ?_⟩
      · refine List.pairwise_cons.2 ⟨fun y hy => ⟨?_, fun _ => hafter y hy⟩, hallAfter⟩
        exact (List.pairwise_cons.1 hleAfter).1 y hy
      · intro y hy z hz
        rcases List.mem_cons.1 hz with rfl | hz
        · have hlt : ¬ key z ≤ key y := by simpa using hbefore y hy
          exact ⟨hleAcross y hy _ hz, fun hle => absurd hle hlt⟩
        · exact hallAcross y hy z hz

namespace Station

variable {s t c : Station} {xs ys : List Station} {d : Nat}

theorem sum_size_children (s : Station) :
    (s.children.map fun c => c.expr.size).sum + 1 = s.expr.size := by
  rw [Expr.size_eq s.expr, ← children_expr, List.map_map, Nat.add_comm]
  rfl

/-- The stations in a queue and all those below them, in the order in which the queue gives them
out: the first one leaves it, and its children go to its end. -/
def queued : List Station → List Station
  | [] => []
  | s :: queue => s :: queued (queue ++ s.children)
termination_by queue => (queue.map fun s => s.expr.size).sum
decreasing_by
  rw [List.map_append, List.sum_append, List.map_cons, List.sum_cons, ← sum_size_children s]
  omega

/-- A queue gives out all that is in its front before it gives out what these have put at its
end. -/
theorem queued_append (xs ys : List Station) :
    queued (xs ++ ys) = xs ++ queued (ys ++ xs.flatMap children) := by
  induction xs generalizing ys with
  | nil =>
      rw [List.flatMap_nil, List.append_nil]
      rfl
  | cons x xs ih =>
      rw [List.cons_append, queued, List.append_assoc, ih, List.flatMap_cons, List.append_assoc]
      rfl

theorem queued_eq (xs : List Station) : queued xs = xs ++ queued (xs.flatMap children) := by
  have happend := queued_append xs []
  rwa [List.append_nil, List.nil_append] at happend

theorem sum_size_level (xs : List Station) :
    ((xs.flatMap children).map fun c => c.expr.size).sum + xs.length =
      (xs.map fun s => s.expr.size).sum := by
  induction xs with
  | nil => rfl
  | cons x xs ih =>
      have hx := sum_size_children x
      rw [List.flatMap_cons, List.map_append, List.sum_append, List.map_cons,
        List.sum_cons, List.length_cons]
      omega

/-- What holds of a level whenever it holds of the next one holds of every level. -/
theorem level_induction {P : List Station → Prop} (nil : P [])
    (step : ∀ s xs, P ((s :: xs).flatMap children) → P (s :: xs)) (xs : List Station) : P xs := by
  induction hk : (xs.map fun s => s.expr.size).sum using Nat.strongRecOn generalizing xs with
  | ind k ih =>
      cases xs with
      | nil => exact nil
      | cons s xs =>
          have hlevel := sum_size_level (s :: xs)
          rw [List.length_cons] at hlevel
          exact step s xs (ih _ (by omega) _ rfl)

/-- The nodes come out of the queue level by level. -/
theorem queued_expr (xs : List Station) : (queued xs).map expr = Expr.levelsOf (xs.map expr) := by
  induction xs using level_induction with
  | nil => rw [queued, List.map_nil, Expr.levelsOf]
  | step s xs ih =>
      have hnext : ((s :: xs).flatMap children).map expr =
          Expr.nextLevel (s.expr :: xs.map expr) := by
        rw [Expr.nextLevel, ← List.map_cons, List.map_flatMap, List.flatMap_map]
        exact List.flatMap_congr fun x _ => children_expr x
      rw [queued_eq, List.map_append, ih, hnext, List.map_cons, Expr.levelsOf]

/-- The queue gives out every station of the walks that start at its stations once. -/
theorem queued_perm (xs : List Station) : queued xs ~ xs.flatMap visit := by
  induction xs using level_induction with
  | nil =>
      rw [queued]
      rfl
  | step s xs ih =>
      have hvisit : (s :: xs).flatMap visit =
          (s :: xs).flatMap fun x => [x] ++ x.children.flatMap visit :=
        List.flatMap_congr fun x _ => visit_eq x
      have hsplit := List.flatMap_append_perm (s :: xs) (fun x => [x])
        fun x => x.children.flatMap visit
      rw [queued_eq, hvisit]
      refine .trans ?_ hsplit
      rw [List.flatMap_singleton', ← List.flatMap_assoc]
      exact ih.append_left _

/-! ## The order of a level -/

/-- The stations are equally deep, and the numbers of each and of all below it are smaller than
those of the later ones. -/
structure IsLevel (d : Nat) (xs : List Station) : Prop where
  depth_eq : ∀ s ∈ xs, s.way.length = d
  before : xs.Pairwise Before

theorem add_size_le_of_mem_childrenFrom {next : Nat} {cs : List (Child Expr)}
    (hc : c ∈ s.childrenFrom next cs) :
    c.id + c.expr.size ≤ next + (cs.map fun c => c.expr.size).sum := by
  induction cs generalizing next with
  | nil => cases hc
  | cons child cs ih =>
      rw [List.map_cons, List.sum_cons]
      rcases List.mem_cons.1 hc with rfl | hc
      · exact Nat.add_le_add_left (Nat.le_add_right _ _) _
      · have := ih hc
        omega

/-- The numbers below a child are among those below its parent. -/
theorem add_size_le_of_mem (hc : c ∈ s.children) : c.id + c.expr.size ≤ s.id + s.expr.size := by
  have hle := add_size_le_of_mem_childrenFrom hc
  rw [Nat.add_assoc] at hle
  rw [Expr.size_eq s.expr, Expr.children, List.map_map]
  exact hle

/-- The children of a level are a level. -/
theorem IsLevel.next (hxs : IsLevel d xs) : IsLevel (d + 1) (xs.flatMap children) where
  depth_eq c hc := by
    obtain ⟨s, hs, hc⟩ := List.mem_flatMap.1 hc
    rw [way_length_of_mem hc, hxs.depth_eq s hs]
  before := by
    refine List.pairwise_flatMap.2 ⟨fun s _ => s.children_pairwise_before, ?_⟩
    refine hxs.before.imp fun {s t} hst a ha b hb => ?_
    have hle := add_size_le_of_mem ha
    have hlt := (childOf_of_mem hb).id_lt
    rw [Before] at hst ⊢
    omega

/-- A station that is less deep, or equally deep and with a smaller number. -/
def Precedes (s t : Station) : Prop :=
  s.way.length ≤ t.way.length ∧ (t.way.length ≤ s.way.length → s.id < t.id)

theorem IsLevel.queued_pairwise (hxs : IsLevel d xs) :
    (queued xs).Pairwise Precedes ∧ ∀ t ∈ queued xs, d ≤ t.way.length := by
  induction xs using level_induction generalizing d with
  | nil =>
      rw [queued]
      exact ⟨.nil, nofun⟩
  | step s xs ih =>
      obtain ⟨hbelow, hdeeper⟩ := ih hxs.next
      rw [queued_eq]
      refine ⟨List.pairwise_append.2 ⟨?_, hbelow, fun a ha b hb => ?_⟩, fun t ht => ?_⟩
      · refine hxs.before.imp_of_mem fun {a b} ha hb hab => ?_
        have hdepth := (hxs.depth_eq a ha).trans (hxs.depth_eq b hb).symm
        exact ⟨Nat.le_of_eq hdepth, fun _ => hab.id_lt⟩
      · have hda := hxs.depth_eq a ha
        have hdb := hdeeper b hb
        exact ⟨by omega, fun hle => by omega⟩
      · rcases List.mem_append.1 ht with ht | ht
        · exact Nat.le_of_eq (hxs.depth_eq t ht).symm
        · exact Nat.le_of_succ_le (hdeeper t ht)

theorem isLevel_singleton (s : Station) : IsLevel s.way.length [s] where
  depth_eq _ ht := by rw [List.mem_singleton.1 ht]
  before := List.pairwise_singleton _ _

end Station

namespace Expr

open Station ParentTable

variable {e : Expr}

/-- The numbers of the nodes in the order in which a queue gives them out. -/
def levelNumbers (e : Expr) : List Nat :=
  (queued [root e]).map Station.id

theorem mem_visit_of_mem_queued {s : Station} (hs : s ∈ queued [root e]) : s ∈ (root e).visit := by
  have hperm := queued_perm [root e]
  rw [List.flatMap_singleton] at hperm
  exact hperm.subset hs

theorem levelNumbers_perm (e : Expr) : e.levelNumbers ~ List.range e.size := by
  have hperm := (queued_perm [root e]).map Station.id
  rwa [List.flatMap_singleton, visit_root_id] at hperm

/-- The nodes in the order of their levels are those with these numbers. -/
theorem levelOrder_eq (e : Expr) :
    e.levelOrder.map some = e.levelNumbers.map fun id => e.preorder[id]? := by
  have hqueued : (queued [root e]).map Station.expr = e.levelOrder := queued_expr [root e]
  rw [← hqueued, levelNumbers, List.map_map, List.map_map]
  exact List.map_congr_left fun s hs => (getElem?_preorder (mem_visit_of_mem_queued hs)).symm

theorem levelNumbers_pairwise (e : Expr) :
    e.levelNumbers.Pairwise fun a b => (ofExpr e).depthOf a ≤ (ofExpr e).depthOf b ∧
      ((ofExpr e).depthOf b ≤ (ofExpr e).depthOf a → a < b) := by
  refine List.pairwise_map.2 ((isLevel_singleton (root e)).queued_pairwise.1.imp_of_mem ?_)
  intro s t hs ht hst
  rw [depthOf_ofExpr (mem_visit_of_mem_queued hs), depthOf_ofExpr (mem_visit_of_mem_queued ht)]
  exact hst

theorem levelNumbers_eq_mergeSort (e : Expr) :
    e.levelNumbers = (List.range e.size).mergeSort
      (fun a b => (ofExpr e).depthOf a ≤ (ofExpr e).depthOf b) := by
  have hsorted := mergeSort_key_pairwise (ofExpr e).depthOf (List.pairwise_lt_range (n := e.size))
  -- There is only one order that goes by depth first and by number then.
  refine List.Perm.eq_of_pairwise (fun a b _ _ hab hba => ?_) e.levelNumbers_pairwise hsorted
    (e.levelNumbers_perm.trans (List.mergeSort_perm _ _).symm)
  have hlt := hab.2 hba.1
  have hgt := hba.2 hab.1
  omega

/-- A walk with a queue visits the nodes of a tree in the order of their depths, and those that are
equally deep in the order of the walk with a stack: its numbers are those from zero on, sorted by
depth in a way that keeps their order. -/
theorem levelOrder_sorted (e : Expr) :
    (queued [root e]).map Station.expr = e.levelOrder ∧
      e.levelOrder.map some = e.levelNumbers.map (fun id => e.preorder[id]?) ∧
      e.levelNumbers = (List.range e.preorder.length).mergeSort
        (fun a b => (ofExpr e).depthOf a ≤ (ofExpr e).depthOf b) ∧
      e.levelNumbers ~ List.range e.preorder.length ∧
      (e.levelNumbers.map (ofExpr e).depthOf).Pairwise (· ≤ ·) ∧
      e.levelNumbers.Pairwise fun a b => (ofExpr e).depthOf a = (ofExpr e).depthOf b → a < b := by
  have hpairwise := e.levelNumbers_pairwise
  rw [length_preorder]
  refine ⟨queued_expr _, levelOrder_eq e, levelNumbers_eq_mergeSort e, levelNumbers_perm e, ?_, ?_⟩
  · exact List.pairwise_map.2 (hpairwise.imp And.left)
  · exact hpairwise.imp fun hab heq => hab.2 (Nat.le_of_eq heq.symm)

end Expr

end SqlTree

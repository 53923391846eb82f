import Mathlib.Data.List.Find
import SqlTree.Proofs.Mapping
import SqlTree.Proofs.Numbering.Ancestry

/-!
# Searching for what is above a node

The searches for the parent and for an ancestor of a node know the node by where it is and not by
what it looks like.  To say so, the nodes get addresses: any numbers, as long as different nodes
have different ones.  Then the searches for an address find what the parent table says of the node
that has it, and nothing for an address at which there is no node of the tree.
-/

namespace SqlTree

namespace Numbered

/-! ## Numbered trees -/

theorem parentAmong?_eq (target parent : Nat) (cs : List Numbered) :
    parentAmong? target parent cs =
      cs.findSome? fun c => if c.id = target then some parent else parentOf? target c := by
  induction cs with
  | nil => rfl
  | cons c cs ih =>
      rw [parentAmong?, List.findSome?_cons, ih]
      by_cases hc : c.id = target
      · rw [if_pos hc, if_pos hc]
      · rw [if_neg hc, if_neg hc]
        cases parentOf? target c <;> rfl

theorem wayAmong?_eq (target : Nat) (way : List (Nat × Expr)) (cs : List Numbered) :
    wayAmong? target way cs = cs.findSome? (wayTo? target way) := by
  induction cs with
  | nil => rfl
  | cons c cs ih =>
      rw [wayAmong?, List.findSome?_cons, ih]
      cases wayTo? target way c <;> rfl

/-- The nearest node above the one with the number `target` that satisfies a test. -/
def ancestorOf? (target : Nat) (test : Expr → Bool) (t : Numbered) : Option Nat :=
  (t.wayTo? target []).bind fun way =>
    (way.find? fun (_, ancestor) => test ancestor).map Prod.fst

mutual

/-- The same tree, with the numbers of its nodes replaced by their addresses. -/
def relocate (address : Nat → Nat) : Numbered → Numbered
  | .node id expr children => .node (address id) expr (relocateAll address children)

/-- The same trees, with the numbers of their nodes replaced by their addresses. -/
def relocateAll (address : Nat → Nat) : List Numbered → List Numbered
  | [] => []
  | c :: cs => relocate address c :: relocateAll address cs

end

theorem relocateAll_eq (address : Nat → Nat) (cs : List Numbered) :
    relocateAll address cs = cs.map (relocate address) := by
  induction cs with
  | nil => rfl
  | cons c cs ih => rw [relocateAll, ih, List.map_cons]

mutual

theorem relocate_self : (t : Numbered) → relocate (fun id => id) t = t
  | .node id expr children => by rw [relocate, relocateAll_self children]

theorem relocateAll_self : (ts : List Numbered) → relocateAll (fun id => id) ts = ts
  | [] => rfl
  | t :: ts => by rw [relocateAll, relocate_self t, relocateAll_self ts]

end

/-- A node before it has a number, from its children. -/
def Unnumbered.ofNode (n : Node Unnumbered) : Unnumbered :=
  let expr := Expr.node (n.map Unnumbered.expr)
  let below := n.children.map Child.expr
  { expr
    size := 1 + (below.map Unnumbered.size).sum
    number :=
      fun id => .node id expr (ofChildren (id + 1) (below.map fun u => (u.size, u.number))) }

theorem fold_ofNode_expr (e : Expr) : (e.fold Unnumbered.ofNode).expr = e := by
  induction e using Expr.induction with
  | step n ih =>
      rw [Expr.fold_node]
      exact congrArg Expr.node (n.map_map_same _ ih)

theorem fold_ofNode_size (e : Expr) : (e.fold Unnumbered.ofNode).size = e.size := by
  induction e using Expr.induction with
  | step n ih =>
      have hchildren : ∀ c ∈ (Expr.node n).children, (c.fold Unnumbered.ofNode).size = c.size :=
        fun c hc => ih c (n.held_perm_children.mem_iff.2 (List.mem_append_left _ hc))
      rw [Expr.fold_node, Unnumbered.ofNode, Expr.children_map_fold, List.map_map, Expr.size_eq]
      exact congrArg (fun sizes => 1 + sizes.sum) (List.map_congr_left hchildren)

/-- The numbers of a tree: the root has the first one. -/
theorem ofExpr_eq (e : Expr) (id : Nat) :
    ofExpr e id =
      .node id e (ofChildren (id + 1) (e.children.map fun c => (c.size, ofExpr c))) := by
  have hexpr := fold_ofNode_expr e
  obtain ⟨n⟩ := e
  change (Expr.fold Unnumbered.ofNode (.node n)).number id = _
  rw [Expr.fold_node, Unnumbered.ofNode] at hexpr ⊢
  rw [Expr.children_map_fold]
  simp only at hexpr ⊢
  rw [hexpr, List.map_map]
  congr 2
  exact List.map_congr_left fun c _ => congrArg (·, ofExpr c) (fold_ofNode_size c)

end Numbered

namespace Station

variable {s t c p : Station} {address : Nat → Nat} {target : Nat}

open Numbered

/-- The numbered tree that stands at a station, at the addresses of its nodes. -/
def located (address : Nat → Nat) (s : Station) : Numbered :=
  (ofExpr s.expr s.id).relocate address

/-- The way to a station, with the addresses of the nodes on it. -/
def locatedWay (address : Nat → Nat) (s : Station) : List (Nat × Expr) :=
  s.way.map fun above => (address above.1, above.2)

theorem ChildOf.locatedWay_eq (hc : c.ChildOf p) :
    c.locatedWay address = (address p.id, p.expr) :: p.locatedWay address := by
  rw [locatedWay, hc.way_eq]
  rfl

theorem ofChildren_childrenFrom (next : Nat) (cs : List (Child Expr)) :
    Numbered.ofChildren next ((cs.map Child.expr).map fun c => (c.size, ofExpr c)) =
      (s.childrenFrom next cs).map fun c => ofExpr c.expr c.id := by
  induction cs generalizing next with
  | nil => rfl
  | cons c cs ih =>
      rw [List.map_cons, List.map_cons, Numbered.ofChildren, ih, childrenFrom, List.map_cons]

theorem located_eq (s : Station) :
    s.located address = .node (address s.id) s.expr (s.children.map (located address)) := by
  rw [located, ofExpr_eq, relocate, relocateAll_eq, Expr.children,
    ofChildren_childrenFrom (s := s), List.map_map]
  rfl

theorem located_id (s : Station) : (s.located address).id = address s.id := by
  rw [located_eq]
  rfl

theorem parentOf?_located (s : Station) :
    (s.located address).parentOf? target = s.children.findSome? fun c =>
      if address c.id = target then some (address s.id)
      else (c.located address).parentOf? target := by
  rw [located_eq, parentOf?, parentAmong?_eq, List.findSome?_map]
  refine congrArg (List.findSome? · _) (funext fun c => ?_)
  rw [Function.comp, located_id]

theorem wayTo?_located (s : Station) (way : List (Nat × Expr)) :
    (s.located address).wayTo? target way =
      if address s.id = target then some way
      else s.children.findSome? fun c =>
        (c.located address).wayTo? target ((address s.id, s.expr) :: way) := by
  rw [located_eq, wayTo?, wayAmong?_eq, List.findSome?_map]
  rfl

/-! ## Addresses at which there is no node -/

theorem parentOf?_located_eq_none (h : ∀ c ∈ s.children, ∀ p ∈ c.visit, address p.id ≠ target) :
    (s.located address).parentOf? target = none := by
  induction s using induction with
  | step s ih =>
      rw [parentOf?_located, List.findSome?_eq_none_iff]
      intro c hc
      rw [if_neg (h c hc c (mem_visit_self c))]
      exact ih c hc fun d hd p hp => h c hc p (mem_visit_of_mem_children hd hp)

theorem wayTo?_located_eq_none (way : List (Nat × Expr))
    (h : ∀ p ∈ s.visit, address p.id ≠ target) :
    (s.located address).wayTo? target way = none := by
  induction s using induction generalizing way with
  | step s ih =>
      rw [wayTo?_located, if_neg (h s (mem_visit_self s)), List.findSome?_eq_none_iff]
      exact fun c hc => ih c hc _ fun p hp => h p (mem_visit_of_mem_children hc hp)

/-! ## Addresses of nodes -/

/-- A search among children finds what it finds at one of them if it finds nothing at those
before. -/
theorem findSome?_children {α : Type} {f : Station → Option α} {found : α} (hc : c ∈ s.children)
    (hfound : f c = some found) (hbefore : ∀ x ∈ s.children, x.Before c → f x = none) :
    s.children.findSome? f = some found := by
  obtain ⟨before, after, hsplit⟩ := List.append_of_mem hc
  refine List.findSome?_eq_some_iff.2 ⟨before, c, after, hsplit, hfound, fun x hx => ?_⟩
  have hpairwise := s.children_pairwise_before
  rw [hsplit] at hpairwise
  refine hbefore x ?_ ((List.pairwise_append.1 hpairwise).2.2 x hx c List.mem_cons_self)
  rw [hsplit]
  exact List.mem_append_left _ hx

/-- Of the stations of the walk that starts at `s`, none but `t` has the address of `t`. -/
def AloneIn (address : Nat → Nat) (t s : Station) : Prop :=
  ∀ q ∈ s.visit, q.id ≠ t.id → address q.id ≠ address t.id

theorem AloneIn.child (halone : t.AloneIn address s) (hc : c ∈ s.children) : t.AloneIn address c :=
  fun q hq => halone q (mem_visit_of_mem_children hc hq)

theorem AloneIn.ne_of_before {x : Station} (halone : t.AloneIn address s) (hx : x ∈ s.children)
    (hbefore : x.Before c) (ht : t ∈ c.visit) : ∀ q ∈ x.visit, address q.id ≠ address t.id := by
  intro q hq
  have hlt : q.id < t.id := calc
    q.id < x.id + x.expr.size := (id_bounds hq).2
    _ ≤ c.id := hbefore
    _ ≤ t.id := (id_bounds ht).1
  exact halone.child hx q hq (Nat.ne_of_lt hlt)

theorem id_lt_of_mem_children (hc : c ∈ s.children) (ht : t ∈ c.visit) : s.id < t.id :=
  Nat.lt_of_lt_of_le (childOf_of_mem hc).id_lt (id_bounds ht).1

/-- The search for the parent of a child of a node finds that node. -/
theorem parentOf?_located_of_mem (hp : p ∈ s.visit) (ht : t ∈ p.children)
    (halone : t.AloneIn address s) :
    (s.located address).parentOf? (address t.id) = some (address p.id) := by
  induction s using induction with
  | step s ih =>
      -- Nothing is found at the siblings before the one that `t` is or is below.
      have hnone : ∀ c, t ∈ c.visit → ∀ x ∈ s.children, x.Before c →
          (if address x.id = address t.id then some (address s.id)
            else (x.located address).parentOf? (address t.id)) = none := by
        intro c htc x hx hbefore
        have hne := halone.ne_of_before hx hbefore htc
        rw [if_neg (hne x (mem_visit_self x))]
        exact parentOf?_located_eq_none fun d hd q hq => hne q (mem_visit_of_mem_children hd hq)
      rw [parentOf?_located]
      rw [visit_eq] at hp
      rcases List.mem_cons.1 hp with rfl | hp
      · exact findSome?_children ht (if_pos rfl) (hnone t (mem_visit_self t))
      · obtain ⟨c, hc, hp⟩ := List.mem_flatMap.1 hp
        have hlt : c.id < t.id := Nat.lt_of_le_of_lt (id_bounds hp).1 (childOf_of_mem ht).id_lt
        refine findSome?_children hc ?_ (hnone c (mem_visit_of_childOf hp ht))
        rw [if_neg (halone.child hc c (mem_visit_self c) (Nat.ne_of_lt hlt))]
        exact ih c hc hp (halone.child hc)

/-- The search for a node finds the way that the walk has taken to it. -/
theorem wayTo?_located_of_mem (ht : t ∈ s.visit) (halone : t.AloneIn address s) :
    (s.located address).wayTo? (address t.id) (s.locatedWay address) =
      some (t.locatedWay address) := by
  induction s using induction with
  | step s ih =>
      rw [wayTo?_located]
      rw [visit_eq] at ht
      rcases List.mem_cons.1 ht with rfl | ht
      · rw [if_pos rfl]
      · obtain ⟨c, hc, ht⟩ := List.mem_flatMap.1 ht
        rw [if_neg (halone s (mem_visit_self s) (Nat.ne_of_lt (id_lt_of_mem_children hc ht)))]
        refine findSome?_children hc ?_ fun x hx hbefore =>
          wayTo?_located_eq_none _ (halone.ne_of_before hx hbefore ht)
        have hway := ih c hc ht (halone.child hc)
        rwa [(childOf_of_mem hc).locatedWay_eq] at hway

end Station

/-! ## The searches and the table -/

namespace ParentTable

open Numbered

/-- The first of the nodes on the way up from a node of `e` that satisfies a test. -/
def firstAbove? (table : ParentTable) (e : Expr) (test : Expr → Bool) (id : Nat) : Option Nat :=
  (table.ancestorsOf id).find? fun above => e.preorder[above]?.any test

variable {e : Expr} {s : Station} {address : Nat → Nat} {target : Nat} {test : Expr → Bool}

/-- The nodes on a way have the numbers that the way says. -/
theorem getElem?_way : ∀ s ∈ (Station.root e).visit, ∀ above ∈ s.way,
    e.preorder[above.1]? = some above.2 := by
  refine Station.visit_induction nofun fun p hp hway c hc above habove => ?_
  rw [(Station.childOf_of_mem hc).way_eq] at habove
  rcases List.mem_cons.1 habove with rfl | habove
  · exact getElem?_preorder hp
  · exact hway above habove

theorem find?_locatedWay (hs : s ∈ (Station.root e).visit) :
    ((s.locatedWay address).find? fun (_, ancestor) => test ancestor).map Prod.fst =
      ((ofExpr e).firstAbove? e test s.id).map address := by
  have htest : ∀ above ∈ s.way, test above.2 = e.preorder[above.1]?.any test :=
    fun above habove => by
    rw [getElem?_way s hs above habove, Option.any_some]
  rw [firstAbove?, ancestorsOf_ofExpr s hs, Station.locatedWay, List.find?_map, List.find?_map,
    Option.map_map, Option.map_map]
  exact congrArg _ (List.find?_congr htest)

theorem parentOf?_located (hs : s ∈ (Station.root e).visit)
    (halone : s.AloneIn address (.root e)) :
    ((Station.root e).located address).parentOf? (address s.id) =
      ((ofExpr e).parentOf s.id).map address := by
  rw [parentOf_ofExpr hs]
  rcases Station.eq_or_mem_children_of_mem_visit s hs with rfl | ⟨p, hp, hsp⟩
  · refine Station.parentOf?_located_eq_none fun c hc q hq => ?_
    exact halone.child hc q hq (Nat.ne_of_gt (Station.id_lt_of_mem_children hc hq))
  · rw [(Station.childOf_of_mem hsp).parent_eq]
    exact Station.parentOf?_located_of_mem hp hsp halone

theorem ancestorOf?_located (hs : s ∈ (Station.root e).visit)
    (halone : s.AloneIn address (.root e)) :
    ((Station.root e).located address).ancestorOf? (address s.id) test =
      ((ofExpr e).firstAbove? e test s.id).map address := by
  have hway : ((Station.root e).located address).wayTo? (address s.id) [] =
      some (s.locatedWay address) := Station.wayTo?_located_of_mem hs halone
  rw [ancestorOf?, hway]
  exact find?_locatedWay hs

/-- The searches for the address of a node find what the table says of that node. -/
theorem located_eq_table (address : Nat → Nat) (test : Expr → Bool)
    (hdistinct : ∀ i < e.size, ∀ j < e.size, address i = address j → i = j) {id : Nat}
    (hid : id < e.size) :
    ((Station.root e).located address).parentOf? (address id) =
        ((ofExpr e).parentOf id).map address ∧
      ((Station.root e).located address).ancestorOf? (address id) test =
        ((ofExpr e).firstAbove? e test id).map address := by
  obtain ⟨s, hs, rfl⟩ := exists_station hid
  have halone : s.AloneIn address (.root e) := fun q hq hne heq =>
    hne (hdistinct q.id (id_lt_of_mem hq) s.id hid heq)
  exact ⟨parentOf?_located hs halone, ancestorOf?_located hs halone⟩

/-- The searches for an address that no node has find nothing. -/
theorem located_eq_none (address : Nat → Nat) (test : Expr → Bool)
    (htarget : ∀ id < e.size, address id ≠ target) :
    ((Station.root e).located address).parentOf? target = none ∧
      ((Station.root e).located address).ancestorOf? target test = none := by
  have hvisit : ∀ p ∈ (Station.root e).visit, address p.id ≠ target := fun p hp =>
    htarget p.id (id_lt_of_mem hp)
  constructor
  · exact Station.parentOf?_located_eq_none fun c hc p hp =>
      hvisit p (Station.mem_visit_of_mem_children hc hp)
  · rw [ancestorOf?, Station.wayTo?_located_eq_none [] hvisit]
    rfl

theorem located_self (e : Expr) : (Station.root e).located (fun id => id) = Numbered.ofExpr e 0 :=
  relocate_self _

theorem findParent?_eq_none {id : Nat} (hid : e.size ≤ id) :
    e.findParent? id = none ∧ e.findAncestor? id test = none := by
  have hother : ∀ other < e.size, other ≠ id := fun other hother => by omega
  have hnone := located_eq_none (fun id => id) test hother
  rwa [located_self] at hnone

/-- The searches for the number of a node find what the table says of that node, and so they do
for a number that no node has. -/
theorem findParent?_eq_table (e : Expr) (id : Nat) :
    e.findParent? id = (ofExpr e).parentOf id ∧
      e.findAncestor? id test = (ofExpr e).firstAbove? e test id := by
  rcases Nat.lt_or_ge id e.size with hid | hid
  · have htable := located_eq_table (fun id => id) test (fun _ _ _ _ heq => heq) hid
    rwa [located_self, Option.map_id', Option.map_id'] at htable
  · have hparent := parentOf_eq_none hid
    rw [firstAbove?, ancestorsOf_eq_nil hparent, hparent]
    exact findParent?_eq_none hid

end ParentTable

namespace Expr

open ParentTable

/-- The search for the parent of a node finds the one that the table has for it.  The search for
an ancestor finds the first one that satisfies the test, of those that the table has on the way
up.  For a number that no node has they find nothing.

A node is known by its number, and its number might be any address: if different nodes have
different addresses, the searches for the address of a node find the same nodes, and for any other
address, such as that of a node of an equal tree at another place, they find nothing. -/
theorem upward_agrees (e : Expr) (test : Expr → Bool) :
    (∀ id, e.findParent? id = (ofExpr e).parentOf id ∧
      e.findAncestor? id test = (ofExpr e).firstAbove? e test id) ∧
    (∀ id, e.preorder.length ≤ id → e.findParent? id = none ∧ e.findAncestor? id test = none) ∧
    ∀ address : Nat → Nat,
      (∀ i < e.preorder.length, ∀ j < e.preorder.length, address i = address j → i = j) →
      let tree := (Numbered.ofExpr e 0).relocate address
      (∀ id < e.preorder.length,
        tree.parentOf? (address id) = ((ofExpr e).parentOf id).map address ∧
        tree.ancestorOf? (address id) test = ((ofExpr e).firstAbove? e test id).map address) ∧
      ∀ target, (∀ id < e.preorder.length, address id ≠ target) →
        tree.parentOf? target = none ∧ tree.ancestorOf? target test = none := by
  rw [length_preorder]
  refine ⟨findParent?_eq_table e, fun id => findParent?_eq_none, fun address hdistinct => ?_⟩
  exact ⟨fun id => located_eq_table address test hdistinct,
    fun target => located_eq_none address test⟩

/-- The condition `a = a`. -/
def twins : Expr :=
  let name := Expr.node (.identifier { value := "a" })
  .node (.binary name .equal name {})

/-- The operands of the condition look the same, and its nodes are put at three addresses in a
row: the search for the second operand finds the condition, and the search for the next address,
where an equal condition may begin, finds nothing. -/
theorem upward_agrees_twins :
    let address := fun id => 8 * id + 64
    let tree := (Numbered.ofExpr twins 0).relocate address
    let isCondition := fun x : Expr => x.kind == .binary
    twins.preorder[1]? = twins.preorder[2]? ∧
      (∀ i < twins.preorder.length, ∀ j < twins.preorder.length, address i = address j → i = j) ∧
      (tree.parentOf? (address 2) = some (address 0) ∧
        tree.ancestorOf? (address 2) isCondition = some (address 0)) ∧
      tree.parentOf? (address 3) = none ∧ tree.ancestorOf? (address 3) isCondition = none := by
  intro address tree isCondition
  have hdistinct : ∀ i < twins.preorder.length, ∀ j < twins.preorder.length,
      address i = address j → i = j := fun i _ j _ heq => by
    change 8 * i + 64 = 8 * j + 64 at heq
    omega
  have hpreorder : twins.preorder = [twins] ++ twins.children := by
    simp [preorder, preorderOf, twins, children, toNode, Node.children, Child.one]
  have hlength : twins.preorder.length = 3 := congrArg List.length hpreorder
  obtain ⟨-, -, hplaced⟩ := upward_agrees twins isCondition
  obtain ⟨hinside, houtside⟩ := hplaced address hdistinct
  refine ⟨hpreorder ▸ rfl, hdistinct, ?_, ?_⟩
  · obtain ⟨hparent, habove⟩ := hinside 2 (by omega)
    have htable : (ofExpr twins).parentOf 2 = some 0 := rfl
    have hway : (ofExpr twins).ancestorsOf 2 = [0] := by
      rw [ancestorsOf_eq_cons htable (by omega), ancestorsOf_eq_nil rfl]
    rw [firstAbove?, hway, hpreorder] at habove
    exact ⟨hparent, habove⟩
  · exact houtside (address 3) fun id hid => by
      change 8 * id + 64 ≠ 88
      omega

end Expr

end SqlTree

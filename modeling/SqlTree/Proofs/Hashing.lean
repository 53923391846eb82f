import Mathlib.Data.Set.Card
import SqlTree.Proofs.Equality
import SqlTree.Tree.Distinct

/-!
# Hashing respects equality

What is gathered from a tree without looking at tags is the same for equal trees
(`Expr.fold_eq_of_beq`).  The hash of a tree is gathered in this way, and so a hash set of trees
holds one tree of each class of equal ones.  Main statement: `Expr.beq_and_hash_are_of_untagged`.
-/

namespace SqlTree

def TagBlind {α : Type} (algebra : Node α → α) : Prop :=
  ∀ n, algebra (n.relabel .untag) = algebra n

/-! ## The hash of a node -/

section Containers

variable {α : Type} [Hashable α] {g : α → α}

theorem hash_option_map {o : Option α} (hg : ∀ a, hash (g a) = hash a) :
    hash (o.map g) = hash o := by
  cases o with
  | none => rfl
  | some a => exact congrArg (mixHash · 13) (hg a)

theorem hash_list_map {as : List α} (hg : ∀ a, hash (g a) = hash a) :
    hash (as.map g) = hash as := by
  change (as.map g).foldl (fun r a => mixHash r (hash a)) 7 =
    as.foldl (fun r a => mixHash r (hash a)) 7
  simp only [List.foldl_map, hg]

end Containers

@[simp] theorem Tag.hash_eq_zero (t : Tag) : hash t = 0 :=
  rfl

@[simp] theorem Collate.hash_untag (c : Collate) : hash (c.relabel .untag) = hash c :=
  rfl

@[simp] theorem TimeUnit.hash_untag (u : TimeUnit) : hash (u.relabel .untag) = hash u :=
  rfl

@[simp] theorem Identifier.hash_untag (i : Identifier) : hash (i.relabel .untag) = hash i := by
  change instHashableIdentifier.hash _ = instHashableIdentifier.hash i
  simp [instHashableIdentifier.hash, relabel, hash_option_map Collate.hash_untag]

section Clauses

variable {ε : Type} [Hashable ε]

@[simp] theorem SelectItem.hash_untag (s : SelectItem ε) : hash (s.relabel .untag) = hash s := by
  change instHashableSelectItem.hash _ = instHashableSelectItem.hash s
  simp [instHashableSelectItem.hash, relabel, hash_option_map Identifier.hash_untag]

@[simp] theorem WithQuery.hash_untag (w : WithQuery ε) : hash (w.relabel .untag) = hash w := by
  change instHashableWithQuery.hash _ = instHashableWithQuery.hash w
  simp [instHashableWithQuery.hash, relabel, hash_list_map Identifier.hash_untag]

@[simp] theorem Hint.hash_untag (x : Hint ε) : hash (x.relabel .untag) = hash x :=
  rfl

@[simp] theorem Top.hash_untag (t : Top ε) : hash (t.relabel .untag) = hash t :=
  rfl

@[simp] theorem OrderItem.hash_untag (o : OrderItem ε) : hash (o.relabel .untag) = hash o :=
  rfl

@[simp] theorem CaseItem.hash_untag (c : CaseItem ε) : hash (c.relabel .untag) = hash c :=
  rfl

@[simp] theorem OrderBy.hash_untag (o : OrderBy ε) : hash (o.relabel .untag) = hash o := by
  change instHashableOrderBy.hash _ = instHashableOrderBy.hash o
  simp [instHashableOrderBy.hash, relabel, hash_list_map OrderItem.hash_untag]

@[simp] theorem GroupBy.hash_untag (g : GroupBy ε) : hash (g.relabel .untag) = hash g :=
  rfl

@[simp] theorem ConnectBy.hash_untag (c : ConnectBy ε) : hash (c.relabel .untag) = hash c :=
  rfl

@[simp] theorem Limit.hash_untag (l : Limit ε) : hash (l.relabel .untag) = hash l :=
  rfl

@[simp] theorem PartitionBy.hash_untag (p : PartitionBy ε) : hash (p.relabel .untag) = hash p :=
  rfl

@[simp] theorem WithinGroup.hash_untag (w : WithinGroup ε) : hash (w.relabel .untag) = hash w := by
  change instHashableWithinGroup.hash _ = instHashableWithinGroup.hash w
  simp [instHashableWithinGroup.hash, relabel]

@[simp] theorem Window.hash_untag (w : Window ε) : hash (w.relabel .untag) = hash w := by
  change instHashableWindow.hash _ = instHashableWindow.hash w
  simp [instHashableWindow.hash, relabel, hash_option_map PartitionBy.hash_untag,
    hash_option_map OrderBy.hash_untag]

@[simp] theorem Call.hash_untag (c : Call ε) : hash (c.relabel .untag) = hash c := by
  change instHashableCall.hash _ = instHashableCall.hash c
  simp [instHashableCall.hash, relabel, hash_list_map Identifier.hash_untag,
    hash_option_map WithinGroup.hash_untag, hash_option_map Window.hash_untag]

@[simp] theorem SelectQuery.hash_untag (s : SelectQuery ε) : hash (s.relabel .untag) = hash s := by
  change instHashableSelectQuery.hash _ = instHashableSelectQuery.hash s
  simp [instHashableSelectQuery.hash, relabel, hash_list_map WithQuery.hash_untag,
    hash_list_map Hint.hash_untag, hash_option_map Top.hash_untag,
    hash_list_map SelectItem.hash_untag, hash_option_map GroupBy.hash_untag,
    hash_option_map ConnectBy.hash_untag, hash_option_map OrderBy.hash_untag,
    hash_option_map Limit.hash_untag]

@[simp] theorem Table.hash_untag (t : Table ε) : hash (t.relabel .untag) = hash t := by
  change instHashableTable.hash _ = instHashableTable.hash t
  simp [instHashableTable.hash, relabel, hash_option_map Identifier.hash_untag,
    hash_list_map Hint.hash_untag]

@[simp] theorem Insert.hash_untag (i : Insert ε) : hash (i.relabel .untag) = hash i := by
  change instHashableInsert.hash _ = instHashableInsert.hash i
  simp [instHashableInsert.hash, relabel, hash_list_map Hint.hash_untag,
    hash_list_map Identifier.hash_untag]

@[simp] theorem Update.hash_untag (u : Update ε) : hash (u.relabel .untag) = hash u := by
  change instHashableUpdate.hash _ = instHashableUpdate.hash u
  simp [instHashableUpdate.hash, relabel, hash_list_map Hint.hash_untag]

@[simp] theorem Delete.hash_untag (d : Delete ε) : hash (d.relabel .untag) = hash d := by
  change instHashableDelete.hash _ = instHashableDelete.hash d
  simp [instHashableDelete.hash, relabel, hash_list_map Hint.hash_untag]

/-- The hash of a node is made of everything but the tags. -/
theorem Node.hash_untag (n : Node ε) : hash (n.relabel .untag) = hash n := by
  change instHashableNode.hash _ = instHashableNode.hash n
  cases n <;>
    simp [instHashableNode.hash, relabel, hash_option_map Identifier.hash_untag,
      hash_list_map Identifier.hash_untag, hash_option_map Collate.hash_untag,
      hash_option_map TimeUnit.hash_untag, hash_list_map WithQuery.hash_untag,
      hash_list_map SelectItem.hash_untag, hash_list_map CaseItem.hash_untag]

end Clauses

theorem tagBlind_hash : TagBlind fun n : Node UInt64 => hash n :=
  Node.hash_untag

namespace Expr

/-! ## Equal trees -/

/-- What is gathered without looking at tags is the same when they are taken away. -/
theorem fold_untagged {α : Type} {algebra : Node α → α} (hblind : TagBlind algebra) (e : Expr) :
    fold algebra e.untagged = fold algebra e := by
  induction e using Expr.induction with
  | step n ih =>
      have hheld : n.map (fold algebra ∘ untagged) = n.map (fold algebra) := n.map_congr _ ih
      rw [untagged_node, fold_node, fold_node, Node.map_relabel, Node.map_map, hheld, hblind]

theorem fold_eq_of_beq {α : Type} {algebra : Node α → α} (hblind : TagBlind algebra) {a b : Expr}
    (h : (a == b) = true) : fold algebra a = fold algebra b := by
  rw [← fold_untagged hblind a, (a.beq_iff_untagged b).1 h, fold_untagged hblind b]

instance : LawfulHashable Expr where
  hash_eq _ _ h := fold_eq_of_beq tagBlind_hash h

theorem equivalence_beq : Equivalence fun a b : Expr => (a == b) = true :=
  ⟨fun _ => BEq.rfl, BEq.symm, BEq.trans⟩

/-- Two nodes compare equal as trees just when they compare equal field by field. -/
theorem node_beq_node (n m : Node Expr) : (node n == node m) = (n == m) := by
  rw [Bool.eq_iff_iff, beq_iff_untagged, untagged_node, untagged_node, node.injEq]
  exact (n.toldBy (fun e _ => e.beq_iff_untagged) m).symm

/-- A node stays equal to itself when its children are exchanged for equal ones. -/
theorem node_beq_of_held {pairs : Node (Expr × Expr)} (h : ∀ p ∈ pairs.held, (p.1 == p.2) = true) :
    (node (pairs.map Prod.fst) == node (pairs.map Prod.snd)) = true := by
  have hheld : pairs.map (untagged ∘ Prod.fst) = pairs.map (untagged ∘ Prod.snd) :=
    pairs.map_congr _ fun p hp => (p.1.beq_iff_untagged p.2).1 (h p hp)
  rw [beq_iff_untagged, untagged_node, untagged_node, Node.map_map, Node.map_map, hheld]

/-! ## Sets of trees -/

/-- The trees of a set are those of the list that it is made from, up to equality. -/
theorem mem_untagged_toList_setOf (es : List Expr) (t : Expr) :
    t ∈ (setOf es).toList.map untagged ↔ ∃ e ∈ es, e.untagged = t := by
  have hclass (as : List Expr) (a : Expr) :
      as.contains a = true ↔ ∃ b ∈ as, b.untagged = a.untagged := by
    simp only [List.contains_iff_exists_mem_beq, beq_iff_untagged, eq_comm (a := a.untagged)]
  have hcontains (a : Expr) : (setOf es).toList.contains a = es.contains a := by
    rw [Std.HashSet.contains_toList, setOf, Std.HashSet.contains_ofList]
  constructor
  · intro ht
    obtain ⟨a, ha, rfl⟩ := List.mem_map.1 ht
    exact (hclass es a).1 ((hcontains a) ▸ (hclass _ a).2 ⟨a, ha, rfl⟩)
  · rintro ⟨e, he, rfl⟩
    obtain ⟨b, hb, hsame⟩ := (hclass _ e).1 ((hcontains e).symm ▸ (hclass es e).2 ⟨e, he, rfl⟩)
    exact List.mem_map.2 ⟨b, hb, hsame⟩

/-- A set holds as many trees as there are different ones without tags. -/
theorem size_setOf (es : List Expr) :
    (setOf es).size = {t | ∃ e ∈ es, e.untagged = t}.ncard := by
  classical
  have hdistinct : ((setOf es).toList.map untagged).Nodup := by
    refine List.pairwise_map.2 (Std.HashSet.distinct_toList.imp fun {a b} hne hsame => ?_)
    rw [(a.beq_iff_untagged b).2 hsame] at hne
    exact Bool.false_ne_true hne.symm
  have hset : {t | ∃ e ∈ es, e.untagged = t} =
      (((setOf es).toList.map untagged).toFinset : Set Expr) := by
    ext t
    simp only [Set.mem_ofPred_eq, Finset.mem_coe, List.mem_toFinset, mem_untagged_toList_setOf]
  rw [hset, Set.ncard_coe_finset, List.toFinset_card_of_nodup hdistinct, List.length_map,
    Std.HashSet.length_toList]

/-- Equality of trees is identity without tags.  So it is an equivalence, and a congruence for
every kind of node; whatever is gathered from equal trees without looking at tags is the same,
their hash with it, and a hash set has one tree for each tree without tags. -/
theorem beq_and_hash_are_of_untagged :
    (∀ a b : Expr, (a == b) = true ↔ a.untagged = b.untagged) ∧
    (Equivalence fun a b : Expr => (a == b) = true) ∧
    (∀ n m : Node Expr, (node n == node m) = (n == m)) ∧
    (∀ pairs : Node (Expr × Expr), (∀ p ∈ pairs.held, (p.1 == p.2) = true) →
      (node (pairs.map Prod.fst) == node (pairs.map Prod.snd)) = true) ∧
    (∀ {α : Type} (algebra : Node α → α), TagBlind algebra →
      ∀ a b : Expr, (a == b) = true → fold algebra a = fold algebra b) ∧
    (∀ a b : Expr, (a == b) = true → hash a = hash b) ∧
    (∀ es : List Expr, (setOf es).size = {t | ∃ e ∈ es, e.untagged = t}.ncard) :=
  ⟨beq_iff_untagged, equivalence_beq, node_beq_node, fun _ => node_beq_of_held,
    fun _ hblind _ _ => fold_eq_of_beq hblind, fun _ _ => hash_eq, size_setOf⟩

end Expr

end SqlTree

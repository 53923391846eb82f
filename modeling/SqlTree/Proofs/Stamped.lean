import SqlTree.Proofs.AllOf
import SqlTree.Proofs.Stamping
import SqlTree.Tree.Visit

/-!
# Stamped trees

A tree that has been stamped with a tag has that tag on every node that a visit goes to.  The
clauses come first: what is visited of a stamped clause has the tag if the visits of the
expressions that the clause holds do.  Main statement: `Expr.stamped_relabel`.
-/

namespace SqlTree

/-- Every visit of the list is to a node with the tag. -/
abbrev Stamped (tag : Tag) (visits : List Visit) : Prop :=
  AllOf (fun visit => visit.2 = tag) visits

/-- Every visit of each of the expressions is to a node with the tag, given the visits of either. -/
abbrev AllStamped {ε : Type} (tag : Tag) (f : ε → List Visit) (es : List ε) : Prop :=
  AllOf (fun e => Stamped tag (f e)) es

section Clauses

variable {ε : Type} {tag : Tag} {f : ε → List Visit}

@[simp] theorem stamped_optionVisits {visits : Option (List Visit)} :
    Stamped tag (Expr.optionVisits visits) ↔ ∀ xs ∈ visits, Stamped tag xs := by
  cases visits <;> simp [Expr.optionVisits]

@[simp] theorem Relabel.tag_stamp (tag other : Tag) : (stamp tag).tag other = tag :=
  rfl

@[simp] theorem Collate.stamped (c : Collate) : Stamped tag (c.relabel (.stamp tag)).visits := by
  simp [visits, relabel]

@[simp] theorem TimeUnit.stamped (u : TimeUnit) : Stamped tag (u.relabel (.stamp tag)).visits := by
  simp [visits, relabel]

@[simp] theorem Identifier.stamped (i : Identifier) :
    Stamped tag (i.relabel (.stamp tag)).visits := by
  simp [visits, relabel]

@[simp] theorem Identifier.option_stamped (o : Option Identifier) :
    Stamped tag (optionVisits (o.map (relabel (.stamp tag)))) := by
  simp [optionVisits]

@[simp] theorem SelectItem.stamped_iff (s : SelectItem ε) :
    Stamped tag ((s.relabel (.stamp tag)).map f).visits ↔ AllStamped tag f s.held := by
  simp [visits, map, relabel, held]

@[simp] theorem WithQuery.stamped_iff (w : WithQuery ε) :
    Stamped tag ((w.relabel (.stamp tag)).map f).visits ↔ AllStamped tag f w.held := by
  simp [visits, map, relabel, held]

@[simp] theorem Hint.stamped_iff (h : Hint ε) :
    Stamped tag ((h.relabel (.stamp tag)).map f).visits ↔ AllStamped tag f h.held := by
  simp [visits, map, relabel, held]

@[simp] theorem Top.stamped_iff (t : Top ε) :
    Stamped tag ((t.relabel (.stamp tag)).map f).visits ↔ AllStamped tag f t.held := by
  simp [visits, map, relabel, held]

@[simp] theorem OrderItem.stamped_iff (o : OrderItem ε) :
    Stamped tag ((o.relabel (.stamp tag)).map f).visits ↔ AllStamped tag f o.held := by
  simp [visits, map, relabel, held]

@[simp] theorem OrderBy.stamped_iff (o : OrderBy ε) :
    Stamped tag ((o.relabel (.stamp tag)).map f).visits ↔ AllStamped tag f o.held := by
  simp [visits, map, relabel, held]

@[simp] theorem GroupBy.stamped_iff (g : GroupBy ε) :
    Stamped tag ((g.relabel (.stamp tag)).map f).visits ↔ AllStamped tag f g.held := by
  simp [visits, map, relabel, held]

@[simp] theorem ConnectBy.stamped_iff (c : ConnectBy ε) :
    Stamped tag ((c.relabel (.stamp tag)).map f).visits ↔ AllStamped tag f c.held := by
  simp [visits, map, relabel, held]

@[simp] theorem Limit.stamped_iff (l : Limit ε) :
    Stamped tag ((l.relabel (.stamp tag)).map f).visits ↔ AllStamped tag f l.held := by
  simp [visits, map, relabel, held]

@[simp] theorem PartitionBy.stamped_iff (p : PartitionBy ε) :
    Stamped tag ((p.relabel (.stamp tag)).map f).visits ↔ AllStamped tag f p.held := by
  simp [visits, map, relabel, held]

@[simp] theorem WithinGroup.stamped_iff (w : WithinGroup ε) :
    Stamped tag ((w.relabel (.stamp tag)).map f).visits ↔ AllStamped tag f w.held := by
  simp [visits, map, relabel, held]

@[simp] theorem Window.stamped_iff (w : Window ε) :
    Stamped tag ((w.relabel (.stamp tag)).map f).visits ↔ AllStamped tag f w.held := by
  simp [visits, map, relabel, held]

@[simp] theorem CaseItem.stamped_iff (c : CaseItem ε) :
    Stamped tag ((c.relabel (.stamp tag)).map f).visits ↔ AllStamped tag f c.held := by
  simp [visits, map, relabel, held]

@[simp] theorem Call.stamped_iff (c : Call ε) :
    Stamped tag ((c.relabel (.stamp tag)).map f).visits ↔ AllStamped tag f c.held := by
  simp [visits, map, relabel, held]

@[simp] theorem SelectQuery.stamped_iff (q : SelectQuery ε) :
    Stamped tag ((q.relabel (.stamp tag)).map f).visits ↔ AllStamped tag f q.held := by
  simp [visits, map, relabel, held]

@[simp] theorem Table.stamped_iff (t : Table ε) :
    Stamped tag ((t.relabel (.stamp tag)).map f).visits ↔ AllStamped tag f t.held := by
  simp [visits, map, relabel, held]

@[simp] theorem Insert.stamped_iff (i : Insert ε) :
    Stamped tag ((i.relabel (.stamp tag)).map f).visits ↔ AllStamped tag f i.held := by
  simp [visits, map, relabel, held]

@[simp] theorem Update.stamped_iff (u : Update ε) :
    Stamped tag ((u.relabel (.stamp tag)).map f).visits ↔ AllStamped tag f u.held := by
  simp [visits, map, relabel, held]

@[simp] theorem Delete.stamped_iff (d : Delete ε) :
    Stamped tag ((d.relabel (.stamp tag)).map f).visits ↔ AllStamped tag f d.held := by
  simp [visits, map, relabel, held]

theorem Node.stamped_iff (n : Node ε) :
    Stamped tag ((n.relabel (.stamp tag)).map f).visits ↔ AllStamped tag f n.held := by
  cases n <;> simp [visits, map, relabel, held]

end Clauses

/-- A tree that is stamped with a tag has that tag on every node. -/
theorem Expr.stamped_relabel (e : Expr) (tag : Tag) :
    Stamped tag (e.relabel (.stamp tag)).visits := by
  induction e using Expr.induction with
  | step n ih =>
      rw [relabel_node, visits, fold_node, Node.stamped_iff, Node.held_map, AllStamped,
        AllOf.map_iff]
      exact ih

end SqlTree

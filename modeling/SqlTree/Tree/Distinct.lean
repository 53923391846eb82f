import Std.Data.HashSet
import SqlTree.Tree.Fold

/-!
# Equal and distinct trees

Two trees are equal when they have the same nodes, clauses, names and texts; tags do not count.
The hash of a tree looks at the same data. `Expr.untagged` takes the tags away, so that equality
can be compared with the identity of trees.  Equality sorts the items of a list into classes, and
a class is known by the index of its first item.
-/

namespace SqlTree

/-! ## Equality of trees -/

namespace Expr

def relabel (r : Relabel) : Expr → Expr :=
  fold fun n => .node (n.relabel r)

def untagged : Expr → Expr :=
  relabel .untag

def blanked : Expr → Expr :=
  relabel .blank

/-- Compares two trees down to a given number of levels; trees that go deeper differ. -/
def equalWithin : Nat → Expr → Expr → Bool
  | 0, _, _ => false
  | levels + 1, .node a, .node b =>
    let _ : BEq Expr := ⟨equalWithin levels⟩
    a == b

/-- Equality looks at everything but the tags. -/
instance : BEq Expr :=
  ⟨fun a b => equalWithin (a.height + 1) a b⟩

/-- The hash of a tree is made of the hashes of its children. -/
instance : Hashable Expr :=
  ⟨fold fun n => hash n⟩

theorem relabel_node (r : Relabel) (n : Node Expr) :
    relabel r (.node n) = .node ((n.map (relabel r)).relabel r) :=
  fold_node _ n

end Expr

/-! ## Equal trees in a list -/

/-- The index of the first item that is there and equals a given one. -/
def firstEqual {α : Type} [BEq α] (items : List (Option α)) (a : α) : Option Nat :=
  items.findIdx? fun item => item.any (· == a)

/-- The class of each item that is there. -/
def equalityClasses {α : Type} [BEq α] (items : List (Option α)) : List (Option Nat) :=
  items.map fun item => item.bind (firstEqual items)

/-- The trees of a list as a set. -/
def Expr.setOf (es : List Expr) : Std.HashSet Expr :=
  Std.HashSet.ofList es

end SqlTree

import SqlTree.Tree.Walk

/-!
# Parents and ancestors

Nodes do not know their parents.  `ParentTable` records the parent of every node of a tree under the
node's number in pre-order; `Expr.findParent?` and `Expr.findAncestor?` search the tree for a node
with a given number instead.  Two equal subtrees at different places have different numbers, so they
are told apart.
-/

namespace SqlTree

/-- Where a node stands: its parent, the field of the parent that holds it, and the index in that
field.  The root has no parent and an empty key. -/
structure ParentInfo where
  parent : Option Nat
  key : String
  index : Option Nat
  deriving DecidableEq, Repr

/-- The places of the nodes of a tree, by number. -/
structure ParentTable where
  entries : Array ParentInfo

namespace ParentTable

/-- The places of children and of everything below them.  Each child comes as the function from its
number and its place to the places of its subtree; `next` is the number of the first child. -/
def ofChildren (parent : Nat) : Nat → List (Child (Nat → ParentInfo → List ParentInfo)) →
    List ParentInfo
  | _, [] => []
  | next, c :: cs =>
    let below := c.expr next ⟨some parent, c.key, c.index⟩
    below ++ ofChildren parent (next + below.length) cs

/-- The places of a node with a given number and place and of everything below it. -/
def placesBelow : Expr → Nat → ParentInfo → List ParentInfo :=
  Expr.fold fun n id info => info :: ofChildren id (id + 1) n.children

/-- The table of a tree. -/
def ofExpr (e : Expr) : ParentTable :=
  ⟨(placesBelow e 0 ⟨none, "", none⟩).toArray⟩

def size (table : ParentTable) : Nat :=
  table.entries.size

def isEmpty (table : ParentTable) : Bool :=
  table.entries.isEmpty

def get? (table : ParentTable) (id : Nat) : Option ParentInfo :=
  table.entries[id]?

def parentOf (table : ParentTable) (id : Nat) : Option Nat :=
  (table.get? id).bind ParentInfo.parent

/-- The parent of a node, its parent and so on up to the root.  A parent's number is smaller than
its child's, so the way up ends. -/
def ancestorsOf (table : ParentTable) (id : Nat) : List Nat :=
  match table.parentOf id with
  | none => []
  | some parent => if parent < id then parent :: table.ancestorsOf parent else []
termination_by id

/-- The numbers of the children of a node, in order. -/
def childrenOf (table : ParentTable) (id : Nat) : List Nat :=
  (List.range table.size).filter fun child => table.parentOf child == some id

/-- The number of steps from the root to a node. -/
def depthOf (table : ParentTable) (id : Nat) : Nat :=
  (table.ancestorsOf id).length

end ParentTable

/-- A tree whose nodes carry their numbers. -/
inductive Numbered where
  | node (id : Nat) (expr : Expr) (children : List Numbered)

namespace Numbered

def id : Numbered → Nat
  | .node id _ _ => id

/-- Numbers children one after another, from the number `next` on; each child comes with its size
and as the function from its number to its numbered tree. -/
def ofChildren : Nat → List (Nat × (Nat → Numbered)) → List Numbered
  | _, [] => []
  | next, (size, child) :: cs => child next :: ofChildren (next + size) cs

/-- What is known of a subtree before it has a number: itself, its size and its numbered form. -/
structure Unnumbered where
  expr : Expr
  size : Nat
  number : Nat → Numbered

attribute [local instance] Expr.zeroSize

/-- Numbers the nodes of a tree in pre-order, from a given number on. -/
def ofExpr (e : Expr) : Nat → Numbered :=
  (e.fold fun n =>
    let expr := Expr.node (n.map Unnumbered.expr)
    let below := n.children.map Child.expr
    { expr
      size := 1 + (below.map Unnumbered.size).sum
      number := fun id =>
        .node id expr (ofChildren (id + 1) (below.map fun u => (u.size, u.number))) :
      Unnumbered }).number

mutual

/-- The number of the node that has a child with the number `target`. -/
def parentOf? (target : Nat) : Numbered → Option Nat
  | .node id _ children => parentAmong? target id children

/-- The number of the node that has a child with the number `target`: `parent` if one of the given
children has it, else found below them. -/
def parentAmong? (target parent : Nat) : List Numbered → Option Nat
  | [] => none
  | c :: cs =>
    if c.id = target then some parent
    else match parentOf? target c with
      | some found => some found
      | none => parentAmong? target parent cs

end

mutual

/-- The nodes on the way to the node with the number `target`, that node left out and the nearest
first; `way` are those on the way to the given node. -/
def wayTo? (target : Nat) (way : List (Nat × Expr)) : Numbered → Option (List (Nat × Expr))
  | .node id expr children =>
    if id = target then some way else wayAmong? target ((id, expr) :: way) children

/-- The nodes on the way to the node with the number `target`, which is one of the given nodes or
below them; `way` are those on the way to the given nodes. -/
def wayAmong? (target : Nat) (way : List (Nat × Expr)) :
    List Numbered → Option (List (Nat × Expr))
  | [] => none
  | c :: cs =>
    match wayTo? target way c with
    | some found => some found
    | none => wayAmong? target way cs

end

end Numbered

namespace Expr

/-- The number of the parent of the node with a given number. -/
def findParent? (e : Expr) (target : Nat) : Option Nat :=
  (Numbered.ofExpr e 0).parentOf? target

/-- The number of the nearest ancestor that satisfies a test, of the node with a given number. -/
def findAncestor? (e : Expr) (target : Nat) (test : Expr → Bool) : Option Nat :=
  ((Numbered.ofExpr e 0).wayTo? target []).bind fun way =>
    (way.find? fun (_, ancestor) => test ancestor).map Prod.fst

end Expr

end SqlTree

import SqlTree.Tree.Child

/-!
# Walks through a tree

Two walks visit a node and everything below it: `preorder` goes down before it goes on, with a stack
of nodes still to visit, and `levelOrder` visits one level after another.  Searching and counting go
by the pre-order.  A node's place in the pre-order is its number.
-/

namespace SqlTree

namespace Expr

/-- Sizes are summed with this zero, whatever algebra of the numbers is in scope. -/
local instance zeroSize : Zero Nat := ⟨0⟩

/-- The number of nodes that a walk visits. -/
def size : Expr → Nat :=
  fold fun n => 1 + (n.children.map Child.expr).sum

theorem size_eq (e : Expr) : e.size = 1 + (e.children.map size).sum := by
  obtain ⟨n⟩ := e
  rw [size, fold_node, Node.children_map, List.map_map]
  simp only [children, toNode, List.map_map]
  rfl

/-- The pre-order of the nodes on a stack, the top one first. -/
def preorderOf : List Expr → List Expr
  | [] => []
  | e :: stack => e :: preorderOf (e.children ++ stack)
termination_by stack => (stack.map size).sum
decreasing_by
  rw [List.map_append, List.sum_append, List.map_cons, List.sum_cons, size_eq e]
  omega

/-- The nodes of a tree, each before its children and these before its later siblings. -/
def preorder (e : Expr) : List Expr :=
  preorderOf [e]

/-- The children of all nodes of a level. -/
def nextLevel (level : List Expr) : List Expr :=
  level.flatMap children

private theorem sum_size_nextLevel_lt (es : List Expr) (h : es ≠ []) :
    ((nextLevel es).map size).sum < (es.map size).sum := by
  induction es with
  | nil => exact absurd rfl h
  | cons e es ih =>
    rw [nextLevel, List.flatMap_cons, ← nextLevel, List.map_append, List.sum_append,
      List.map_cons, List.sum_cons, size_eq e]
    by_cases hes : es = []
    · subst hes
      simp [nextLevel]
    · have := ih hes
      omega

/-- The nodes of a level and of all levels below it. -/
def levelsOf : List Expr → List Expr
  | [] => []
  | e :: es => e :: es ++ levelsOf (nextLevel (e :: es))
termination_by level => (level.map size).sum
decreasing_by exact sum_size_nextLevel_lt (e :: es) (List.cons_ne_nil e es)

/-- The nodes of a tree, level by level and from left to right. -/
def levelOrder (e : Expr) : List Expr :=
  levelsOf [e]

/-- The number of steps on the longest walk down. -/
def depth : Expr → Nat :=
  fold fun n => (n.children.map Child.expr).foldr (fun d above => max (d + 1) above) 0

/-- The nodes that satisfy a test, in pre-order. -/
def findAll (test : Expr → Bool) (e : Expr) : List Expr :=
  e.preorder.filter test

/-- The first node in pre-order that satisfies a test. -/
def find? (test : Expr → Bool) (e : Expr) : Option Expr :=
  e.preorder.find? test

def contains (test : Expr → Bool) (e : Expr) : Bool :=
  e.preorder.any test

def count (test : Expr → Bool) (e : Expr) : Nat :=
  e.preorder.countP test

/-- The numbers of the nodes that satisfy a test. -/
def findNumbers (test : Expr → Bool) (e : Expr) : List Nat :=
  (e.preorder.zipIdx.filter fun (found, _) => test found).map Prod.snd

/-- The number of the first node that satisfies a test. -/
def findNumber? (test : Expr → Bool) (e : Expr) : Option Nat :=
  e.preorder.findIdx? test

/-- Whether the root is a column: a name, qualified or not. -/
def isColumn (e : Expr) : Bool :=
  match e.kind with
  | .identifier | .property => true
  | _ => false

def isLiteral (e : Expr) : Bool :=
  match e.kind with
  | .number | .string | .bool | .null => true
  | _ => false

def isCall (e : Expr) : Bool :=
  e.kind == .call

def isWindowCall (e : Expr) : Bool :=
  match e.toNode with
  | .call function => function.window.isSome
  | _ => false

def isSubquery (e : Expr) : Bool :=
  e.kind == .select

def isTable (e : Expr) : Bool :=
  e.kind == .table

/-- How often each kind occurs; kinds that do not occur are left out. -/
def census (e : Expr) : List (NodeKind × Nat) :=
  let kinds := e.preorder.map kind
  NodeKind.every.filterMap fun kind =>
    let n := kinds.count kind
    if n = 0 then none else some (kind, n)

end Expr

end SqlTree

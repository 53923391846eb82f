import SqlTree.Tree.Distinct

/-!
# Building trees on a stack

Trees are put together from their leaves by steps that work on a stack of trees.  A step takes its
operands from the top and puts its result there; what it builds carries no tag.
-/

namespace SqlTree

namespace Expr

/-- A name that is not escaped. -/
def ofName (value : String) : Expr :=
  .node (.identifier { value })

/-- A table with nothing but a name. -/
def ofTableName (value : String) : Expr :=
  .node (.table ⟨none, none, { value }, none, none, [], {}⟩)

def ofCall (name : String) (arguments : List Expr) : Expr :=
  .node (.call ⟨[], { value := name }, false, arguments, none, none, {}⟩)

/-- A query that selects columns and says nothing else. -/
def ofColumns (columns : List Expr) : Expr :=
  .node (.selectQuery
    { withQueries := [], hints := [], option := none, top := none
      columns := columns.map fun body => ⟨body, none, {}⟩
      into := none, source := none, condition := none, groupBy := none, connectBy := none
      orderBy := none, limit := none, tag := {} })

end Expr

inductive BuildStep where
  | identifier (value : String)
  | number (value : String)
  | string (value : String)
  | bool (value : Bool)
  | null
  | table (name : String)
  /-- Puts the top tree on the stack once more. -/
  | dup
  /-- An operation on the two top trees; the top one is on its right. -/
  | binary (op : BinaryOp)
  /-- A call with a number of arguments; the top one comes last. -/
  | call (name : String) (arity : Nat)
  /-- A query with a number of columns; the top one comes last. -/
  | query (width : Nat)
  /-- Wraps the top tree as a query in parentheses. -/
  | select
  /-- Gives a collation to the name on top. -/
  | collate (name : String)
  /-- Gives a tag to the name on top. -/
  | tag (dialect : Dialect)
  deriving DecidableEq, Repr

namespace BuildStep

/-- Takes a number of trees from the stack, the deepest one first, if there are so many. -/
def takeMany (n : Nat) (stack : List Expr) : Option (List Expr × List Expr) :=
  if n ≤ stack.length then some ((stack.take n).reverse, stack.drop n) else none

/-- Changes the name on top of the stack, if there is one. -/
def changeName (change : Identifier → Identifier) : List Expr → Option (List Expr)
  | .node (.identifier name) :: stack => some (.node (.identifier (change name)) :: stack)
  | _ => none

/-- The stack after a step; none if the step does not find its operands. -/
def run : BuildStep → List Expr → Option (List Expr)
  | .identifier value, stack => some (.ofName value :: stack)
  | .number value, stack => some (.node (.number value {}) :: stack)
  | .string value, stack => some (.node (.string value false {}) :: stack)
  | .bool value, stack => some (.node (.bool value {}) :: stack)
  | .null, stack => some (.node (.null {}) :: stack)
  | .table name, stack => some (.ofTableName name :: stack)
  | .dup, e :: stack => some (e :: e :: stack)
  | .binary op, right :: left :: stack => some (.node (.binary left op right {}) :: stack)
  | .call name arity, stack =>
    (takeMany arity stack).map fun (arguments, stack) => .ofCall name arguments :: stack
  | .query width, stack =>
    (takeMany width stack).map fun (columns, stack) => .ofColumns columns :: stack
  | .select, e :: stack => some (.node (.select e none {}) :: stack)
  | .collate name, stack =>
    changeName (fun i => { i with collate := some { name } }) stack
  | .tag dialect, stack => changeName (fun i => { i with tag := ⟨some dialect⟩ }) stack
  | _, _ => none

/-- The stacks after each of several steps; none if one of them does not find its operands. -/
def runAll : List BuildStep → List Expr → Option (List (List Expr))
  | [], _ => some []
  | step :: steps, stack => do
    let stack ← step.run stack
    return stack :: (← runAll steps stack)

end BuildStep

/-- Whether the two top trees of a stack are equal. -/
def topsAgree : List Expr → Bool
  | a :: b :: _ => a == b
  | _ => false

end SqlTree

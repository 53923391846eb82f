import SqlTree.Proofs.AllOf
import SqlTree.Proofs.Traversal

/-!
# Constructs that only some dialects have

Some constructs belong to some of the dialects only (`Speciality.dialects`).  Here it is told
which of them a node has by itself, and which a tree has anywhere.  A tree keeps to a dialect if
the dialect has all constructs that occur in the tree.
-/

namespace SqlTree

/-- A construct that some of the dialects have and others do not. -/
inductive Speciality where
  /-- `TOP n`. -/
  | top
  /-- The table that the rows of a query go into. -/
  | into
  /-- A hint behind a table. -/
  | tableHint
  /-- `N'…'`. -/
  | nationalString
  /-- `CONNECT BY`. -/
  | connectBy
  /-- `ORDER SIBLINGS BY`. -/
  | siblings
  /-- The database that a table is linked to. -/
  | link
  /-- `SELECT UNIQUE`. -/
  | unique
  /-- The set operator `MINUS`. -/
  | minus
  /-- `ARRAY[…]`. -/
  | array
  /-- `ILIKE` and `NOT ILIKE`. -/
  | ilike
  /-- `PIVOT (…)`. -/
  | pivot
  /-- `INTERVAL value`. -/
  | interval
  /-- A hint behind the first word of a statement. -/
  | statementHint
  deriving DecidableEq, Repr

def Speciality.dialects : Speciality → List Dialect
  | .top | .into | .tableHint | .nationalString => [.sqlServer]
  | .connectBy | .siblings | .link | .unique | .minus => [.oracle]
  | .array | .ilike => [.postgreSql]
  | .pivot => [.sqlServer, .oracle]
  | .interval => [.mySql, .oracle, .postgreSql]
  | .statementHint => [.mySql, .oracle]

/-- A construct, once for each of the things that are one. -/
def Speciality.each {α : Type} (s : Speciality) (things : List α) : List Speciality :=
  things.map fun _ => s

/-! ## The constructs of one node -/

section Own

variable {ε : Type}

def BinaryOp.specialities : BinaryOp → List Speciality
  | .ilike | .notILike => [.ilike]
  | _ => []

def SetOp.specialities : SetOp → List Speciality
  | .minus => [.minus]
  | _ => []

def RowOption.specialities : RowOption → List Speciality
  | .unique => [.unique]
  | _ => []

def OrderBy.specialities (o : OrderBy ε) : List Speciality :=
  if o.siblings then [.siblings] else []

def WithinGroup.specialities (w : WithinGroup ε) : List Speciality :=
  w.orderBy.specialities

def Window.specialities (w : Window ε) : List Speciality :=
  w.orderBy.toList.flatMap OrderBy.specialities

def Call.specialities (c : Call ε) : List Speciality :=
  c.withinGroup.toList.flatMap WithinGroup.specialities ++
    c.window.toList.flatMap Window.specialities

def Table.specialities (t : Table ε) : List Speciality :=
  Speciality.link.each t.link.toList ++ Speciality.tableHint.each t.hints

def SelectQuery.specialities (q : SelectQuery ε) : List Speciality :=
  Speciality.statementHint.each q.hints ++ q.option.toList.flatMap RowOption.specialities ++
    Speciality.top.each q.top.toList ++ Speciality.into.each q.into.toList ++
    Speciality.connectBy.each q.connectBy.toList ++ q.orderBy.toList.flatMap OrderBy.specialities

/-- The constructs that a node has by itself, in its clauses and operators. -/
def Node.specialities : Node ε → List Speciality
  | .selectQuery query => query.specialities
  | .union _ _ _ op _ => op.specialities
  | .table source => source.specialities
  | .tableFunction function _ _ => function.specialities
  | .pivotTable _ aggregate _ _ _ _ => .pivot :: aggregate.specialities
  | .string _ isNational _ => if isNational then [.nationalString] else []
  | .interval _ _ _ => [.interval]
  | .array _ _ => [.array]
  | .binary _ op _ _ => op.specialities
  | .call function => function.specialities
  | .insert statement => Speciality.statementHint.each statement.hints
  | .update statement => Speciality.statementHint.each statement.hints
  | .delete statement => Speciality.statementHint.each statement.hints
  | _ => []

end Own

/-! ## The constructs of a tree -/

/-- The constructs that occur anywhere in a tree. -/
def Expr.specialities (e : Expr) : List Speciality :=
  e.everyNode.flatMap fun node => node.toNode.specialities

theorem Expr.specialities_node (n : Node Expr) :
    (node n).specialities = n.specialities ++ n.held.flatMap specialities := by
  rw [specialities, everyNode_eq, List.flatMap_cons, List.flatMap_assoc]
  rfl

/-! ## Dialects that have all of them -/

namespace Dialect

abbrev Has (d : Dialect) (constructs : List Speciality) : Prop :=
  AllOf (fun s => d ∈ s.dialects) constructs

def Confines (d : Dialect) (e : Expr) : Prop :=
  d.Has e.specialities

abbrev ConfinesAll (d : Dialect) (es : List Expr) : Prop :=
  AllOf d.Confines es

variable {d : Dialect} {s : Speciality}

@[simp] theorem has_each {α : Type} {things : List α} :
    d.Has (s.each things) ↔ ∀ thing ∈ things, d ∈ s.dialects :=
  List.forall_mem_map

@[simp] theorem has_ite {b : Bool} :
    d.Has (if b = true then [s] else []) ↔ (b = true → d ∈ s.dialects) := by
  cases b <;> simp

/-- A tree keeps to a dialect if its root and all that it holds do. -/
theorem confines_node {n : Node Expr} :
    d.Confines (.node n) ↔ d.Has n.specialities ∧ d.ConfinesAll n.held := by
  rw [Confines, Expr.specialities_node, Has, AllOf.append_iff, AllOf.flatMap_iff]
  rfl

/-- A node without a construct of its own. -/
theorem Confines.plain {n : Node Expr} (hown : n.specialities = []) (hheld : d.ConfinesAll n.held) :
    d.Confines (.node n) :=
  confines_node.2 ⟨hown ▸ AllOf.nil, hheld⟩

end Dialect

end SqlTree

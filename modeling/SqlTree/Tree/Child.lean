import SqlTree.Tree.Fold

/-!
# Children and where they stand

A walk through a tree goes from a node to its children.  A child has a key, which names the field of
its parent that holds it, and an index where that field is a list.  The fields of a clause belong to
the node that the clause is part of.  Main statement: `Node.children_map`, which says that keys and
indices do not depend on the children themselves.
-/

namespace SqlTree

/-- A child of a node, and where it stands. -/
structure Child (ε : Type) where
  key : String
  index : Option Nat
  expr : ε

namespace Child

variable {ε α : Type}

def map (f : ε → α) (c : Child ε) : Child α :=
  ⟨c.key, c.index, f c.expr⟩

def one (key : String) (e : ε) : List (Child ε) :=
  [⟨key, none, e⟩]

def optional (key : String) (e : Option ε) : List (Child ε) :=
  e.toList.flatMap (one key)

def list (key : String) (es : List ε) : List (Child ε) :=
  es.mapIdx fun i e => ⟨key, some i, e⟩

@[simp] theorem map_one (f : ε → α) (key : String) (e : ε) :
    (one key e).map (map f) = one key (f e) := rfl

@[simp] theorem map_optional (f : ε → α) (key : String) (e : Option ε) :
    (optional key e).map (map f) = optional key (e.map f) := by
  cases e <;> rfl

@[simp] theorem map_list (f : ε → α) (key : String) (es : List ε) :
    (list key es).map (map f) = list key (es.map f) := by
  apply List.ext_getElem <;> simp [list, map]

end Child

section Clauses

variable {ε α : Type}

open Child

def OrderBy.children (key : String) (o : OrderBy ε) : List (Child ε) :=
  list key (o.items.map OrderItem.expr)

def Call.children (c : Call ε) : List (Child ε) :=
  list "arguments" c.arguments ++
    (c.withinGroup.toList.flatMap fun w => w.orderBy.children "within_group") ++
    (c.window.toList.flatMap fun o =>
      (o.partitionBy.toList.flatMap fun p => list "over.partition_by" p.items) ++
      o.orderBy.toList.flatMap (OrderBy.children "over.order_by"))

def SelectQuery.children (q : SelectQuery ε) : List (Child ε) :=
  list "with" (q.withQueries.map WithQuery.query) ++
    list "hints" (q.hints.map Hint.body) ++
    optional "top" (q.top.map Top.count) ++
    list "columns" (q.columns.map SelectItem.body) ++
    optional "into" q.into ++
    optional "from" q.source ++
    optional "where" q.condition ++
    (q.connectBy.toList.flatMap fun c =>
      optional "connect_by.start_with" c.startWith ++ one "connect_by" c.condition) ++
    (q.groupBy.toList.flatMap fun g =>
      list "group_by" g.items ++ optional "group_by.having" g.having) ++
    q.orderBy.toList.flatMap (OrderBy.children "order_by") ++
    (q.limit.toList.flatMap fun l =>
      optional "limit.offset" l.offset ++ optional "limit.row_count" l.rowCount)

def CaseItem.children (item : CaseItem ε) (i : Nat) : List (Child ε) :=
  [⟨"when", some i, item.condition⟩, ⟨"then", some i, item.result⟩]

/-- The children in a row of values; all of them carry the index of the row. -/
def rowChildren (row : List ε) (i : Nat) : List (Child ε) :=
  row.map fun e => ⟨"values", some i, e⟩

@[simp] theorem OrderBy.children_map (f : ε → α) (key : String) (o : OrderBy ε) :
    (o.map f).children key = (o.children key).map (Child.map f) := by
  simp [children, map, OrderItem.map, Function.comp_def]

@[simp] theorem Call.children_map (f : ε → α) (c : Call ε) :
    (c.map f).children = c.children.map (Child.map f) := by
  rcases c with ⟨_, _, _, _, within, window, _⟩
  rcases within with _ | within <;> rcases window with _ | ⟨_ | partition, _ | order, _⟩ <;>
    simp [children, map, WithinGroup.map, Window.map, PartitionBy.map]

@[simp] theorem SelectQuery.children_map (f : ε → α) (q : SelectQuery ε) :
    (q.map f).children = q.children.map (Child.map f) := by
  simp only [children, map, List.map_append, map_list, map_optional, List.map_flatMap,
    Option.toList_map, List.flatMap_map]
  simp [WithQuery.map, Hint.map, Top.map, SelectItem.map, ConnectBy.map, GroupBy.map, Limit.map,
    Function.comp_def]

@[simp] theorem CaseItem.children_map (f : ε → α) (item : CaseItem ε) (i : Nat) :
    (item.map f).children i = (item.children i).map (Child.map f) := rfl

@[simp] theorem rowChildren_map (f : ε → α) (row : List ε) (i : Nat) :
    rowChildren (row.map f) i = (rowChildren row i).map (Child.map f) := by
  simp [rowChildren, Child.map]

end Clauses

namespace Node

variable {ε α : Type}

open Child

/-- The children of a node that a walk goes to, in the order in which they are written. -/
def children : Node ε → List (Child ε)
  | .select query _ _ => one "query" query
  | .selectQuery query => query.children
  | .union withQueries left right _ _ =>
    list "with" (withQueries.map WithQuery.query) ++ one "left" left ++ one "right" right
  | .table source => list "hints" (source.hints.map Hint.body)
  | .joinTable left right _ condition _ _ =>
    one "left" left ++ one "right" right ++ optional "on" condition
  | .tableFunction function _ _ => function.children
  | .pivotTable source aggregate column values _ _ =>
    one "source" source ++ list "aggregate" aggregate.arguments ++ one "pivot_column" column ++
      list "pivot_values" (values.map SelectItem.body)
  | .identifier _ | .property _ _ _ _ _ | .allColumns _ _ | .variable _ _ _ | .number _ _
  | .string _ _ _ | .bool _ _ | .null _ => []
  | .interval value _ _ => one "value" value
  | .array elements _ => list "elements" elements
  | .binary left _ right _ => one "left" left ++ one "right" right
  | .not operand _ => one "expr" operand
  | .negate operand _ => one "expr" operand
  | .between operand low high _ _ => one "expr" operand ++ one "low" low ++ one "high" high
  | .membership operand targets query _ _ =>
    one "expr" operand ++ list "targets" targets ++ optional "query" query
  | .existence query _ => one "query" query
  | .any query _ => one "query" query
  | .all query _ => one "query" query
  | .regex operand pattern _ _ _ => one "expr" operand ++ one "pattern" pattern
  | .caseOf operand items otherwise _ =>
    optional "operand" operand ++ (items.mapIdx fun i item => item.children i).flatten ++
      optional "else" otherwise
  | .call function => function.children
  | .atTimeZone operand zone _ => one "expr" operand ++ one "zone" zone
  | .arrayIndex base index _ => one "array" base ++ one "index" index
  | .arraySlice base lower upper _ =>
    one "array" base ++ optional "lower" lower ++ optional "upper" upper
  | .insert statement =>
    list "hints" (statement.hints.map Hint.body) ++ one "table" statement.table ++
      (statement.rows.mapIdx fun i row => rowChildren row i).flatten ++
      optional "query" statement.query
  | .update statement =>
    list "hints" (statement.hints.map Hint.body) ++ one "table" statement.table ++
      list "set" statement.assignments ++ optional "from" statement.source ++
      optional "where" statement.condition
  | .delete statement =>
    list "hints" (statement.hints.map Hint.body) ++ one "table" statement.table ++
      optional "from" statement.source ++ optional "where" statement.condition

private theorem map_flatten_mapIdx {β γ : Type} (xs : List β) (g : Nat → β → List (Child ε))
    (h : Nat → γ → List (Child α)) (m : β → γ) (f : ε → α)
    (comm : ∀ i x, h i (m x) = (g i x).map (Child.map f)) :
    ((xs.map m).mapIdx h).flatten = (xs.mapIdx g).flatten.map (Child.map f) := by
  rw [List.map_flatten]
  congr 1
  apply List.ext_getElem <;> simp [comm]

/-- Keys and indices do not depend on the children. -/
@[simp] theorem children_map (f : ε → α) (n : Node ε) :
    (n.map f).children = n.children.map (Child.map f) := by
  cases n with
  | caseOf operand items otherwise tag =>
    have branches := map_flatten_mapIdx items (fun i item => item.children i)
      (fun i item => item.children i) (CaseItem.map f) f fun _ _ => rfl
    simp [children, map, branches]
  | insert statement =>
    have rows := map_flatten_mapIdx statement.rows (fun i row => rowChildren row i)
      (fun i row => rowChildren row i) (List.map f) f fun i row => rowChildren_map f row i
    simp [children, map, Insert.map, Hint.map, Function.comp_def, rows]
  | _ => simp [children, map, Table.map, Update.map, Delete.map, Hint.map, WithQuery.map,
      SelectItem.map, Function.comp_def] <;> simp [Call.map]

end Node

namespace Expr

/-- The children of the root. -/
def children (e : Expr) : List Expr :=
  e.toNode.children.map Child.expr

end Expr

end SqlTree

import SqlTree.Tree.Clause
import SqlTree.Tree.Kind

/-!
# Nodes and expressions

`Node ε` is the shape of one node whose child expressions are of type `ε`, and an `Expr` is a node
whose children are expressions.  As for clauses, `map` changes the children, `held` lists all of
them in the order of the fields, and `relabel` changes tags and texts.
-/

namespace SqlTree

/-- One node of a tree, over the type of its child expressions. -/
inductive Node (ε : Type) where
  /-- A query as a statement, a sub-query or a derived table. -/
  | select (query : ε) (aliasName : Option Identifier) (tag : Tag)
  /-- One `SELECT` block. -/
  | selectQuery (query : SelectQuery ε)
  /-- Two queries joined by a set operator. -/
  | union (withQueries : List (WithQuery ε)) (left : ε) (right : ε) (op : SetOp) (tag : Tag)
  /-- A table. -/
  | table (source : Table ε)
  /-- Two sources joined; a comma join is an inner join without a condition of its own. -/
  | joinTable (left : ε) (right : ε) (kind : JoinKind) (condition : Option ε) (isComma : Bool)
      (tag : Tag)
  /-- A function call as a source. -/
  | tableFunction (function : Call ε) (aliasName : Option Identifier) (tag : Tag)
  /-- `source PIVOT (aggregate FOR column IN (values)) [AS alias]`. -/
  | pivotTable (source : ε) (aggregate : Call ε) (column : ε) (values : List (SelectItem ε))
      (aliasName : Option Identifier) (tag : Tag)
  /-- A name that stands alone. -/
  | identifier (name : Identifier)
  /-- A qualified name: `[schema.]owner.name`. -/
  | property (schema : Option Identifier) (owner : Identifier) (name : Identifier)
      (collate : Option Collate) (tag : Tag)
  /-- `[owner.]*`. -/
  | allColumns (owner : List Identifier) (tag : Tag)
  /-- A variable: its sigil `@`, `@@` or `:` and its name. -/
  | variable (sigil : String) (name : String) (tag : Tag)
  /-- A number as it is written, with its sign. -/
  | number (value : String) (tag : Tag)
  /-- A string, by its content. -/
  | string (value : String) (isNational : Bool) (tag : Tag)
  /-- `TRUE` or `FALSE`. -/
  | bool (value : Bool) (tag : Tag)
  /-- `NULL`. -/
  | null (tag : Tag)
  /-- `INTERVAL value [unit]`. -/
  | interval (value : ε) (unit : Option TimeUnit) (tag : Tag)
  /-- `ARRAY[elements]`. -/
  | array (elements : List ε) (tag : Tag)
  /-- An operator between two operands. -/
  | binary (left : ε) (op : BinaryOp) (right : ε) (tag : Tag)
  /-- `NOT operand`. -/
  | not (operand : ε) (tag : Tag)
  /-- `-operand`, of anything but a number. -/
  | negate (operand : ε) (tag : Tag)
  /-- `operand [NOT] BETWEEN low AND high`. -/
  | between (operand : ε) (low : ε) (high : ε) (negated : Bool) (tag : Tag)
  /-- `operand [NOT] IN (targets)` or `operand [NOT] IN (query)`. -/
  | membership (operand : ε) (targets : List ε) (query : Option ε) (negated : Bool) (tag : Tag)
  /-- `EXISTS (query)`. -/
  | existence (query : ε) (tag : Tag)
  /-- `ANY (query)` or `ANY (array)`. -/
  | any (query : ε) (tag : Tag)
  /-- `ALL (query)` or `ALL (array)`. -/
  | all (query : ε) (tag : Tag)
  /-- A match with a regular expression. -/
  | regex (operand : ε) (pattern : ε) (ignoresCase : Bool) (negated : Bool) (tag : Tag)
  /-- `CASE [operand] items [ELSE otherwise] END`. -/
  | caseOf (operand : Option ε) (items : List (CaseItem ε)) (otherwise : Option ε) (tag : Tag)
  /-- A function call. -/
  | call (function : Call ε)
  /-- `operand AT TIME ZONE zone`. -/
  | atTimeZone (operand : ε) (zone : ε) (tag : Tag)
  /-- `base[index]`. -/
  | arrayIndex (base : ε) (index : ε) (tag : Tag)
  /-- `base[lower:upper]`; either bound may be left out. -/
  | arraySlice (base : ε) (lower : Option ε) (upper : Option ε) (tag : Tag)
  /-- An `INSERT` statement. -/
  | insert (statement : Insert ε)
  /-- An `UPDATE` statement. -/
  | update (statement : Update ε)
  /-- A `DELETE` statement. -/
  | delete (statement : Delete ε)
  deriving BEq, Hashable

/-- An expression, a source or a statement. -/
inductive Expr where
  | node (root : Node Expr)

namespace Node

variable {ε α : Type}

def map (f : ε → α) : Node ε → Node α
  | .select query aliasName tag => .select (f query) aliasName tag
  | .selectQuery query => .selectQuery (query.map f)
  | .union withQueries left right op tag =>
    .union (withQueries.map (WithQuery.map f)) (f left) (f right) op tag
  | .table source => .table (source.map f)
  | .joinTable left right kind condition isComma tag =>
    .joinTable (f left) (f right) kind (condition.map f) isComma tag
  | .tableFunction function aliasName tag => .tableFunction (function.map f) aliasName tag
  | .pivotTable source aggregate column values aliasName tag =>
    .pivotTable (f source) (aggregate.map f) (f column) (values.map (SelectItem.map f)) aliasName
      tag
  | .identifier name => .identifier name
  | .property schema owner name collate tag => .property schema owner name collate tag
  | .allColumns owner tag => .allColumns owner tag
  | .variable sigil name tag => .variable sigil name tag
  | .number value tag => .number value tag
  | .string value isNational tag => .string value isNational tag
  | .bool value tag => .bool value tag
  | .null tag => .null tag
  | .interval value unit tag => .interval (f value) unit tag
  | .array elements tag => .array (elements.map f) tag
  | .binary left op right tag => .binary (f left) op (f right) tag
  | .not operand tag => .not (f operand) tag
  | .negate operand tag => .negate (f operand) tag
  | .between operand low high negated tag => .between (f operand) (f low) (f high) negated tag
  | .membership operand targets query negated tag =>
    .membership (f operand) (targets.map f) (query.map f) negated tag
  | .existence query tag => .existence (f query) tag
  | .any query tag => .any (f query) tag
  | .all query tag => .all (f query) tag
  | .regex operand pattern ignoresCase negated tag =>
    .regex (f operand) (f pattern) ignoresCase negated tag
  | .caseOf operand items otherwise tag =>
    .caseOf (operand.map f) (items.map (CaseItem.map f)) (otherwise.map f) tag
  | .call function => .call (function.map f)
  | .atTimeZone operand zone tag => .atTimeZone (f operand) (f zone) tag
  | .arrayIndex base index tag => .arrayIndex (f base) (f index) tag
  | .arraySlice base lower upper tag => .arraySlice (f base) (lower.map f) (upper.map f) tag
  | .insert statement => .insert (statement.map f)
  | .update statement => .update (statement.map f)
  | .delete statement => .delete (statement.map f)

def held : Node ε → List ε
  | .select query _ _ => [query]
  | .selectQuery query => query.held
  | .union withQueries left right _ _ => withQueries.flatMap WithQuery.held ++ [left, right]
  | .table source => source.held
  | .joinTable left right _ condition _ _ => [left, right] ++ condition.toList
  | .tableFunction function _ _ => function.held
  | .pivotTable source aggregate column values _ _ =>
    [source] ++ aggregate.held ++ [column] ++ values.flatMap SelectItem.held
  | .identifier _ => []
  | .property _ _ _ _ _ => []
  | .allColumns _ _ => []
  | .variable _ _ _ => []
  | .number _ _ => []
  | .string _ _ _ => []
  | .bool _ _ => []
  | .null _ => []
  | .interval value _ _ => [value]
  | .array elements _ => elements
  | .binary left _ right _ => [left, right]
  | .not operand _ => [operand]
  | .negate operand _ => [operand]
  | .between operand low high _ _ => [operand, low, high]
  | .membership operand targets query _ _ => [operand] ++ targets ++ query.toList
  | .existence query _ => [query]
  | .any query _ => [query]
  | .all query _ => [query]
  | .regex operand pattern _ _ _ => [operand, pattern]
  | .caseOf operand items otherwise _ =>
    operand.toList ++ items.flatMap CaseItem.held ++ otherwise.toList
  | .call function => function.held
  | .atTimeZone operand zone _ => [operand, zone]
  | .arrayIndex base index _ => [base, index]
  | .arraySlice base lower upper _ => [base] ++ lower.toList ++ upper.toList
  | .insert statement => statement.held
  | .update statement => statement.held
  | .delete statement => statement.held

def relabel (r : Relabel) : Node ε → Node ε
  | .select query aliasName tag =>
    .select query (aliasName.map (Identifier.relabel r)) (r.tag tag)
  | .selectQuery query => .selectQuery (query.relabel r)
  | .union withQueries left right op tag =>
    .union (withQueries.map (WithQuery.relabel r)) left right op (r.tag tag)
  | .table source => .table (source.relabel r)
  | .joinTable left right kind condition isComma tag =>
    .joinTable left right kind condition isComma (r.tag tag)
  | .tableFunction function aliasName tag =>
    .tableFunction (function.relabel r) (aliasName.map (Identifier.relabel r)) (r.tag tag)
  | .pivotTable source aggregate column values aliasName tag =>
    .pivotTable source (aggregate.relabel r) column (values.map (SelectItem.relabel r))
      (aliasName.map (Identifier.relabel r)) (r.tag tag)
  | .identifier name => .identifier (name.relabel r)
  | .property schema owner name collate tag =>
    .property (schema.map (Identifier.relabel r)) (owner.relabel r) (name.relabel r)
      (collate.map (Collate.relabel r)) (r.tag tag)
  | .allColumns owner tag => .allColumns (owner.map (Identifier.relabel r)) (r.tag tag)
  | .variable sigil name tag => .variable (r.text sigil) (r.text name) (r.tag tag)
  | .number value tag => .number (r.text value) (r.tag tag)
  | .string value isNational tag => .string (r.text value) isNational (r.tag tag)
  | .bool value tag => .bool value (r.tag tag)
  | .null tag => .null (r.tag tag)
  | .interval value unit tag => .interval value (unit.map (TimeUnit.relabel r)) (r.tag tag)
  | .array elements tag => .array elements (r.tag tag)
  | .binary left op right tag => .binary left op right (r.tag tag)
  | .not operand tag => .not operand (r.tag tag)
  | .negate operand tag => .negate operand (r.tag tag)
  | .between operand low high negated tag => .between operand low high negated (r.tag tag)
  | .membership operand targets query negated tag =>
    .membership operand targets query negated (r.tag tag)
  | .existence query tag => .existence query (r.tag tag)
  | .any query tag => .any query (r.tag tag)
  | .all query tag => .all query (r.tag tag)
  | .regex operand pattern ignoresCase negated tag =>
    .regex operand pattern ignoresCase negated (r.tag tag)
  | .caseOf operand items otherwise tag =>
    .caseOf operand (items.map (CaseItem.relabel r)) otherwise (r.tag tag)
  | .call function => .call (function.relabel r)
  | .atTimeZone operand zone tag => .atTimeZone operand zone (r.tag tag)
  | .arrayIndex base index tag => .arrayIndex base index (r.tag tag)
  | .arraySlice base lower upper tag => .arraySlice base lower upper (r.tag tag)
  | .insert statement => .insert (statement.relabel r)
  | .update statement => .update (statement.relabel r)
  | .delete statement => .delete (statement.relabel r)

def kind : Node ε → NodeKind
  | .select .. => .select
  | .selectQuery .. => .selectQuery
  | .union .. => .union
  | .table .. => .table
  | .joinTable .. => .joinTable
  | .tableFunction .. => .tableFunction
  | .pivotTable .. => .pivotTable
  | .identifier .. => .identifier
  | .property .. => .property
  | .allColumns .. => .allColumns
  | .variable .. => .variable
  | .number .. => .number
  | .string .. => .string
  | .bool .. => .bool
  | .null .. => .null
  | .interval .. => .interval
  | .array .. => .array
  | .binary .. => .binary
  | .not .. => .not
  | .negate .. => .negate
  | .between .. => .between
  | .membership .. => .membership
  | .existence .. => .existence
  | .any .. => .any
  | .all .. => .all
  | .regex .. => .regex
  | .caseOf .. => .caseOf
  | .call .. => .call
  | .atTimeZone .. => .atTimeZone
  | .arrayIndex .. => .arrayIndex
  | .arraySlice .. => .arraySlice
  | .insert .. => .insert
  | .update .. => .update
  | .delete .. => .delete

def tag : Node ε → Tag
  | .select _ _ tag => tag
  | .selectQuery query => query.tag
  | .union _ _ _ _ tag => tag
  | .table source => source.tag
  | .joinTable _ _ _ _ _ tag => tag
  | .tableFunction _ _ tag => tag
  | .pivotTable _ _ _ _ _ tag => tag
  | .identifier name => name.tag
  | .property _ _ _ _ tag => tag
  | .allColumns _ tag => tag
  | .variable _ _ tag => tag
  | .number _ tag => tag
  | .string _ _ tag => tag
  | .bool _ tag => tag
  | .null tag => tag
  | .interval _ _ tag => tag
  | .array _ tag => tag
  | .binary _ _ _ tag => tag
  | .not _ tag => tag
  | .negate _ tag => tag
  | .between _ _ _ _ tag => tag
  | .membership _ _ _ _ tag => tag
  | .existence _ tag => tag
  | .any _ tag => tag
  | .all _ tag => tag
  | .regex _ _ _ _ tag => tag
  | .caseOf _ _ _ tag => tag
  | .call function => function.tag
  | .atTimeZone _ _ tag => tag
  | .arrayIndex _ _ tag => tag
  | .arraySlice _ _ _ tag => tag
  | .insert statement => statement.tag
  | .update statement => statement.tag
  | .delete statement => statement.tag

@[simp] theorem held_map (f : ε → α) (n : Node ε) : (n.map f).held = n.held.map f := by
  cases n <;>
    simp [held, map, List.map_flatMap, List.flatMap_map, Option.toList_map]

end Node

namespace Expr

def toNode : Expr → Node Expr
  | .node root => root

def kind (e : Expr) : NodeKind :=
  e.toNode.kind

def dialect (e : Expr) : Option Dialect :=
  e.toNode.tag.dialect

def held (e : Expr) : List Expr :=
  e.toNode.held

def isQuery (e : Expr) : Bool :=
  match e.kind with
  | .select | .selectQuery | .union => true
  | _ => false

/-- Whether the root is a whole statement. -/
def isStatement (e : Expr) : Bool :=
  match e.kind with
  | .select | .insert | .update | .delete => true
  | _ => false

end Expr

end SqlTree

import SqlTree.Json.Encode

/-!
# Trees from JSON

Reading is the inverse of writing and forgives a little more: a field that may be missing may be
left out or `null`, unknown fields are ignored, and a record may also be written as the list of its
fields in their order.  Anything else that is not as it would be written is refused.
-/

namespace SqlTree

namespace Json

/-- The fields of a record that have not been read yet. -/
inductive Record where
  /-- The fields by name. -/
  | named (fields : List (String × Json))
  /-- The fields in their order. -/
  | listed (items : List Json)

/-- Reads some of the fields of a record, in the order of the fields. -/
abbrev FieldReader (α : Type) := StateT Record Option α

def field {α : Type} (name : String) (read : Json → Option α) : FieldReader α
  | .named fields =>
    match fields.lookup name with
    | some value => (read value).map fun a => (a, .named fields)
    | none => none
  | .listed [] => none
  | .listed (value :: items) => (read value).map fun a => (a, .listed items)

/-- Reads a field that may be missing. -/
def optionField {α : Type} (name : String) (read : Json → Option α) : FieldReader (Option α)
  | .named fields =>
    match fields.lookup name with
    | some value => (value.maybe? read).map fun a => (a, .named fields)
    | none => some (none, .named fields)
  | .listed [] => none
  | .listed (value :: items) => (value.maybe? read).map fun a => (a, .listed items)

/-- Reads the tag, the last field; it may also be left out of a list. -/
def tagField : FieldReader Tag
  | .listed [] => some ({}, .listed [])
  | record => do
    let (dialect, record) ← optionField "dialect" (constant? Dialect.ofStoredName?) record
    some (⟨dialect⟩, record)

def listField {α : Type} (name : String) (read : Json → Option α) : FieldReader (List α) :=
  field name (list? read)

def stringField (name : String) : FieldReader String :=
  field name string?

def boolField (name : String) : FieldReader Bool :=
  field name bool?

/-- Reads a record; a list of fields must not be longer than the record. -/
def record? {α : Type} (read : FieldReader α) : Json → Option α
  | .object fields => (read (.named fields)).map Prod.fst
  | .array items =>
    match read (.listed items) with
    | some (a, .listed []) => some a
    | _ => none
  | _ => none

end Json

open Json

def Collate.ofJson? : Json → Option Collate :=
  record? do return ⟨← stringField "name", ← tagField⟩

def TimeUnit.ofJson? : Json → Option TimeUnit :=
  record? do return ⟨← stringField "unit", ← tagField⟩

def Identifier.ofJson? : Json → Option Identifier :=
  record? do
    return ⟨← stringField "value", ← optionField "left_qualifier" string?,
      ← optionField "right_qualifier" string?, ← optionField "collate" Collate.ofJson?,
      ← tagField⟩

section Clauses

variable {ε : Type} (expr : Json → Option ε)

def SelectItem.ofJson? : Json → Option (SelectItem ε) :=
  record? do return ⟨← field "body" expr, ← optionField "alias" Identifier.ofJson?, ← tagField⟩

def WithQuery.ofJson? : Json → Option (WithQuery ε) :=
  record? do
    return ⟨← field "name" Identifier.ofJson?, ← listField "columns" Identifier.ofJson?,
      ← field "query" expr, ← tagField⟩

def Hint.ofJson? : Json → Option (Hint ε) :=
  record? do return ⟨← field "body" expr, ← tagField⟩

def Top.ofJson? : Json → Option (Top ε) :=
  record? do
    return ⟨← field "count" expr, ← boolField "percent", ← boolField "with_ties", ← tagField⟩

def OrderItem.ofJson? : Json → Option (OrderItem ε) :=
  record? do
    return ⟨← field "expr" expr, ← optionField "order" (constant? SortOrder.ofName?),
      ← optionField "nulls" (constant? NullsOrder.ofName?), ← tagField⟩

def OrderBy.ofJson? : Json → Option (OrderBy ε) :=
  record? do
    return ⟨← listField "items" (OrderItem.ofJson? expr), ← boolField "siblings", ← tagField⟩

def GroupBy.ofJson? : Json → Option (GroupBy ε) :=
  record? do return ⟨← listField "items" expr, ← optionField "having" expr, ← tagField⟩

def ConnectBy.ofJson? : Json → Option (ConnectBy ε) :=
  record? do
    return ⟨← optionField "start_with" expr, ← field "condition" expr, ← boolField "nocycle",
      ← boolField "prior", ← tagField⟩

def Limit.ofJson? : Json → Option (Limit ε) :=
  record? do
    return ⟨← optionField "offset" expr, ← optionField "row_count" expr, ← tagField⟩

def PartitionBy.ofJson? : Json → Option (PartitionBy ε) :=
  record? do return ⟨← listField "items" expr, ← tagField⟩

def WithinGroup.ofJson? : Json → Option (WithinGroup ε) :=
  record? do return ⟨← field "order_by" (OrderBy.ofJson? expr), ← tagField⟩

def Window.ofJson? : Json → Option (Window ε) :=
  record? do
    return ⟨← optionField "partition_by" (PartitionBy.ofJson? expr),
      ← optionField "order_by" (OrderBy.ofJson? expr), ← tagField⟩

def CaseItem.ofJson? : Json → Option (CaseItem ε) :=
  record? do return ⟨← field "when" expr, ← field "then" expr, ← tagField⟩

def Call.ofJson? : Json → Option (Call ε) :=
  record? do
    return ⟨← listField "owner" Identifier.ofJson?, ← field "name" Identifier.ofJson?,
      ← boolField "distinct", ← listField "arguments" expr,
      ← optionField "within_group" (WithinGroup.ofJson? expr),
      ← optionField "over" (Window.ofJson? expr), ← tagField⟩

def SelectQuery.ofJson? : Json → Option (SelectQuery ε) :=
  record? do
    return ⟨← listField "with_sub_queries" (WithQuery.ofJson? expr),
      ← listField "hints" (Hint.ofJson? expr),
      ← optionField "option" (constant? RowOption.ofName?), ← optionField "top" (Top.ofJson? expr),
      ← listField "columns" (SelectItem.ofJson? expr), ← optionField "into" expr,
      ← optionField "from" expr, ← optionField "where_clause" expr,
      ← optionField "group_by" (GroupBy.ofJson? expr),
      ← optionField "connect_by" (ConnectBy.ofJson? expr),
      ← optionField "order_by" (OrderBy.ofJson? expr), ← optionField "limit" (Limit.ofJson? expr),
      ← tagField⟩

def Table.ofJson? : Json → Option (Table ε) :=
  record? do
    return ⟨← optionField "database" Identifier.ofJson?, ← optionField "schema" Identifier.ofJson?,
      ← field "name" Identifier.ofJson?, ← optionField "db_link" Identifier.ofJson?,
      ← optionField "alias" Identifier.ofJson?, ← listField "hints" (Hint.ofJson? expr),
      ← tagField⟩

def Insert.ofJson? : Json → Option (Insert ε) :=
  record? do
    return ⟨← listField "hints" (Hint.ofJson? expr), ← field "table" expr,
      ← listField "columns" Identifier.ofJson?, ← listField "values" (list? expr),
      ← optionField "query" expr, ← tagField⟩

def Update.ofJson? : Json → Option (Update ε) :=
  record? do
    return ⟨← listField "hints" (Hint.ofJson? expr), ← field "table" expr, ← listField "set" expr,
      ← optionField "from" expr, ← optionField "where_clause" expr, ← tagField⟩

def Delete.ofJson? : Json → Option (Delete ε) :=
  record? do
    return ⟨← listField "hints" (Hint.ofJson? expr), ← field "table" expr,
      ← optionField "from" expr, ← optionField "where_clause" expr, ← tagField⟩

end Clauses

namespace Node

variable {ε : Type} (expr : Json → Option ε)

/-- Reads the record of the node that is stored under a key. -/
def ofJsonRecord? (key : String) (value : Json) : Option (Node ε) :=
  match key with
  | "select" => value.record? do
    return .select (← field "query" expr) (← optionField "alias" Identifier.ofJson?) (← tagField)
  | "select_query" => (SelectQuery.ofJson? expr value).map .selectQuery
  | "union" => value.record? do
    return .union (← listField "with_sub_queries" (WithQuery.ofJson? expr)) (← field "left" expr)
      (← field "right" expr) (← field "kind" (constant? SetOp.ofName?)) (← tagField)
  | "table" => (Table.ofJson? expr value).map .table
  | "join_table" => value.record? do
    return .joinTable (← field "left" expr) (← field "right" expr)
      (← field "kind" (constant? JoinKind.ofName?)) (← optionField "on" expr)
      (← boolField "is_comma_join") (← tagField)
  | "reference_table" => value.record? do
    return .tableFunction (← field "function" (Call.ofJson? expr))
      (← optionField "alias" Identifier.ofJson?) (← tagField)
  | "pivot_table" => value.record? do
    return .pivotTable (← field "source" expr) (← field "aggregate" (Call.ofJson? expr))
      (← field "pivot_column" expr) (← listField "pivot_values" (SelectItem.ofJson? expr))
      (← optionField "alias" Identifier.ofJson?) (← tagField)
  | "identifier" => (Identifier.ofJson? value).map .identifier
  | "property" => value.record? do
    return .property (← optionField "schema" Identifier.ofJson?)
      (← field "table" Identifier.ofJson?) (← field "name" Identifier.ofJson?)
      (← optionField "collate" Collate.ofJson?) (← tagField)
  | "all_columns" => value.record? do
    return .allColumns (← listField "owner" Identifier.ofJson?) (← tagField)
  | "variable" => value.record? do
    return .variable (← stringField "prefix") (← stringField "name") (← tagField)
  | "number" => value.record? do return .number (← stringField "value") (← tagField)
  | "string" => value.record? do
    return .string (← stringField "value") (← boolField "is_national") (← tagField)
  | "bool" => value.record? do return .bool (← boolField "value") (← tagField)
  | "null" => value.record? do return .null (← tagField)
  | "interval" => value.record? do
    return .interval (← field "value" expr) (← optionField "unit" TimeUnit.ofJson?) (← tagField)
  | "array" => value.record? do return .array (← listField "elements" expr) (← tagField)
  | "binary" => value.record? do
    return .binary (← field "left" expr) (← field "op" (constant? BinaryOp.ofName?))
      (← field "right" expr) (← tagField)
  | "not" => value.record? do return .not (← field "expr" expr) (← tagField)
  | "negate" => value.record? do return .negate (← field "expr" expr) (← tagField)
  | "between_and" => value.record? do
    return .between (← field "expr" expr) (← field "low" expr) (← field "high" expr)
      (← boolField "not") (← tagField)
  | "in" => value.record? do
    return .membership (← field "expr" expr) (← listField "targets" expr)
      (← optionField "query" expr) (← boolField "not") (← tagField)
  | "exists" => value.record? do return .existence (← field "query" expr) (← tagField)
  | "any" => value.record? do return .any (← field "query" expr) (← tagField)
  | "all" => value.record? do return .all (← field "query" expr) (← tagField)
  | "regex" => value.record? do
    return .regex (← field "expr" expr) (← field "pattern" expr) (← boolField "case_insensitive")
      (← boolField "not") (← tagField)
  | "case" => value.record? do
    return .caseOf (← optionField "operand" expr) (← listField "items" (CaseItem.ofJson? expr))
      (← optionField "else_" expr) (← tagField)
  | "function_call" => (Call.ofJson? expr value).map .call
  | "at_time_zone" => value.record? do
    return .atTimeZone (← field "expr" expr) (← field "zone" expr) (← tagField)
  | "array_index" => value.record? do
    return .arrayIndex (← field "array" expr) (← field "index" expr) (← tagField)
  | "array_slice" => value.record? do
    return .arraySlice (← field "array" expr) (← optionField "lower" expr)
      (← optionField "upper" expr) (← tagField)
  | "insert" => (Insert.ofJson? expr value).map .insert
  | "update" => (Update.ofJson? expr value).map .update
  | "delete" => (Delete.ofJson? expr value).map .delete
  | _ => none

/-- Reads a node: an object with one key. -/
def ofJson? : Json → Option (Node ε)
  | .object [(key, value)] => ofJsonRecord? expr key value
  | _ => none

end Node

namespace Expr

/-- Reads a tree of at most the given number of levels. -/
def ofJsonWithin? : Nat → Json → Option Expr
  | 0, _ => none
  | levels + 1, value => (Node.ofJson? (ofJsonWithin? levels) value).map .node

/-- Reads a tree.  A value has more levels than the tree it stands for. -/
def ofJson? (value : Json) : Option Expr :=
  ofJsonWithin? (value.height + 1) value

end Expr

end SqlTree

import SqlTree.Json.Value
import SqlTree.Tree.Fold

/-!
# Trees as JSON

An expression is an object whose only key names its kind; its value is a record of its fields.  The
tag of a node is the field `dialect`, which is left out where there is none.  All other fields are
always there.
-/

namespace SqlTree

open Json (maybe list)

def Tag.jsonFields (tag : Tag) : List (String × Json) :=
  (tag.dialect.map fun d => ("dialect", Json.string d.storedName)).toList

/-- A record: its fields, then its tag. -/
def Json.record (fields : List (String × Json)) (tag : Tag) : Json :=
  .object (fields ++ tag.jsonFields)

def Json.constant {α : Type} (name : α → String) (a : α) : Json :=
  .string (name a)

open Json (record constant)

def Collate.toJson (c : Collate) : Json :=
  record [("name", .string c.name)] c.tag

def TimeUnit.toJson (u : TimeUnit) : Json :=
  record [("unit", .string u.unit)] u.tag

def Identifier.toJson (i : Identifier) : Json :=
  record
    [("value", .string i.value), ("left_qualifier", maybe Json.string i.left),
     ("right_qualifier", maybe Json.string i.right), ("collate", maybe Collate.toJson i.collate)]
    i.tag

def SelectItem.toJson (s : SelectItem Json) : Json :=
  record [("body", s.body), ("alias", maybe Identifier.toJson s.aliasName)] s.tag

def WithQuery.toJson (w : WithQuery Json) : Json :=
  record
    [("name", w.name.toJson), ("columns", list Identifier.toJson w.columns), ("query", w.query)]
    w.tag

def Hint.toJson (h : Hint Json) : Json :=
  record [("body", h.body)] h.tag

def Top.toJson (t : Top Json) : Json :=
  record [("count", t.count), ("percent", .bool t.percent), ("with_ties", .bool t.withTies)] t.tag

def OrderItem.toJson (o : OrderItem Json) : Json :=
  record
    [("expr", o.expr), ("order", maybe (constant SortOrder.name) o.order),
     ("nulls", maybe (constant NullsOrder.name) o.nulls)]
    o.tag

def OrderBy.toJson (o : OrderBy Json) : Json :=
  record [("items", list OrderItem.toJson o.items), ("siblings", .bool o.siblings)] o.tag

def GroupBy.toJson (g : GroupBy Json) : Json :=
  record [("items", .array g.items), ("having", maybe id g.having)] g.tag

def ConnectBy.toJson (c : ConnectBy Json) : Json :=
  record
    [("start_with", maybe id c.startWith), ("condition", c.condition),
     ("nocycle", .bool c.nocycle), ("prior", .bool c.prior)]
    c.tag

def Limit.toJson (l : Limit Json) : Json :=
  record [("offset", maybe id l.offset), ("row_count", maybe id l.rowCount)] l.tag

def PartitionBy.toJson (p : PartitionBy Json) : Json :=
  record [("items", .array p.items)] p.tag

def WithinGroup.toJson (w : WithinGroup Json) : Json :=
  record [("order_by", w.orderBy.toJson)] w.tag

def Window.toJson (o : Window Json) : Json :=
  record
    [("partition_by", maybe PartitionBy.toJson o.partitionBy),
     ("order_by", maybe OrderBy.toJson o.orderBy)]
    o.tag

def CaseItem.toJson (c : CaseItem Json) : Json :=
  record [("when", c.condition), ("then", c.result)] c.tag

def Call.toJson (c : Call Json) : Json :=
  record
    [("owner", list Identifier.toJson c.owner), ("name", c.name.toJson),
     ("distinct", .bool c.distinct), ("arguments", .array c.arguments),
     ("within_group", maybe WithinGroup.toJson c.withinGroup),
     ("over", maybe Window.toJson c.window)]
    c.tag

def SelectQuery.toJson (q : SelectQuery Json) : Json :=
  record
    [("with_sub_queries", list WithQuery.toJson q.withQueries), ("hints", list Hint.toJson q.hints),
     ("option", maybe (constant RowOption.name) q.option), ("top", maybe Top.toJson q.top),
     ("columns", list SelectItem.toJson q.columns), ("into", maybe id q.into),
     ("from", maybe id q.source), ("where_clause", maybe id q.condition),
     ("group_by", maybe GroupBy.toJson q.groupBy),
     ("connect_by", maybe ConnectBy.toJson q.connectBy),
     ("order_by", maybe OrderBy.toJson q.orderBy), ("limit", maybe Limit.toJson q.limit)]
    q.tag

def Table.toJson (t : Table Json) : Json :=
  record
    [("database", maybe Identifier.toJson t.database), ("schema", maybe Identifier.toJson t.schema),
     ("name", t.name.toJson), ("db_link", maybe Identifier.toJson t.link),
     ("alias", maybe Identifier.toJson t.aliasName), ("hints", list Hint.toJson t.hints)]
    t.tag

def Insert.toJson (i : Insert Json) : Json :=
  record
    [("hints", list Hint.toJson i.hints), ("table", i.table),
     ("columns", list Identifier.toJson i.columns), ("values", list Json.array i.rows),
     ("query", maybe id i.query)]
    i.tag

def Update.toJson (u : Update Json) : Json :=
  record
    [("hints", list Hint.toJson u.hints), ("table", u.table), ("set", .array u.assignments),
     ("from", maybe id u.source), ("where_clause", maybe id u.condition)]
    u.tag

def Delete.toJson (d : Delete Json) : Json :=
  record
    [("hints", list Hint.toJson d.hints), ("table", d.table), ("from", maybe id d.source),
     ("where_clause", maybe id d.condition)]
    d.tag

namespace Node

def jsonKey {ε : Type} : Node ε → String
  | .select .. => "select"
  | .selectQuery .. => "select_query"
  | .union .. => "union"
  | .table .. => "table"
  | .joinTable .. => "join_table"
  | .tableFunction .. => "reference_table"
  | .pivotTable .. => "pivot_table"
  | .identifier .. => "identifier"
  | .property .. => "property"
  | .allColumns .. => "all_columns"
  | .variable .. => "variable"
  | .number .. => "number"
  | .string .. => "string"
  | .bool .. => "bool"
  | .null .. => "null"
  | .interval .. => "interval"
  | .array .. => "array"
  | .binary .. => "binary"
  | .not .. => "not"
  | .negate .. => "negate"
  | .between .. => "between_and"
  | .membership .. => "in"
  | .existence .. => "exists"
  | .any .. => "any"
  | .all .. => "all"
  | .regex .. => "regex"
  | .caseOf .. => "case"
  | .call .. => "function_call"
  | .atTimeZone .. => "at_time_zone"
  | .arrayIndex .. => "array_index"
  | .arraySlice .. => "array_slice"
  | .insert .. => "insert"
  | .update .. => "update"
  | .delete .. => "delete"

def jsonRecord : Node Json → Json
  | .select query aliasName tag =>
    record [("query", query), ("alias", maybe Identifier.toJson aliasName)] tag
  | .selectQuery query => query.toJson
  | .union withQueries left right op tag =>
    record
      [("with_sub_queries", list WithQuery.toJson withQueries), ("left", left), ("right", right),
       ("kind", constant SetOp.name op)]
      tag
  | .table source => source.toJson
  | .joinTable left right kind condition isComma tag =>
    record
      [("left", left), ("right", right), ("kind", constant JoinKind.name kind),
       ("on", maybe id condition), ("is_comma_join", .bool isComma)]
      tag
  | .tableFunction function aliasName tag =>
    record [("function", function.toJson), ("alias", maybe Identifier.toJson aliasName)] tag
  | .pivotTable source aggregate column values aliasName tag =>
    record
      [("source", source), ("aggregate", aggregate.toJson), ("pivot_column", column),
       ("pivot_values", list SelectItem.toJson values),
       ("alias", maybe Identifier.toJson aliasName)]
      tag
  | .identifier name => name.toJson
  | .property schema owner name collate tag =>
    record
      [("schema", maybe Identifier.toJson schema), ("table", owner.toJson), ("name", name.toJson),
       ("collate", maybe Collate.toJson collate)]
      tag
  | .allColumns owner tag => record [("owner", list Identifier.toJson owner)] tag
  | .variable sigil name tag => record [("prefix", .string sigil), ("name", .string name)] tag
  | .number value tag => record [("value", .string value)] tag
  | .string value isNational tag =>
    record [("value", .string value), ("is_national", .bool isNational)] tag
  | .bool value tag => record [("value", .bool value)] tag
  | .null tag => record [] tag
  | .interval value unit tag =>
    record [("value", value), ("unit", maybe TimeUnit.toJson unit)] tag
  | .array elements tag => record [("elements", .array elements)] tag
  | .binary left op right tag =>
    record [("left", left), ("op", constant BinaryOp.name op), ("right", right)] tag
  | .not operand tag => record [("expr", operand)] tag
  | .negate operand tag => record [("expr", operand)] tag
  | .between operand low high negated tag =>
    record [("expr", operand), ("low", low), ("high", high), ("not", .bool negated)] tag
  | .membership operand targets query negated tag =>
    record
      [("expr", operand), ("targets", .array targets), ("query", maybe id query),
       ("not", .bool negated)]
      tag
  | .existence query tag => record [("query", query)] tag
  | .any query tag => record [("query", query)] tag
  | .all query tag => record [("query", query)] tag
  | .regex operand pattern ignoresCase negated tag =>
    record
      [("expr", operand), ("pattern", pattern), ("case_insensitive", .bool ignoresCase),
       ("not", .bool negated)]
      tag
  | .caseOf operand items otherwise tag =>
    record
      [("operand", maybe id operand), ("items", list CaseItem.toJson items),
       ("else_", maybe id otherwise)]
      tag
  | .call function => function.toJson
  | .atTimeZone operand zone tag => record [("expr", operand), ("zone", zone)] tag
  | .arrayIndex base index tag => record [("array", base), ("index", index)] tag
  | .arraySlice base lower upper tag =>
    record [("array", base), ("lower", maybe id lower), ("upper", maybe id upper)] tag
  | .insert statement => statement.toJson
  | .update statement => statement.toJson
  | .delete statement => statement.toJson

/-- The JSON form of a node, given those of its children. -/
def toJson (n : Node Json) : Json :=
  .object [(n.jsonKey, n.jsonRecord)]

end Node

def Expr.toJson : Expr → Json :=
  fold Node.toJson

end SqlTree

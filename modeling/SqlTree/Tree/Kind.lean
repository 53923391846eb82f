/-!
# Node kinds

The closed set of kinds that a node of a tree can have.  Expressions, sources, statements and the
clauses inside them all have a kind.
-/

namespace SqlTree

inductive NodeKind where
  | select | selectQuery | selectItem | union | withQuery
  | table | joinTable | tableFunction | pivotTable
  | property | identifier | allColumns | variable
  | number | string | bool | null
  | binary | not | negate | between | membership | existence | any | all | regex
  | caseOf | caseItem | call | window | partitionBy | withinGroup
  | groupBy | orderBy | orderItem | limit | top | hint | connectBy | collate
  | atTimeZone | interval | timeUnit | array | arrayIndex | arraySlice
  | insert | update | delete
  deriving DecidableEq, Repr

namespace NodeKind

def every : List NodeKind :=
  [.select, .selectQuery, .selectItem, .union, .withQuery,
   .table, .joinTable, .tableFunction, .pivotTable,
   .property, .identifier, .allColumns, .variable,
   .number, .string, .bool, .null,
   .binary, .not, .negate, .between, .membership, .existence, .any, .all, .regex,
   .caseOf, .caseItem, .call, .window, .partitionBy, .withinGroup,
   .groupBy, .orderBy, .orderItem, .limit, .top, .hint, .connectBy, .collate,
   .atTimeZone, .interval, .timeUnit, .array, .arrayIndex, .arraySlice,
   .insert, .update, .delete]

def name : NodeKind → String
  | .select => "Select"
  | .selectQuery => "SelectQuery"
  | .selectItem => "SelectItem"
  | .union => "UnionQuery"
  | .withQuery => "WithSubQuery"
  | .table => "Table"
  | .joinTable => "JoinTable"
  | .tableFunction => "ReferenceTable"
  | .pivotTable => "PivotTable"
  | .property => "Property"
  | .identifier => "Identifier"
  | .allColumns => "AllColumns"
  | .variable => "Variable"
  | .number => "Number"
  | .string => "String"
  | .bool => "Bool"
  | .null => "Null"
  | .binary => "Binary"
  | .not => "Not"
  | .negate => "Negate"
  | .between => "BetweenAnd"
  | .membership => "In"
  | .existence => "Exists"
  | .any => "Any"
  | .all => "All"
  | .regex => "Regex"
  | .caseOf => "Case"
  | .caseItem => "CaseItem"
  | .call => "FunctionCall"
  | .window => "Over"
  | .partitionBy => "PartitionBy"
  | .withinGroup => "WithinGroup"
  | .groupBy => "GroupBy"
  | .orderBy => "OrderBy"
  | .orderItem => "OrderByItem"
  | .limit => "Limit"
  | .top => "Top"
  | .hint => "Hint"
  | .connectBy => "ConnectBy"
  | .collate => "Collate"
  | .atTimeZone => "AtTimeZone"
  | .interval => "Interval"
  | .timeUnit => "TimeUnit"
  | .array => "Array"
  | .arrayIndex => "ArrayIndex"
  | .arraySlice => "ArraySlice"
  | .insert => "Insert"
  | .update => "Update"
  | .delete => "Delete"

def ofName? (name : String) : Option NodeKind :=
  every.find? fun kind => kind.name == name

theorem ofName?_name (kind : NodeKind) : ofName? kind.name = some kind := by
  cases kind <;> decide

end NodeKind

end SqlTree

import SqlTree.Tree.Fold

/-!
# Visiting every node

A visit goes to every node there is, clauses, names and collations included, each before what it
holds and that in the order of the fields.  It records the kind and the tag of each node.
-/

namespace SqlTree

/-- What a visit records of a node. -/
abbrev Visit := NodeKind × Tag

def Collate.visits (c : Collate) : List Visit :=
  [(.collate, c.tag)]

def TimeUnit.visits (u : TimeUnit) : List Visit :=
  [(.timeUnit, u.tag)]

def Identifier.visits (i : Identifier) : List Visit :=
  (.identifier, i.tag) :: i.collate.toList.flatMap Collate.visits

def Identifier.optionVisits (i : Option Identifier) : List Visit :=
  i.toList.flatMap visits

def Expr.optionVisits (e : Option (List Visit)) : List Visit :=
  e.getD []

def SelectItem.visits (s : SelectItem (List Visit)) : List Visit :=
  (.selectItem, s.tag) :: s.body ++ Identifier.optionVisits s.aliasName

def WithQuery.visits (w : WithQuery (List Visit)) : List Visit :=
  (.withQuery, w.tag) :: w.name.visits ++ w.columns.flatMap Identifier.visits ++ w.query

def Hint.visits (h : Hint (List Visit)) : List Visit :=
  (.hint, h.tag) :: h.body

def Top.visits (t : Top (List Visit)) : List Visit :=
  (.top, t.tag) :: t.count

def OrderItem.visits (o : OrderItem (List Visit)) : List Visit :=
  (.orderItem, o.tag) :: o.expr

def OrderBy.visits (o : OrderBy (List Visit)) : List Visit :=
  (.orderBy, o.tag) :: o.items.flatMap OrderItem.visits

def GroupBy.visits (g : GroupBy (List Visit)) : List Visit :=
  (.groupBy, g.tag) :: g.items.flatten ++ Expr.optionVisits g.having

def ConnectBy.visits (c : ConnectBy (List Visit)) : List Visit :=
  (.connectBy, c.tag) :: Expr.optionVisits c.startWith ++ c.condition

def Limit.visits (l : Limit (List Visit)) : List Visit :=
  (.limit, l.tag) :: Expr.optionVisits l.offset ++ Expr.optionVisits l.rowCount

def PartitionBy.visits (p : PartitionBy (List Visit)) : List Visit :=
  (.partitionBy, p.tag) :: p.items.flatten

def WithinGroup.visits (w : WithinGroup (List Visit)) : List Visit :=
  (.withinGroup, w.tag) :: w.orderBy.visits

def Window.visits (o : Window (List Visit)) : List Visit :=
  (.window, o.tag) :: o.partitionBy.toList.flatMap PartitionBy.visits ++
    o.orderBy.toList.flatMap OrderBy.visits

def CaseItem.visits (c : CaseItem (List Visit)) : List Visit :=
  (.caseItem, c.tag) :: c.condition ++ c.result

def Call.visits (c : Call (List Visit)) : List Visit :=
  (.call, c.tag) :: c.owner.flatMap Identifier.visits ++ c.name.visits ++ c.arguments.flatten ++
    c.withinGroup.toList.flatMap WithinGroup.visits ++ c.window.toList.flatMap Window.visits

def SelectQuery.visits (q : SelectQuery (List Visit)) : List Visit :=
  (.selectQuery, q.tag) :: q.withQueries.flatMap WithQuery.visits ++
    q.hints.flatMap Hint.visits ++ q.top.toList.flatMap Top.visits ++
    q.columns.flatMap SelectItem.visits ++ Expr.optionVisits q.into ++
    Expr.optionVisits q.source ++ Expr.optionVisits q.condition ++
    q.groupBy.toList.flatMap GroupBy.visits ++ q.connectBy.toList.flatMap ConnectBy.visits ++
    q.orderBy.toList.flatMap OrderBy.visits ++ q.limit.toList.flatMap Limit.visits

def Table.visits (t : Table (List Visit)) : List Visit :=
  (.table, t.tag) :: Identifier.optionVisits t.database ++ Identifier.optionVisits t.schema ++
    t.name.visits ++ Identifier.optionVisits t.link ++ Identifier.optionVisits t.aliasName ++
    t.hints.flatMap Hint.visits

def Insert.visits (i : Insert (List Visit)) : List Visit :=
  (.insert, i.tag) :: i.hints.flatMap Hint.visits ++ i.table ++
    i.columns.flatMap Identifier.visits ++ i.rows.flatten.flatten ++ Expr.optionVisits i.query

def Update.visits (u : Update (List Visit)) : List Visit :=
  (.update, u.tag) :: u.hints.flatMap Hint.visits ++ u.table ++ u.assignments.flatten ++
    Expr.optionVisits u.source ++ Expr.optionVisits u.condition

def Delete.visits (d : Delete (List Visit)) : List Visit :=
  (.delete, d.tag) :: d.hints.flatMap Hint.visits ++ d.table ++ Expr.optionVisits d.source ++
    Expr.optionVisits d.condition

/-- The visits of a node, given those of its children.  A node that is nothing but a clause or a
name is visited as that clause or name, once. -/
def Node.visits : Node (List Visit) → List Visit
  | .select query aliasName tag => (.select, tag) :: query ++ Identifier.optionVisits aliasName
  | .selectQuery query => query.visits
  | .union withQueries left right _ tag =>
    (.union, tag) :: withQueries.flatMap WithQuery.visits ++ left ++ right
  | .table source => source.visits
  | .joinTable left right _ condition _ tag =>
    (.joinTable, tag) :: left ++ right ++ Expr.optionVisits condition
  | .tableFunction function aliasName tag =>
    (.tableFunction, tag) :: function.visits ++ Identifier.optionVisits aliasName
  | .pivotTable source aggregate column values aliasName tag =>
    (.pivotTable, tag) :: source ++ aggregate.visits ++ column ++
      values.flatMap SelectItem.visits ++ Identifier.optionVisits aliasName
  | .identifier name => name.visits
  | .property schema owner name collate tag =>
    (.property, tag) :: Identifier.optionVisits schema ++ owner.visits ++ name.visits ++
      collate.toList.flatMap Collate.visits
  | .allColumns owner tag => (.allColumns, tag) :: owner.flatMap Identifier.visits
  | .variable _ _ tag => [(.variable, tag)]
  | .number _ tag => [(.number, tag)]
  | .string _ _ tag => [(.string, tag)]
  | .bool _ tag => [(.bool, tag)]
  | .null tag => [(.null, tag)]
  | .interval value unit tag => (.interval, tag) :: value ++ unit.toList.flatMap TimeUnit.visits
  | .array elements tag => (.array, tag) :: elements.flatten
  | .binary left _ right tag => (.binary, tag) :: left ++ right
  | .not operand tag => (.not, tag) :: operand
  | .negate operand tag => (.negate, tag) :: operand
  | .between operand low high _ tag => (.between, tag) :: operand ++ low ++ high
  | .membership operand targets query _ tag =>
    (.membership, tag) :: operand ++ targets.flatten ++ Expr.optionVisits query
  | .existence query tag => (.existence, tag) :: query
  | .any query tag => (.any, tag) :: query
  | .all query tag => (.all, tag) :: query
  | .regex operand pattern _ _ tag => (.regex, tag) :: operand ++ pattern
  | .caseOf operand items otherwise tag =>
    (.caseOf, tag) :: Expr.optionVisits operand ++ items.flatMap CaseItem.visits ++
      Expr.optionVisits otherwise
  | .call function => function.visits
  | .atTimeZone operand zone tag => (.atTimeZone, tag) :: operand ++ zone
  | .arrayIndex base index tag => (.arrayIndex, tag) :: base ++ index
  | .arraySlice base lower upper tag =>
    (.arraySlice, tag) :: base ++ Expr.optionVisits lower ++ Expr.optionVisits upper
  | .insert statement => statement.visits
  | .update statement => statement.visits
  | .delete statement => statement.visits

def Expr.visits : Expr → List Visit :=
  fold Node.visits

/-- The names of the dialects in a list of visits, sorted and each once; `none` stands for no
dialect. -/
def Visit.dialectNames (visits : List Visit) : List String :=
  let tags := visits.map fun visit => visit.2.dialect
  ["mysql", "none", "oracle", "postgresql", "sqlite", "sqlserver"].filter fun name =>
    tags.any fun dialect => (dialect.elim "none" Dialect.name) == name

end SqlTree

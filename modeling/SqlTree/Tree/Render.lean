import SqlTree.Text.Quoted
import SqlTree.Tree.Fold

/-!
# Writing a tree as SQL

A tree is written with parentheses around every operation, so that what is written reads back as the
same tree wherever the dialect has the words for it.  A parent mostly needs the text of a child; in
a few places it also needs to know what the child is, which `Rendering.head` says.
-/

namespace SqlTree

/-- What a parent may have to know of a child. -/
inductive RenderHead where
  /-- A wrapped query, which brings its own parentheses. -/
  | select
  /-- A string, by its content. -/
  | string (value : String)
  /-- An operation, by the texts of its operands. -/
  | binary (left right : String)
  | other

/-- A child as its parent sees it. -/
structure Rendering where
  text : String
  head : RenderHead := .other

namespace Render

/-- Texts one after another with commas between them. -/
def commas (texts : List String) : String :=
  ", ".intercalate texts

def list {α : Type} (render : α → String) (items : List α) : String :=
  commas (items.map render)

def exprs (items : List Rendering) : String :=
  list Rendering.text items

/-- A word before a text, with blanks around it, if there is a text. -/
def clause (word : String) (text : Option String) : String :=
  text.elim "" fun text => word ++ text

/-- A text before another one, if a condition holds. -/
def when (condition : Bool) (text : String) : String :=
  if condition then text else ""

def quoted (value : String) : String :=
  String.ofList (Text.Quoted.write value.toList)

end Render

open Render

def Collate.render (c : Collate) : String :=
  "COLLATE " ++ c.name

def Collate.renderAfter (c : Option Collate) : String :=
  clause " " (c.map render)

def Identifier.render (i : Identifier) : String :=
  i.value ++ Collate.renderAfter i.collate

def Identifier.renderAlias (i : Option Identifier) : String :=
  clause " AS " (i.map render)

def Identifier.renderOwner (owner : List Identifier) : String :=
  String.join (owner.map fun name => name.value ++ ".")

def Identifier.renderQualifier (i : Option Identifier) : String :=
  i.elim "" fun name => name.render ++ "."

def SelectItem.render (s : SelectItem Rendering) : String :=
  s.body.text ++ Identifier.renderAlias s.aliasName

def WithQuery.render (w : WithQuery Rendering) : String :=
  w.name.render ++
    when (!w.columns.isEmpty) (" (" ++ list Identifier.render w.columns ++ ")") ++
    " AS (" ++ w.query.text ++ ")"

def WithQuery.renderAll (ws : List (WithQuery Rendering)) : String :=
  when (!ws.isEmpty) ("WITH " ++ list render ws ++ " ")

/-- The text of a hint in a list of table hints. -/
def Hint.render (h : Hint Rendering) : String :=
  h.body.text

/-- The text of a hint after `SELECT`; only a string can be written there. -/
def Hint.renderComment (h : Hint Rendering) : String :=
  match h.body.head with
  | .string value => "/*+ " ++ value ++ " */ "
  | _ => ""

def Top.render (t : Top Rendering) : String :=
  "TOP (" ++ t.count.text ++ ")" ++ when t.percent " PERCENT" ++ when t.withTies " WITH TIES"

def OrderItem.render (o : OrderItem Rendering) : String :=
  o.expr.text ++ clause " " (o.order.map SortOrder.text) ++ clause " " (o.nulls.map NullsOrder.text)

def OrderBy.render (o : OrderBy Rendering) : String :=
  "ORDER " ++ when o.siblings "SIBLINGS " ++ "BY " ++ list OrderItem.render o.items

def GroupBy.render (g : GroupBy Rendering) : String :=
  "GROUP BY " ++ exprs g.items ++ clause " HAVING " (g.having.map Rendering.text)

def ConnectBy.render (c : ConnectBy Rendering) : String :=
  (c.startWith.elim "" fun start => "START WITH " ++ start.text ++ " ") ++ "CONNECT BY " ++
    when c.nocycle "NOCYCLE " ++ when c.prior "PRIOR " ++ c.condition.text

def Limit.render (l : Limit Rendering) : String :=
  " ".intercalate
    ((l.rowCount.map fun count => "LIMIT " ++ count.text).toList ++
      (l.offset.map fun offset => "OFFSET " ++ offset.text).toList)

def PartitionBy.render (p : PartitionBy Rendering) : String :=
  "PARTITION BY " ++ exprs p.items

def WithinGroup.render (w : WithinGroup Rendering) : String :=
  "WITHIN GROUP (" ++ w.orderBy.render ++ ")"

def Window.render (o : Window Rendering) : String :=
  "OVER (" ++
    " ".intercalate
      ((o.partitionBy.map PartitionBy.render).toList ++ (o.orderBy.map OrderBy.render).toList) ++
    ")"

def CaseItem.render (c : CaseItem Rendering) : String :=
  "WHEN " ++ c.condition.text ++ " THEN " ++ c.result.text

def Call.render (c : Call Rendering) : String :=
  Identifier.renderOwner c.owner ++ c.name.render ++ "(" ++ when c.distinct "DISTINCT " ++
    exprs c.arguments ++ ")" ++ clause " " (c.withinGroup.map WithinGroup.render) ++
    clause " " (c.window.map Window.render)

def SelectQuery.render (q : SelectQuery Rendering) : String :=
  WithQuery.renderAll q.withQueries ++ "SELECT " ++
    String.join (q.hints.map Hint.renderComment) ++
    (q.option.elim "" fun option => option.text ++ " ") ++
    (q.top.elim "" fun top => top.render ++ " ") ++
    list SelectItem.render q.columns ++
    clause " INTO " (q.into.map Rendering.text) ++
    clause " FROM " (q.source.map Rendering.text) ++
    clause " WHERE " (q.condition.map Rendering.text) ++
    clause " " (q.connectBy.map ConnectBy.render) ++
    clause " " (q.groupBy.map GroupBy.render) ++
    clause " " (q.orderBy.map OrderBy.render) ++
    clause " " (q.limit.map Limit.render)

def Table.render (t : Table Rendering) : String :=
  Identifier.renderQualifier t.database ++ Identifier.renderQualifier t.schema ++ t.name.render ++
    clause "@" (t.link.map Identifier.value) ++ Identifier.renderAlias t.aliasName ++
    when (!t.hints.isEmpty) (" WITH (" ++ list Hint.render t.hints ++ ")")

/-- The text of an insertion; its hints are not written. -/
def Insert.render (i : Insert Rendering) : String :=
  "INSERT INTO " ++ i.table.text ++
    when (!i.columns.isEmpty) (" (" ++ list Identifier.render i.columns ++ ")") ++
    match i.query with
    | some query => " " ++ query.text
    | none => " VALUES " ++ list (fun row => "(" ++ exprs row ++ ")") i.rows

/-- The text of an assignment: an operation is written with `=`, whatever its operator. -/
def Update.renderAssignment (assignment : Rendering) : String :=
  match assignment.head with
  | .binary left right => left ++ " = " ++ right
  | _ => assignment.text

/-- The text of an update; its hints are not written. -/
def Update.render (u : Update Rendering) : String :=
  "UPDATE " ++ u.table.text ++ " SET " ++ list renderAssignment u.assignments ++
    clause " FROM " (u.source.map Rendering.text) ++
    clause " WHERE " (u.condition.map Rendering.text)

/-- The text of a deletion; its hints are not written. -/
def Delete.render (d : Delete Rendering) : String :=
  (match d.source with
    | some source => "DELETE " ++ d.table.text ++ " FROM " ++ source.text
    | none => "DELETE FROM " ++ d.table.text) ++
    clause " WHERE " (d.condition.map Rendering.text)

namespace Rendering

/-- The text of an operand of `ANY` or `ALL`, which needs parentheses unless it brings its own. -/
def quantified (operand : Rendering) : String :=
  match operand.head with
  | .select => operand.text
  | _ => "(" ++ operand.text ++ ")"

def regexSign (negated ignoresCase : Bool) : String :=
  when negated "!" ++ "~" ++ when ignoresCase "*"

def stringText (value : String) (isNational : Bool) : String :=
  when isNational "N" ++ quoted value

def nodeText : Node Rendering → String
  | .select query aliasName _ => "(" ++ query.text ++ ")" ++ Identifier.renderAlias aliasName
  | .selectQuery query => query.render
  | .union withQueries left right op _ =>
    WithQuery.renderAll withQueries ++ left.text ++ " " ++ op.text ++ " " ++ right.text
  | .table source => source.render
  | .joinTable left right kind condition isComma _ =>
    if isComma then left.text ++ ", " ++ right.text
    else left.text ++ " " ++ kind.text ++ " " ++ right.text ++
      clause " ON " (condition.map text)
  | .tableFunction function aliasName _ => function.render ++ Identifier.renderAlias aliasName
  | .pivotTable source aggregate column values aliasName _ =>
    source.text ++ " PIVOT (" ++ aggregate.render ++ " FOR " ++ column.text ++ " IN (" ++
      list SelectItem.render values ++ "))" ++ Identifier.renderAlias aliasName
  | .identifier name => name.render
  | .property schema owner name collate _ =>
    Identifier.renderQualifier schema ++ owner.render ++ "." ++ name.render ++
      Collate.renderAfter collate
  | .allColumns owner _ => Identifier.renderOwner owner ++ "*"
  | .variable sigil name _ => sigil ++ name
  | .number value _ => value
  | .string value isNational _ => stringText value isNational
  | .bool value _ => if value then "TRUE" else "FALSE"
  | .null _ => "NULL"
  | .interval value unit _ => "INTERVAL " ++ value.text ++ clause " " (unit.map TimeUnit.unit)
  | .array elements _ => "ARRAY[" ++ exprs elements ++ "]"
  | .binary left op right _ => "(" ++ left.text ++ " " ++ op.text ++ " " ++ right.text ++ ")"
  | .not operand _ => "NOT " ++ operand.text
  | .negate operand _ => "-(" ++ operand.text ++ ")"
  | .between operand low high negated _ =>
    "(" ++ operand.text ++ " " ++ when negated "NOT " ++ "BETWEEN " ++ low.text ++ " AND " ++
      high.text ++ ")"
  | .membership operand targets query negated _ =>
    "(" ++ operand.text ++ " " ++ when negated "NOT " ++ "IN " ++
      (match query with
        | some query => query.text
        | none => "(" ++ exprs targets ++ ")") ++
      ")"
  | .existence query _ => "EXISTS " ++ query.text
  | .any query _ => "ANY " ++ query.quantified
  | .all query _ => "ALL " ++ query.quantified
  | .regex operand pattern ignoresCase negated _ =>
    "(" ++ operand.text ++ " " ++ regexSign negated ignoresCase ++ " " ++ pattern.text ++ ")"
  | .caseOf operand items otherwise _ =>
    "CASE" ++ clause " " (operand.map text) ++
      String.join (items.map fun item => " " ++ item.render) ++
      clause " ELSE " (otherwise.map text) ++ " END"
  | .call function => function.render
  | .atTimeZone operand zone _ => operand.text ++ " AT TIME ZONE " ++ zone.text
  | .arrayIndex base index _ => base.text ++ "[" ++ index.text ++ "]"
  | .arraySlice base lower upper _ =>
    base.text ++ "[" ++ clause "" (lower.map text) ++ ":" ++ clause "" (upper.map text) ++ "]"
  | .insert statement => statement.render
  | .update statement => statement.render
  | .delete statement => statement.render

def nodeHead : Node Rendering → RenderHead
  | .select .. => .select
  | .string value _ _ => .string value
  | .binary left _ right _ => .binary left.text right.text
  | _ => .other

/-- A node as its parent sees it. -/
def ofNode (n : Node Rendering) : Rendering :=
  ⟨nodeText n, nodeHead n⟩

end Rendering

namespace Expr

/-- A tree as a parent would see it. -/
def rendering : Expr → Rendering :=
  fold Rendering.ofNode

/-- The text of a tree. -/
def render (e : Expr) : String :=
  e.rendering.text

end Expr

end SqlTree

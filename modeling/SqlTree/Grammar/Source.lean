import SqlTree.Grammar.Unit

/-!
# Sources of rows

A source is a table, a query or a join in parentheses, or a function call, any of them pivoted any
number of times.  Sources are joined from left to right.
-/

namespace SqlTree

namespace Level

open SqlTree.Parser

variable (g : Level)

def selectItem : Parser (SelectItem Expr) := do
  let body ← g.expression
  return ⟨body, ← g.aliasName, g.tag⟩

/-- The table that a dotted name is. -/
def tableOf (path : NamePath) : Parser (Table Expr) :=
  match path.before with
  | [] => return ⟨none, none, path.last, none, none, [], g.tag⟩
  | [schema] => return ⟨none, some schema, path.last, none, none, [], g.tag⟩
  | [schema, database] => return ⟨some database, some schema, path.last, none, none, [], g.tag⟩
  | _ => refuse (.longTableName path.texts)

def tablePath : Parser NamePath := do
  if ← test Cursor.startsName then g.namePath else refuseFor .tableName

/-- Reads the name of a table and nothing else. -/
def tableName : Parser Expr := do
  return .node (.table (← g.tableOf (← g.tablePath)))

/-- Reads the database that a table is linked to; the parts of its name become one text. -/
def link : Parser (Option Identifier) := do
  if g.readsDialect .oracle then
    if ← accept .atSign then
      let first ← g.namePart
      some <$> loop (fun link => do
        if ← accept .dot then
          let next ← g.namePart
          return .again { link with value := link.value ++ "." ++ next.value }
        else return .done link) first
    else return none
  else return none

def startsHints (c : Cursor) : Bool :=
  g.readsDialect .sqlServer && c.nextType == some (.keyword .WITH) &&
    c.secondType == some .lparen

def tableHints : Parser (List (Hint Expr)) := do
  if ← test g.startsHints then
    let _ ← take
    let _ ← take
    let bodies ← g.commaList .tableHints g.unit
    let _ ← expect .rparen
    return bodies.map fun body => ⟨body, g.tag⟩
  else return []

/-- Reads a source that starts with a name: a function call or a table. -/
def namedSource : Parser Expr := do
  let path ← g.tablePath
  if ← isNext .lparen then
    let function ← g.call path
    return .node (.tableFunction function (← g.aliasName) g.tag)
  else
    let table ← g.tableOf path
    let link ← g.link
    let aliasName ← g.aliasName
    let hints ← g.tableHints
    return .node (.table { table with link, aliasName, hints })

def pivot (source : Expr) : Parser Expr := do
  let _ ← expectKeyword .PIVOT
  let _ ← expect .lparen
  let name ← g.namePart
  let aggregate ← g.call ⟨name, []⟩
  if ← acceptWord "FOR" then
    let column ← g.additive
    let _ ← expectKeyword .IN
    let _ ← expect .lparen
    let values ← g.commaList .pivotValues g.selectItem
    let _ ← expect .rparen
    let _ ← expect .rparen
    return .node (.pivotTable source aggregate column values (← g.aliasName) g.tag)
  else refuseFor .pivotFor

/-- The kinds of join that need a condition, by the word they start with. -/
def outerJoin? : TokenType → Option JoinKind
  | .keyword .LEFT => some .left
  | .keyword .RIGHT => some .right
  | .keyword .FULL => some .full
  | _ => none

/-- Takes the words of a join that needs a condition up to `JOIN`, and says which kind it is. -/
def joinKind : Parser (Option JoinKind) := do
  match ← peekType with
  | some (.keyword .JOIN) => return some .inner
  | some (.keyword .INNER) =>
    let _ ← take
    return some .inner
  | some type =>
    match outerJoin? type with
    | some kind =>
      let _ ← take
      let _ ← acceptKeyword .OUTER
      return some kind
    | none => return none
  | none => return none

/-- Reads one more source to join with those on the left, if there is one. -/
def join (left : Expr) : Parser (Option Expr) := do
  if ← accept .comma then
    let right ← g.below .source
    return some (.node (.joinTable left right .inner none true g.tag))
  else if ← acceptKeyword .CROSS then
    let _ ← expectKeyword .JOIN
    let right ← g.below .source
    return some (.node (.joinTable left right .cross none false g.tag))
  else match ← joinKind with
    | some kind =>
      let _ ← expectKeyword .JOIN
      let right ← g.below .source
      let _ ← expectKeyword .ON
      let condition ← g.expression
      return some (.node (.joinTable left right kind (some condition) false g.tag))
    | none => return none

/-- Reads what is joined to the sources on the left, looking for no more joins than a number. -/
def joinsFrom : Nat → Expr → Parser Expr
  | 0, _ => throw (.statement (.tooManyIterations .fromList g.settings.maxIterations))
  | n + 1, left => do
    match ← g.join left with
    | some joined => joinsFrom n joined
    | none => return left

/-- Reads sources joined from left to right. -/
def sources : Parser Expr := do
  g.joinsFrom g.settings.maxIterations (← g.below .source)

def plainSource : Parser Expr := do
  if ← isNext .lparen then
    if ← test fun c => startsQuery c.ahead.tail then
      let _ ← take
      let query ← g.below .query
      let _ ← expect .rparen
      return .node (.select query (← g.aliasName) g.tag)
    else
      let _ ← take
      let inner ← g.sources
      let _ ← expect .rparen
      return inner
  else g.namedSource

def source : Parser Expr := do
  loop (fun source => do
    if ← isNextKeyword .PIVOT then return .again (← g.pivot source)
    else return .done source) (← g.plainSource)

end Level

end SqlTree

import SqlTree.Grammar.Query

/-!
# Statements

A statement is a query, an `INSERT`, an `UPDATE` or a `DELETE`, and may end with a semicolon.  The
recursive productions are tied together here: each of them is read by its rule, one nesting level
further down, until the levels run out.
-/

namespace SqlTree

namespace Level

open SqlTree.Parser

variable (g : Level)

/-- Reads the names of the columns to insert into, in parentheses that do not hold a query. -/
def insertColumns : Parser (List Identifier) := do
  let isList := fun c : Cursor => c.nextType == some .lparen && !startsQuery c.ahead.tail
  if ← test isList then
    let _ ← take
    let columns ← g.commaList .insertColumns g.namePart
    let _ ← expect .rparen
    return columns
  else return []

def valuesRow : Parser (List Expr) := do
  let _ ← expect .lparen
  let row ← g.commaList .valuesRow g.expression
  let _ ← expect .rparen
  return row

def mayStartQuery (c : Cursor) : Bool :=
  match c.nextType with
  | some (.keyword .SELECT) | some (.keyword .WITH) | some .lparen => true
  | _ => false

def insert : Parser Expr := do
  let _ ← expectKeyword .INSERT
  let hints ← g.commentHints
  let _ ← acceptKeyword .INTO
  let table ← g.tableName
  let columns ← g.insertColumns
  if ← acceptKeyword .VALUES then
    let rows ← g.commaList .valuesList g.valuesRow
    return .node (.insert ⟨hints, table, columns, rows, none, g.tag⟩)
  else if ← test mayStartQuery then
    let query ← g.below .query
    return .node (.insert ⟨hints, table, columns, [], some (g.subquery query), g.tag⟩)
  else refuseFor .valuesOrQuery

def assignment : Parser Expr := do
  let target ← g.unit
  let _ ← expect .eq
  return g.binary target .equal (← g.expression)

def update : Parser Expr := do
  let _ ← expectKeyword .UPDATE
  let hints ← g.commentHints
  let table ← g.below .source
  let _ ← expectKeyword .SET
  let assignments ← g.commaList .setList g.assignment
  let source ← afterKeyword .FROM g.sources
  let condition ← afterKeyword .WHERE g.expression
  return .node (.update ⟨hints, table, assignments, source, condition, g.tag⟩)

/-- Reads `FROM` and sources, unless `FROM` has stood before. -/
def fromUnless (isFrom : Bool) : Parser (Option Expr) :=
  if isFrom then pure none else afterKeyword .FROM g.sources

/-- Reads a `DELETE` statement.  Without `FROM` before its table, `FROM` may follow it. -/
def delete : Parser Expr := do
  let _ ← expectKeyword .DELETE
  let hints ← g.commentHints
  let isFrom ← acceptKeyword .FROM
  let table ← g.below .source
  let source ← g.fromUnless isFrom
  let condition ← afterKeyword .WHERE g.expression
  return .node (.delete ⟨hints, table, source, condition, g.tag⟩)

/-- Reads what a statement consists of, by its first token. -/
def statementBody : Parser Expr := do
  match ← peekType with
  | none => throw (.statement .emptyInput)
  | some (.keyword .SELECT) | some (.keyword .WITH) | some .lparen =>
    return g.subquery (← g.below .query)
  | some (.keyword .INSERT) => g.insert
  | some (.keyword .UPDATE) => g.update
  | some (.keyword .DELETE) => g.delete
  | some _ => refuseFound .statementStart

/-- Reads a statement, which has to take all tokens. -/
def statement : Parser Expr := do
  let e ← g.statementBody
  let _ ← accept .semicolon
  if ← test fun c => c.ahead.isEmpty then return e
  else refuseFound .afterStatement

def rule : Production → Parser Expr
  | .query => g.query
  | .source => g.source
  | .negation => g.negation
  | .operand => g.operand
  | .intervalValue => g.unit

/-- Reads a production with a number of nesting levels left. -/
def produce (settings : Settings) : Nat → Production → Parser Expr
  | 0, _ => throw (.statement (.tooDeep settings.maxDepth))
  | levels + 1, production => nested (rule ⟨settings, produce settings levels⟩ production)

/-- The level that a cursor stands on. -/
def atDepth (settings : Settings) (depth : Nat) : Level :=
  ⟨settings, produce settings (settings.maxDepth - depth)⟩

end Level

def Settings.expression (settings : Settings) : Parser Expr :=
  fun c => (Level.atDepth settings c.depth).expression c

def Settings.statement (settings : Settings) : Parser Expr :=
  fun c => (Level.atDepth settings c.depth).statement c

end SqlTree

import SqlTree.Grammar.Limit
import SqlTree.Grammar.Source

/-!
# Queries

A query is a chain of `SELECT` blocks and parenthesised queries with set operators between them,
with named queries before it.  Chains associate to the left; the named queries belong to the root of
the chain.
-/

namespace SqlTree

/-- Puts named queries in front of those that a query has.  Parentheses around the query do not
matter. -/
def Expr.withQueries (ws : List (WithQuery Expr)) : Expr → Except Error Expr
  | .node (.selectQuery q) =>
    .ok (.node (.selectQuery { q with withQueries := ws ++ q.withQueries }))
  | .node (.union own left right op tag) => .ok (.node (.union (ws ++ own) left right op tag))
  | .node (.select query aliasName tag) => do
    return .node (.select (← query.withQueries ws) aliasName tag)
  | e => .error (.internal (.withOn e.kind))

/-- A query, and the same query with named queries in front of those that it has. -/
inductive Expr.Named (ws : List (WithQuery Expr)) : Expr → Expr → Prop where
  | selectQuery {q : SelectQuery Expr} :
      Named ws (.node (.selectQuery q))
        (.node (.selectQuery { q with withQueries := ws ++ q.withQueries }))
  | union {own : List (WithQuery Expr)} {left right : Expr} {op : SetOp} {tag : Tag} :
      Named ws (.node (.union own left right op tag)) (.node (.union (ws ++ own) left right op tag))
  | select {query query' : Expr} {aliasName : Option Identifier} {tag : Tag}
      (hquery : Named ws query query') :
      Named ws (.node (.select query aliasName tag)) (.node (.select query' aliasName tag))

theorem Expr.named_of_withQueries {ws : List (WithQuery Expr)} {e e' : Expr}
    (hwith : e.withQueries ws = .ok e') : e.Named ws e' := by
  fun_induction Expr.withQueries ws e generalizing e' with
  | case1 q =>
      cases hwith
      exact .selectQuery
  | case2 own left right op tag =>
      cases hwith
      exact .union
  | case3 query aliasName tag ih =>
      cases hquery : query.withQueries ws with
      | error error =>
          rw [hquery] at hwith
          cases hwith
      | ok query' =>
          rw [hquery] at hwith
          cases hwith
          exact .select (ih hquery)
  | case4 => cases hwith

namespace Level

open SqlTree.Parser

variable (g : Level)

/-- Reads the hints behind the first word of a statement. -/
def commentHints : Parser (List (Hint Expr)) := do
  let hints ← loop (fun hints => do
    if ← isNext .hint then
      let body := Expr.node (.string (← take).text false g.tag)
      return .again (⟨body, g.tag⟩ :: hints)
    else return .done hints) []
  return hints.reverse

/-- Reads what is done with equal rows. -/
def rowOption : Parser (Option RowOption) := do
  if ← acceptKeyword .ALL then return some .all
  else if ← acceptKeyword .DISTINCT then return some .distinct
  else if ← acceptKeyword .UNIQUE then return some .unique
  else return none

def startsWithTies (c : Cursor) : Bool :=
  match c.ahead with
  | a :: b :: _ => a.type == .keyword .WITH && b.isThisWord "TIES"
  | _ => false

/-- Takes `WITH TIES` if it stands here, and says whether it did. -/
def acceptWithTies : Parser Bool := do
  if ← test startsWithTies then
    let _ ← take
    let _ ← take
    return true
  else return false

def topCount : Parser Expr := do
  if ← accept .lparen then
    let count ← g.expression
    let _ ← expect .rparen
    return count
  else return g.number (← expect .number).text

/-- Reads `TOP n [PERCENT] [WITH TIES]`, after `TOP`. -/
def top : Parser (Top Expr) := do
  let count ← g.topCount
  let percent ← acceptWord "PERCENT"
  let withTies ← acceptWithTies
  return ⟨count, percent, withTies, g.tag⟩

def groupBy : Parser (GroupBy Expr) := do
  let _ ← expectKeyword .BY
  let items ← g.commaList .groupBy g.expression
  let having ← afterKeyword .HAVING g.expression
  return ⟨items, having, g.tag⟩

def startWith : Parser (Option Expr) := do
  if ← acceptKeyword .START then
    let _ ← expectKeyword .WITH
    some <$> g.expression
  else return none

def unlessRead {α : Type} (read : Option α) (p : Parser (Option α)) : Parser (Option α) :=
  if read.isSome then pure read else p

/-- Reads a hierarchy; its start may stand before or after its condition. -/
def connectBy : Parser (ConnectBy Expr) := do
  let before ← g.startWith
  let _ ← expectKeyword .CONNECT
  let _ ← expectKeyword .BY
  let nocycle ← acceptKeyword .NOCYCLE
  let prior ← acceptKeyword .PRIOR
  let condition ← g.expression
  let start ← unlessRead before g.startWith
  return ⟨start, condition, nocycle, prior, g.tag⟩

def connectByIfAny : Parser (Option (ConnectBy Expr)) := do
  if (← isNextKeyword .START) || (← isNextKeyword .CONNECT) then some <$> g.connectBy
  else return none

def intoTable : Parser (Option Expr) := do
  if g.readsDialect .sqlServer then afterKeyword .INTO g.tableName else return none

def selectQuery : Parser Expr := do
  let _ ← expectKeyword .SELECT
  let hints ← g.commentHints
  let option ← rowOption
  let top ← afterKeyword .TOP g.top
  let columns ← g.commaList .selectList g.selectItem
  let into ← g.intoTable
  let source ← afterKeyword .FROM g.sources
  let condition ← afterKeyword .WHERE g.expression
  let hierarchy ← g.connectByIfAny
  let groupBy ← afterKeyword .GROUP g.groupBy
  let connectBy ← unlessRead hierarchy g.connectByIfAny
  let orderBy ← afterKeyword .ORDER g.orderBy
  let limit ← g.limit
  return .node (.selectQuery
    { withQueries := [], hints, option, top, columns, into, source, condition, groupBy, connectBy,
      orderBy, limit, tag := g.tag })

/-- Reads an operand of a set operator: a `SELECT` block or a query in parentheses. -/
def queryOperand : Parser Expr := do
  if ← isNext .lparen then g.parenthesizedQuery else g.selectQuery

def setOp : Parser (Option SetOp) := do
  if ← acceptKeyword .UNION then
    if ← acceptKeyword .ALL then return some .unionAll
    else
      let _ ← acceptKeyword .DISTINCT
      return some .union
  else if ← acceptKeyword .INTERSECT then
    return some (if ← acceptKeyword .ALL then .intersectAll else .intersect)
  else if ← acceptKeyword .EXCEPT then
    return some (if ← acceptKeyword .ALL then .exceptAll else .except)
  else if ← acceptKeyword .MINUS then return some .minus
  else return none

/-- Reads one more set operator and the operand on its right, if there is one. -/
def unionTurn (left : Expr) : Parser (Turn Expr) := do
  match ← setOp with
  | some op =>
    let right ← g.queryOperand
    return .again (.node (.union [] left right op g.tag))
  | none => return .done left

/-- Reads queries with set operators between them, from the left. -/
def queryChain : Parser Expr := do
  loop g.unionTurn (← g.queryOperand)

def withColumns : Parser (List Identifier) := do
  if ← accept .lparen then
    let columns ← g.commaList .withColumns g.namePart
    let _ ← expect .rparen
    return columns
  else return []

def withQuery : Parser (WithQuery Expr) := do
  let name ← g.namePart
  let columns ← g.withColumns
  let _ ← expectKeyword .AS
  let _ ← expect .lparen
  let query ← g.below .query
  let _ ← expect .rparen
  return ⟨name, columns, query, g.tag⟩

/-- The query without parentheses of its own. -/
def unwrap : Expr → Expr
  | .node (.select query none _) => query
  | e => e

def query : Parser Expr := do
  let ws ← afterKeyword .WITH (g.commaList .withList g.withQuery)
  let chain ← g.queryChain
  match ws, unwrap chain with
  | some (w :: ws), query =>
    match query.withQueries (w :: ws) with
    | .ok query => return query
    | .error e => throw e
  | _, query => return query

end Level

end SqlTree

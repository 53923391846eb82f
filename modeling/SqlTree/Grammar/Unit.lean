import SqlTree.Grammar.Expression

/-!
# Units and operands

A unit is an expression that no operator can enter: a literal, a name, a call, a variable, something
in parentheses, `CASE`, `EXISTS`, `ANY`, `ALL`, `ARRAY[…]` or `INTERVAL`.  An operand is a unit with
its sign and with what is written behind it: subscripts, time zones and collations.
-/

namespace SqlTree

/-- The name with a collation on it; nothing but a name can carry one. -/
def Expr.collated? (collate : Collate) : Expr → Option Expr
  | .node (.identifier name) => some (.node (.identifier { name with collate := some collate }))
  | .node (.property schema owner name _ tag) =>
    some (.node (.property schema owner name (some collate) tag))
  | _ => none

namespace Level

open SqlTree.Parser

variable (g : Level)

def nullsOrder : Parser (Option NullsOrder) := do
  if ← acceptWord "NULLS" then
    if ← acceptWord "FIRST" then return some .first
    else if ← acceptWord "LAST" then return some .last
    else refuseFor .nullsPlace
  else return none

def sortOrder : Parser (Option SortOrder) := do
  if ← acceptKeyword .ASC then return some .asc
  else if ← acceptKeyword .DESC then return some .desc
  else return none

def orderItem : Parser (OrderItem Expr) := do
  let expr ← g.expression
  let order ← sortOrder
  let nulls ← nullsOrder
  return ⟨expr, order, nulls, g.tag⟩

/-- Reads a sort, after `ORDER`. -/
def orderBy : Parser (OrderBy Expr) := do
  let siblings ← acceptKeyword .SIBLINGS
  let _ ← expectKeyword .BY
  let items ← g.commaList .orderBy g.orderItem
  return ⟨items, siblings, g.tag⟩

/-- Reads a partition, after `PARTITION`. -/
def partitionBy : Parser (PartitionBy Expr) := do
  let _ ← expectKeyword .BY
  return ⟨← g.commaList .partitionBy g.expression, g.tag⟩

/-- Reads a window, after `OVER`. -/
def window : Parser (Window Expr) := do
  let _ ← expect .lparen
  let partition ← afterKeyword .PARTITION g.partitionBy
  let order ← afterKeyword .ORDER g.orderBy
  let _ ← expect .rparen
  return ⟨partition, order, g.tag⟩

def startsWithinGroup (c : Cursor) : Bool :=
  match c.ahead with
  | token :: _ => token.isThisWord "WITHIN" && c.secondType == some (.keyword .GROUP)
  | [] => false

def withinGroup : Parser (Option (WithinGroup Expr)) := do
  if ← test startsWithinGroup then
    let _ ← take
    let _ ← take
    let _ ← expect .lparen
    let _ ← expectKeyword .ORDER
    let order ← g.orderBy
    let _ ← expect .rparen
    return some ⟨order, g.tag⟩
  else return none

/-- Reads a list that may be empty, up to a closing token, which is left. -/
def listBefore {α : Type} (closing : TokenType) (items : Parser (List α)) : Parser (List α) := do
  if ← isNext closing then return [] else items

/-- Reads a call, after its name. -/
def call (path : NamePath) : Parser (Call Expr) := do
  let _ ← expect .lparen
  let distinct ← acceptKeyword .DISTINCT
  let arguments ← listBefore .rparen (g.commaList .arguments g.expression)
  let _ ← expect .rparen
  let within ← g.withinGroup
  let window ← afterKeyword .OVER g.window
  return ⟨path.owner, path.last, distinct, arguments, within, window, g.tag⟩

/-- Reads the parts of a dotted name and says whether a star ended it. -/
def starPath : Parser (NamePath × Bool) := do
  let first ← g.namePart
  loop (fun (path, _) => do
    if ← accept .dot then
      if ← accept .star then return .done (path, true)
      else return .again (path.push (← g.namePart), false)
    else return .done (path, false)) (⟨first, []⟩, false)

def column (path : NamePath) : Parser Expr :=
  match path.before with
  | [] => return .node (.identifier path.last)
  | [owner] => return .node (.property none owner path.last none g.tag)
  | [owner, schema] => return .node (.property (some schema) owner path.last none g.tag)
  | _ => refuse (.longColumnName path.texts)

/-- Reads what starts with a name: a column, all columns of an owner, or a call. -/
def named : Parser Expr := do
  let (path, isStar) ← g.starPath
  if isStar then return .node (.allColumns path.parts g.tag)
  else if ← isNext .lparen then return .node (.call (← g.call path))
  else g.column path

/-- Reads the branches of a `CASE`, no more than `left` further ones; `done` holds the branches read
so far, the last one first. -/
def caseItemsFrom : Nat → List (CaseItem Expr) → Parser (List (CaseItem Expr))
  | left, done => do
    if ← acceptKeyword .WHEN then
      let condition ← g.expression
      let _ ← expectKeyword .THEN
      let result ← g.expression
      match left with
      | 0 => throw (.statement (.tooManyIterations .caseItems g.settings.maxIterations))
      | left + 1 => caseItemsFrom left (⟨condition, result, g.tag⟩ :: done)
    else return done.reverse

/-- Whether a `CASE` goes on without an operand. -/
def lacksOperand (c : Cursor) : Bool :=
  match c.nextType with
  | some (.keyword .WHEN) | some (.keyword .ELSE) | some (.keyword .END) => true
  | _ => false

/-- Reads the operand of a `CASE`, if it has one. -/
def caseOperand : Parser (Option Expr) := do
  if ← test lacksOperand then return none else some <$> g.expression

/-- Reads a `CASE`, after that word. -/
def caseOf : Parser Expr := do
  let operand ← g.caseOperand
  let items ← g.caseItemsFrom g.settings.maxIterations []
  if items.isEmpty then refuseFor .caseBranch
  else
    let otherwise ← afterKeyword .ELSE g.expression
    let _ ← expectKeyword .END
    return .node (.caseOf operand items otherwise g.tag)

def parenthesizedQuery : Parser Expr := do
  let _ ← expect .lparen
  let query ← g.below .query
  let _ ← expect .rparen
  return g.subquery query

/-- Reads what follows `ANY` or `ALL`: a query or an expression, in parentheses. -/
def quantified : Parser Expr := do
  if ← test fun c => startsQuery c.ahead.tail then g.parenthesizedQuery
  else
    let _ ← expect .lparen
    let e ← g.expression
    let _ ← expect .rparen
    return e

/-- Reads a query or an expression in parentheses; those around an expression leave no trace. -/
def parenthesized : Parser Expr := do
  let _ ← expect .lparen
  if ← test fun c => startsQuery c.ahead then
    let query ← g.below .query
    let _ ← expect .rparen
    return g.subquery query
  else
    let e ← g.expression
    let _ ← expect .rparen
    return e

/-- Reads an array, after `ARRAY`. -/
def array : Parser Expr := do
  let _ ← expect .lbracket
  let elements ← listBefore .rbracket (g.commaList .array g.expression)
  let _ ← expect .rbracket
  return .node (.array elements g.tag)

def isTimeUnit (token : Token) : Bool :=
  token.type == .identifier && TimeUnit.words.any fun word => Text.sameWord token.text word

def timeUnit : Parser (Option TimeUnit) := do
  if ← test fun c => (c.ahead.head?.map isTimeUnit).getD false then
    return some ⟨Text.upper (← take).text, g.tag⟩
  else return none

/-- Reads an interval, after `INTERVAL`. -/
def interval : Parser Expr := do
  let value ← g.below .intervalValue
  return .node (.interval value (← g.timeUnit) g.tag)

def keywordUnit (word : Keyword) : Parser Expr := do
  match word with
  | .NULL =>
    let _ ← take
    return g.null
  | .TRUE =>
    let _ ← take
    return g.bool true
  | .FALSE =>
    let _ ← take
    return g.bool false
  | .NOT =>
    let _ ← take
    return .node (.not (← g.negation) g.tag)
  | .CASE =>
    let _ ← take
    g.caseOf
  | .EXISTS =>
    let _ ← take
    return .node (.existence (← g.parenthesizedQuery) g.tag)
  | .INTERVAL =>
    let _ ← take
    g.interval
  | .ANY =>
    if ← test fun c => c.secondType == some .lparen then
      let _ ← take
      return .node (.any (← g.quantified) g.tag)
    else refuseFound .inExpression
  | .ALL =>
    if ← test fun c => c.secondType == some .lparen then
      let _ ← take
      return .node (.all (← g.quantified) g.tag)
    else refuseFound .inExpression
  | .ARRAY =>
    if ← test fun c => c.secondType == some .lbracket then
      let _ ← take
      g.array
    else refuseFound .inExpression
  | _ =>
    if ← test fun c => c.startsName || c.startsKeywordCall then g.named
    else refuseFound .inExpression

def unit : Parser Expr := do
  match ← peekType with
  | none => refuseFor .expression
  | some .lparen => g.parenthesized
  | some .number => return g.number (← take).text
  | some .string => return .node (.string (← take).text false g.tag)
  | some .nationalString => return .node (.string (← take).text true g.tag)
  | some .star =>
    let _ ← take
    return .node (.allColumns [] g.tag)
  | some .atSign | some .colon => g.variableName
  | some .identifier | some .quotedIdentifier => g.named
  | some (.keyword word) => g.keywordUnit word
  | some _ => refuseFound .inExpression

/-- Reads a bound of a subscript unless the token behind it stands here. -/
def bound (behind : TokenType) : Parser (Option Expr) := do
  if ← isNext behind then return none else some <$> g.additive

/-- Reads a subscript, after its opening bracket. -/
def subscript (base : Expr) : Parser Expr := do
  let lower ← g.bound .colon
  if ← accept .colon then
    let upper ← g.bound .rbracket
    let _ ← expect .rbracket
    return .node (.arraySlice base lower upper g.tag)
  else
    let _ ← expect .rbracket
    match lower with
    | some index => return .node (.arrayIndex base index g.tag)
    | none => refuse .missingIndex

/-- Puts a collation on an expression that can carry one. -/
def withCollate (e : Expr) (collate : Collate) : Parser Expr :=
  match e.collated? collate with
  | some e => return e
  | none => throw (.unsupported (.collateOn e.kind) g.dialectName)

/-- Reads one thing that is written behind an operand. -/
def suffix (e : Expr) : Parser (Turn Expr) := do
  if ← accept .lbracket then return .again (← g.subscript e)
  else if ← areNextWords "AT" "TIME" then
    let _ ← take
    let _ ← take
    if ← acceptWord "ZONE" then return .again (.node (.atTimeZone e (← g.unit) g.tag))
    else refuseFor .zone
  else if ← acceptKeyword .COLLATE then return .again (← g.withCollate e (← g.collate))
  else return .done e

/-- Passes over plus signs. -/
def plusSigns : Parser Unit :=
  loop (fun _ => do if ← accept .plus then return .again () else return .done ()) ()

/-- Reads an operand.  A minus belongs to a number directly after it and is an operation on anything
else. -/
def operand : Parser Expr := do
  plusSigns
  if ← accept .dash then
    if ← isNext .number then return g.number ("-" ++ (← take).text)
    else return .node (.negate (← g.below .operand) g.tag)
  else
    loop g.suffix (← g.unit)

end Level

end SqlTree

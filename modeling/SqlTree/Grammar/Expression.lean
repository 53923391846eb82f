import SqlTree.Grammar.Cursor
import SqlTree.Grammar.Name

/-!
# Operators

The layers of an expression, the loosest first: `OR`, `XOR`, `AND`, prefix `NOT`, comparisons and
other predicates, addition, multiplication.  Each layer is a chain of the next tighter one and
associates to the left; the innermost layer is the production `operand`.
-/

namespace SqlTree

namespace TokenType

def multiplicative? : TokenType → Option BinaryOp
  | .star => some .mul
  | .slash => some .div
  | .percent => some .mod
  | _ => none

def additive? : TokenType → Option BinaryOp
  | .plus => some .add
  | .dash => some .sub
  | .doublePipe => some .concat
  | .amp => some .bitAnd
  | .pipe => some .bitOr
  | .caret => some .bitXor
  | _ => none

def comparison? : TokenType → Option BinaryOp
  | .eq => some .equal
  | .neq => some .notEqual
  | .lt => some .less
  | .lte => some .lessOrEqual
  | .gt => some .greater
  | .gte => some .greaterOrEqual
  | _ => none

/-- The signs of a match with a regular expression: whether case is ignored and whether the match is
negated. -/
def regexSign? : TokenType → Option (Bool × Bool)
  | .tilde => some (false, false)
  | .tildeStar => some (true, false)
  | .notTilde => some (false, true)
  | .notTildeStar => some (true, true)
  | _ => none

def conjunction? : TokenType → Option BinaryOp
  | .keyword .AND => some .and
  | _ => none

def exclusion? : TokenType → Option BinaryOp
  | .keyword .XOR => some .xor
  | _ => none

def disjunction? : TokenType → Option BinaryOp
  | .keyword .OR => some .or
  | _ => none

/-- Whether a `NOT` before the token belongs to a predicate. -/
def takesNot : TokenType → Bool
  | .keyword .BETWEEN | .keyword .IN | .keyword .LIKE | .keyword .ILIKE | .keyword .REGEXP => true
  | _ => false

end TokenType

/-- Whether a negated predicate follows: `NOT` and a word that takes it. -/
def Cursor.isNegatedPredicate (c : Cursor) : Bool :=
  c.nextType == some (.keyword .NOT) && (c.secondType.map TokenType.takesNot).getD false

namespace Level

open SqlTree.Parser

variable (g : Level)

/-- Reads one more operator of a layer and the operand on its right, if there is one. -/
def chainTurn (operator? : TokenType → Option BinaryOp) (operand : Parser Expr) (left : Expr) :
    Parser (Turn Expr) := do
  match (← peekType).bind operator? with
  | some op =>
    let _ ← take
    let right ← operand
    return .again (g.binary left op right)
  | none => return .done left

/-- Reads operands with operators of one layer between them, from the left. -/
def chain (operator? : TokenType → Option BinaryOp) (operand : Parser Expr) : Parser Expr := do
  loop (g.chainTurn operator? operand) (← operand)

def multiplicative : Parser Expr :=
  g.chain TokenType.multiplicative? (g.below .operand)

def additive : Parser Expr :=
  g.chain TokenType.additive? g.multiplicative

def truthOrNull : Parser Expr := do
  if ← acceptKeyword .NULL then return g.null
  else if ← acceptKeyword .TRUE then return g.bool true
  else if ← acceptKeyword .FALSE then return g.bool false
  else refuseFor .nullValue

def isPredicate (left : Expr) : Parser Expr := do
  let op := if ← acceptKeyword .NOT then BinaryOp.isNot else .is
  return g.binary left op (← g.truthOrNull)

/-- Reads the list or the query in which something is looked for. -/
def targets : Parser (List Expr × Option Expr) := do
  if ← test fun c => startsQuery c.ahead then
    return ([], some (g.subquery (← g.below .query)))
  else return (← g.commaList .inList g.additive, none)

/-- Reads what follows `IN`: a list or a query, in parentheses. -/
def membership (left : Expr) (negated : Bool) : Parser Expr := do
  let _ ← expect .lparen
  let (list, query) ← g.targets
  let _ ← expect .rparen
  return .node (.membership left list query negated g.tag)

def between (left : Expr) (negated : Bool) : Parser Expr := do
  let low ← g.additive
  let _ ← expectKeyword .AND
  let high ← g.additive
  return .node (.between left low high negated g.tag)

def regex (left : Expr) (ignoresCase negated : Bool) : Parser Expr := do
  return .node (.regex left (← g.additive) ignoresCase negated g.tag)

/-- Takes the `NOT` of a predicate if it stands here, and says whether it did. -/
def predicateNot : Parser Bool := do
  if ← test Cursor.isNegatedPredicate then
    let _ ← take
    return true
  else return false

/-- Reads one predicate that starts with a word and that `NOT` may stand before. -/
def wordPredicate (left : Expr) : Parser (Turn Expr) := do
  let negated ← predicateNot
  if ← acceptKeyword .LIKE then
    return .again (g.binary left (if negated then .notLike else .like) (← g.additive))
  else if ← acceptKeyword .ILIKE then
    return .again (g.binary left (if negated then .notILike else .ilike) (← g.additive))
  else if ← acceptKeyword .BETWEEN then
    return .done (← g.between left negated)
  else if ← acceptKeyword .IN then
    return .done (← g.membership left negated)
  else if ← acceptKeyword .REGEXP then
    return .done (← g.regex left false negated)
  else return .done left

/-- Reads one predicate after its left side.  Comparisons and `LIKE` go on, the others end the
chain. -/
def predicate (left : Expr) : Parser (Turn Expr) := do
  let next ← peekType
  match next.bind TokenType.comparison? with
  | some op =>
    let _ ← take
    return .again (g.binary left op (← g.additive))
  | none =>
    if ← acceptKeyword .IS then return .done (← g.isPredicate left)
    else match next.bind TokenType.regexSign? with
      | some (ignoresCase, negated) =>
        let _ ← take
        return .done (← g.regex left ignoresCase negated)
      | none => g.wordPredicate left

/-- Reads a chain of predicates. -/
def relational : Parser Expr := do
  loop g.predicate (← g.additive)

/-- Reads a predicate with any number of `NOT` before it. -/
def negation : Parser Expr := do
  if ← acceptKeyword .NOT then return .node (.not (← g.below .negation) g.tag)
  else g.relational

def expression : Parser Expr :=
  g.chain TokenType.disjunction?
    (g.chain TokenType.exclusion? (g.chain TokenType.conjunction? g.negation))

end Level

end SqlTree

import SqlTree.Grammar.Level

/-!
# Names in the grammar

Names, dotted paths of names, aliases, collations and variables.
-/

namespace SqlTree

/-- Whether a token type is a keyword that also serves as a name. -/
def TokenType.isNameKeyword : TokenType → Bool
  | .keyword .DUAL | .keyword .FIRST | .keyword .NEXT | .keyword .ONLY | .keyword .ROWS
  | .keyword .OFFSET | .keyword .SIBLINGS | .keyword .NOCYCLE => true
  | _ => false

/-- Whether a token type is a keyword that names a function when a parenthesis follows. -/
def TokenType.isFunctionKeyword : TokenType → Bool
  | .keyword .LEFT | .keyword .RIGHT => true
  | _ => false

namespace Cursor

def startsName (c : Cursor) : Bool :=
  match c.nextType with
  | some type => type.isName || type.isNameKeyword
  | none => false

/-- Whether the name of a function stands here that is a keyword elsewhere. -/
def startsKeywordCall (c : Cursor) : Bool :=
  match c.nextType with
  | some type => type.isFunctionKeyword && c.secondType == some .lparen
  | none => false

/-- Whether the token taken last is a dot. -/
def isAfterDot (c : Cursor) : Bool :=
  c.behind.head?.map Token.type == some .dot

def isNamePart (c : Cursor) : Bool :=
  c.startsName || c.startsKeywordCall ||
    (c.isAfterDot && (c.nextType.map TokenType.isKeyword).getD false)

/-- Whether a plain word or a token of another given type stands here. -/
def isWordOr (also : TokenType → Bool) (c : Cursor) : Bool :=
  match c.nextType with
  | some type => type.isWord || also type
  | none => false

end Cursor

/-- A dotted name from its end: the last part, and the parts before it, the nearest first. -/
structure NamePath where
  last : Identifier
  before : List Identifier

namespace NamePath

def push (path : NamePath) (name : Identifier) : NamePath :=
  ⟨name, path.last :: path.before⟩

/-- The parts before the last one, the outermost first. -/
def owner (path : NamePath) : List Identifier :=
  path.before.reverse

/-- All parts, the outermost first. -/
def parts (path : NamePath) : List Identifier :=
  path.owner ++ [path.last]

def texts (path : NamePath) : List String :=
  path.parts.map Identifier.value

end NamePath

/-- The words that are not taken as an alias without `AS`. -/
def clauseWords : List String := ["OFFSET", "ROW", "ROWS", "FETCH"]

/-- Whether a token is an alias without `AS`. -/
def Token.isBareAlias (token : Token) : Bool :=
  match token.type with
  | .quotedIdentifier => true
  | .identifier => !clauseWords.any fun word => Text.sameWord token.text word
  | _ => false

namespace Level

open SqlTree.Parser

variable (g : Level)

def identifierOf (token : Token) : Identifier :=
  if token.type = .quotedIdentifier then Identifier.escaped token.text g.tag
  else { value := token.text, tag := g.tag }

def namePart : Parser Identifier := do
  if ← test Cursor.isNamePart then return g.identifierOf (← take)
  else refuseFor .identifier

def namePath : Parser NamePath := do
  let first ← g.namePart
  loop (fun path => do
    if ← accept .dot then return .again (path.push (← g.namePart))
    else return .done path) ⟨first, []⟩

/-- Reads an alias, with `AS` or without. -/
def aliasName : Parser (Option Identifier) := do
  if ← acceptKeyword .AS then
    if ← test (Cursor.isWordOr fun type => type = .quotedIdentifier || type = .string) then
      return some (g.identifierOf (← take))
    else refuseFor .aliasName
  else if ← test fun c => (c.ahead.head?.map Token.isBareAlias).getD false then
    return some (g.identifierOf (← take))
  else return none

def collate : Parser Collate := do
  if ← test (Cursor.isWordOr fun type => type = .quotedIdentifier || type = .string) then
    return ⟨(← take).text, g.tag⟩
  else refuseFor .collation

/-- The sigil of a variable whose first character has been taken. -/
def sigil (first : TokenType) : Parser String := do
  if first = .atSign then
    if ← accept .atSign then return "@@" else return "@"
  else return ":"

/-- Reads a variable: `@name`, `@@name`, `:name` or `:1`. -/
def variableName : Parser Expr := do
  let first ← take
  let sigil ← sigil first.type
  if ← test (Cursor.isWordOr fun type => type = .number) then
    return .node (.variable sigil (← take).text g.tag)
  else refuseFor (.variableName sigil)

end Level

end SqlTree

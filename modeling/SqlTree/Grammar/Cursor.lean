import SqlTree.Error
import SqlTree.Text.Character

/-!
# The cursor over the tokens

A cursor stands between two tokens and remembers how many nesting levels are open.  Parsers move it
forward only, and also say where it stands when they fail.
-/

namespace SqlTree

/-- A place between tokens: those already taken, the nearest first, and those still ahead. -/
structure Cursor where
  behind : List Token
  ahead : List Token
  /-- The number of nesting levels that are open. -/
  depth : Nat
  deriving DecidableEq, Repr

/-- Reads something from the tokens ahead, or fails at a place. -/
abbrev Parser (α : Type) := EStateM Error Cursor α

namespace Cursor

def start (tokens : List Token) : Cursor :=
  ⟨[], tokens, 0⟩

/-- All tokens, taken or not. -/
def tokens (c : Cursor) : List Token :=
  c.behind.reverse ++ c.ahead

/-- How many tokens were taken. -/
def position (c : Cursor) : Nat :=
  c.behind.length

def nextType (c : Cursor) : Option TokenType :=
  c.ahead.head?.map Token.type

def secondType (c : Cursor) : Option TokenType :=
  c.ahead.tail.head?.map Token.type

/-- What stands at the cursor, as errors tell it. -/
def found (c : Cursor) : Found :=
  match c.ahead with
  | token :: _ => .token token.type token.text
  | [] => .endOfInput

/-- Line and column of the next token, or just behind the last one. -/
def place (c : Cursor) : Nat × Nat :=
  match c.ahead, c.behind with
  | token :: _, _ => (token.span.line, token.span.column)
  | [], token :: _ => (token.span.line, token.span.column + (token.span.stop - token.span.start))
  | [], [] => (1, 1)

def error (c : Cursor) (cause : GrammarCause) : Error :=
  .grammar cause c.place.1 c.place.2

def step (c : Cursor) : Cursor :=
  match c.ahead with
  | token :: ahead => { c with behind := token :: c.behind, ahead }
  | [] => c

end Cursor

/-- Whether a token is a given plain word, whatever the case of its letters and whether or not it is
a keyword. -/
def Token.isThisWord (token : Token) (word : String) : Bool :=
  token.type.isWord && Text.sameWord token.text word

namespace Parser

def refuse {α : Type} (cause : GrammarCause) : Parser α :=
  fun c => .error (c.error cause) c

/-- Fails because something else was wanted than what stands at the cursor. -/
def refuseFor {α : Type} (wanted : Wanted) : Parser α :=
  fun c => .error (c.error (.expected wanted c.found)) c

/-- Fails because of what stands at the cursor. -/
def refuseFound {α : Type} (cause : Found → GrammarCause) : Parser α :=
  fun c => .error (c.error (cause c.found)) c

def peek : Parser (Option Token) :=
  fun c => .ok c.ahead.head? c

def peekType : Parser (Option TokenType) :=
  fun c => .ok c.nextType c

def test (p : Cursor → Bool) : Parser Bool :=
  fun c => .ok (p c) c

def isNext (type : TokenType) : Parser Bool :=
  test fun c => c.nextType == some type

def isNextKeyword (word : Keyword) : Parser Bool :=
  isNext (.keyword word)

/-- Takes the next token; callers make sure that there is one. -/
def take : Parser Token
  | c@⟨_, token :: _, _⟩ => .ok token c.step
  | c => .error (.internal .pastEnd) c

/-- Takes the next token if it is of a type, and says whether it was. -/
def accept (type : TokenType) : Parser Bool :=
  fun c => if c.nextType == some type then .ok true c.step else .ok false c

def acceptKeyword (word : Keyword) : Parser Bool :=
  accept (.keyword word)

def acceptWord (word : String) : Parser Bool :=
  fun c =>
    match c.ahead with
    | token :: _ => if token.isThisWord word then .ok true c.step else .ok false c
    | [] => .ok false c

/-- Takes the next token, which has to be of a type. -/
def expect (type : TokenType) : Parser Token
  | c@⟨_, token :: _, _⟩ =>
    if token.type = type then .ok token c.step
    else .error (c.error (.expected (.token type) c.found)) c
  | c => .error (c.error (.expected (.token type) c.found)) c

def expectKeyword (word : Keyword) : Parser Token :=
  expect (.keyword word)

def areNextWords (first second : String) : Parser Bool :=
  test fun c =>
    match c.ahead with
    | a :: b :: _ => a.isThisWord first && b.isThisWord second
    | _ => false

def afterKeyword {α : Type} (word : Keyword) (p : Parser α) : Parser (Option α) := do
  if ← acceptKeyword word then some <$> p else pure none

/-- Reads something one nesting level further down. -/
def nested {α : Type} (p : Parser α) : Parser α :=
  fun c =>
    match p { c with depth := c.depth + 1 } with
    | .ok a c => .ok a { c with depth := c.depth - 1 }
    | .error e c => .error e { c with depth := c.depth - 1 }

/-- What one turn of a loop leaves behind. -/
inductive Turn (α : Type) where
  /-- The loop goes on with a value. -/
  | again (value : α)
  /-- The loop ends with a value. -/
  | done (value : α)

/-- Runs a loop until it ends, with one turn for each of the given tokens and a last one. -/
def loopOver {α : Type} (turn : α → Parser (Turn α)) : List Token → α → Parser α
  | [], a, c =>
    match turn a c with
    | .ok (.again a) c | .ok (.done a) c => .ok a c
    | .error e c => .error e c
  | _ :: tokens, a, c =>
    match turn a c with
    | .ok (.again a) c => loopOver turn tokens a c
    | .ok (.done a) c => .ok a c
    | .error e c => .error e c

/-- Runs a loop until it ends.  Each turn that goes on takes a token, so the tokens ahead are as
many turns as it can need. -/
def loop {α : Type} (turn : α → Parser (Turn α)) (a : α) : Parser α :=
  fun c => loopOver turn c.ahead a c

/-- Reads items with commas between them, of which there must not be more than a number; `done`
holds the items read so far, the last one first. -/
def commaListFrom {α : Type} (construct : Construct) (cap : Nat) (item : Parser α) :
    Nat → List α → Parser (List α)
  | 0, _ => throw (.statement (.tooManyIterations construct cap))
  | n + 1, done => do
    let a ← item
    if ← accept .comma then commaListFrom construct cap item n (a :: done)
    else pure (a :: done).reverse

/-- Reads items with commas between them, at least one and at most `cap`. -/
def commaList {α : Type} (construct : Construct) (cap : Nat) (item : Parser α) : Parser (List α) :=
  commaListFrom construct cap item cap []

end Parser

/-!
## Queries and expressions in parentheses

After an opening parenthesis a query or an expression may follow, and a query may itself stand in
parentheses.  The choice is made by looking ahead, without going back: a query starts with a run of
parentheses before `SELECT` or `WITH`, and each of these parentheses closes before a set operator or
another closing parenthesis.
-/

namespace Lookahead

/-- Whether a token ends the operand of a set operator. -/
def endsOperand : List Token → Bool
  | [] => false
  | token :: _ =>
    match token.type with
    | .keyword .UNION | .keyword .INTERSECT | .keyword .EXCEPT | .keyword .MINUS | .rparen => true
    | _ => false

/-- Follows the parentheses until none is open.  `lowest` counts the leading ones that are still
open; where one of these closes, an operand has to end. -/
def leadingClose (isOpen lowest : Nat) : List Token → Bool
  | [] => isOpen == 0
  | token :: rest =>
    if isOpen = 0 then true
    else if token.type = .lparen then leadingClose (isOpen + 1) lowest rest
    else if token.type = .rparen then
      if isOpen - 1 < lowest then endsOperand rest && leadingClose (isOpen - 1) (isOpen - 1) rest
      else leadingClose (isOpen - 1) lowest rest
    else leadingClose isOpen lowest rest

end Lookahead

/-- Whether a query starts at the front of the tokens. -/
def startsQuery (tokens : List Token) : Bool :=
  let isParen := fun token : Token => token.type == .lparen
  let leading := (tokens.takeWhile isParen).length
  match tokens.dropWhile isParen with
  | [] => false
  | token :: rest =>
    (token.type == .keyword .SELECT || token.type == .keyword .WITH) &&
      Lookahead.leadingClose leading leading rest

end SqlTree

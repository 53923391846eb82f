import SqlTree.Token.Lexer

/-!
# Escaped identifiers and comments

Between the lexer and the grammar the comments are lifted out, and each run of tokens from a left
delimiter to the next right delimiter becomes one escaped identifier.  The text of that identifier
is taken from the source, so blanks inside it survive; tokens and comments inside it mean nothing.
-/

namespace SqlTree

/-- Tokens ready for the grammar, and the comments that stood between them. -/
structure Normalized where
  tokens : List Token
  comments : List String
  deriving DecidableEq, Repr

namespace Escape

def delimiterType? : Char → Option TokenType
  | '[' => some .lbracket
  | ']' => some .rbracket
  | '\x60' => some .backtick
  | '"' => some .doubleQuote
  | _ => none

/-- The token type of a delimiter character, which has to be a known one. -/
def delimiterType (c : Char) : Except Error TokenType :=
  match delimiterType? c with
  | some type => .ok type
  | none => .error (.internal (.unsupportedDelimiter c))

/-- The characters of the source between two offsets, if both are offsets of it in that order. -/
def slice (source : Array Char) (start stop : Nat) : Option (List Char) :=
  if start ≤ stop ∧ stop ≤ source.size then some (source.extract start stop).toList else none

/-- The escaped identifier between two delimiter tokens. -/
def fuse (delimiters : Delimiters) (source : Array Char) (opening closing : Token) :
    Except Error Token :=
  match slice source opening.span.stop closing.span.start with
  | none => .error (.internal .spanOutsideSource)
  | some body =>
    if Text.allBlank body then
      .error (.lexical .emptyIdentifier opening.span.line opening.span.column)
    else
      .ok ⟨.quotedIdentifier, String.ofList (delimiters.left :: body ++ [delimiters.right]),
        ⟨opening.span.start, closing.span.stop, opening.span.line, opening.span.column⟩⟩

/-- How far the pass has come: the left delimiter that is still open, and what was let through and
lifted out so far, the last one first. -/
structure Progress where
  opening : Option Token := none
  tokens : List Token := []
  comments : List String := []
  deriving DecidableEq, Repr

/-- What the pass works with: the delimiters, their token types and the source. -/
structure Pass where
  delimiters : Delimiters
  leftType : TokenType
  rightType : TokenType
  source : Array Char

def Pass.step (pass : Pass) (progress : Progress) (token : Token) : Except Error Progress :=
  match progress.opening with
  | none =>
    if token.type.isComment then
      .ok { progress with comments := token.text :: progress.comments }
    else if token.type = pass.leftType then
      .ok { progress with opening := some token }
    else
      .ok { progress with tokens := token :: progress.tokens }
  | some opening =>
    if token.type = pass.rightType then do
      let fused ← fuse pass.delimiters pass.source opening token
      .ok { progress with opening := none, tokens := fused :: progress.tokens }
    else
      .ok progress

/-- Ends the pass; a left delimiter must not be open. -/
def Pass.finish (pass : Pass) (progress : Progress) : Except Error Normalized :=
  match progress.opening with
  | none => .ok ⟨progress.tokens.reverse, progress.comments.reverse⟩
  | some opening =>
    .error (.lexical (.unclosedIdentifier pass.delimiters.left)
      opening.span.line opening.span.column)

def Pass.run (pass : Pass) (tokens : List Token) : Except Error Normalized :=
  tokens.foldlM pass.step {} >>= pass.finish

end Escape

/-- Lifts out comments and fuses escaped identifiers; `source` is the text that the tokens were read
from. -/
def normalize (delimiters : Delimiters) (source : String) (tokens : List Token) :
    Except Error Normalized := do
  let leftType ← Escape.delimiterType delimiters.left
  let rightType ← Escape.delimiterType delimiters.right
  let source := (Text.unifyNewlines source.toList).toArray
  Escape.Pass.run ⟨delimiters, leftType, rightType, source⟩ tokens

def Dialect.normalize (d : Dialect) (text : String) : Except Error Normalized := do
  SqlTree.normalize d.delimiters text (← d.tokenize text)

end SqlTree

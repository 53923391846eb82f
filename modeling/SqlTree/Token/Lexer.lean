import SqlTree.Error
import SqlTree.Text.Integer
import SqlTree.Text.Place
import SqlTree.Text.Quoted
import SqlTree.Token.Keyword

/-!
# From characters to tokens

The lexer reads one piece after another: a comment, a blank, a word, a number, a string or a symbol.
A piece knows the characters it was read from, so its span follows from the place it starts at, and
reading a piece does not depend on that place.  Each piece is one step, and steps are capped.
-/

namespace SqlTree

/-- The lexical options of a dialect. -/
structure Lexicon where
  /-- The dialect whose keywords are used. -/
  dialect : Dialect
  /-- Whether `/*+ … */` is a hint and not a comment. -/
  hintComments : Bool
  /-- Whether `N'…'` is a string. -/
  nationalStrings : Bool
  /-- How many pieces a text may have. -/
  maxSteps : Nat
  deriving DecidableEq, Repr

/-- The default cap on the pieces of a text. -/
def defaultMaxSteps : Nat := 100000

def Dialect.lexicon (d : Dialect) : Lexicon :=
  ⟨d, d.hintComments, d.nationalStrings, defaultMaxSteps⟩

namespace Lexer

open Text

/-- A piece of a text: the characters it was read from, the token it stands for unless it is a
blank, and the characters after it. -/
structure Piece where
  chars : List Char
  token : Option (TokenType × String)
  rest : List Char
  deriving DecidableEq, Repr

/-- What stops the reading of a piece, and the characters of the piece before that place. -/
structure Fault where
  cause : LexicalCause
  before : List Char
  deriving DecidableEq, Repr

/-- The symbols and operators; of two that start alike the longer one comes first. -/
def symbols : List (List Char × TokenType) :=
  [(['!', '~', '*'], .notTildeStar), (['!', '~'], .notTilde), (['!', '='], .neq),
   (['<', '='], .lte), (['<', '>'], .neq), (['<'], .lt), (['>', '='], .gte), (['>'], .gt),
   (['|', '|'], .doublePipe), (['|'], .pipe), (['~', '*'], .tildeStar), (['~'], .tilde),
   (['('], .lparen), ([')'], .rparen), (['['], .lbracket), ([']'], .rbracket),
   (['\x7b'], .lbrace), (['\x7d'], .rbrace), ([','], .comma), (['.'], .dot),
   ([';'], .semicolon), ([':'], .colon), (['@'], .atSign), (['"'], .doubleQuote),
   (['\x60'], .backtick), (['='], .eq), (['+'], .plus), (['-'], .dash), (['*'], .star),
   (['/'], .slash), (['%'], .percent), (['&'], .amp), (['^'], .caret)]

/-- The characters that separate tokens and mean nothing else. -/
def isSeparator (c : Char) : Bool :=
  c == ' ' || c == '\t' || c == '\n' || c == '\r'

/-- Splits what follows the opening of a block comment at the first `*/`. -/
def splitClose : List Char → Option (List Char × List Char)
  | [] => none
  | '*' :: '/' :: cs => some ([], cs)
  | c :: cs => (splitClose cs).map fun (body, rest) => (c :: body, rest)

def commentText (body : List Char) : String :=
  String.ofList (trim body)

/-- Reads a comment or a hint from what follows its opening. -/
def commentAfter (type : TokenType) (opening cs : List Char) : Except Fault Piece :=
  match splitClose cs with
  | none => .error ⟨.unterminatedComment, []⟩
  | some (body, rest) =>
    .ok ⟨opening ++ body ++ ['*', '/'], some (type, commentText body), rest⟩

/-- Reads a block comment from what follows its `/*`. -/
def blockComment (lx : Lexicon) (cs : List Char) : Except Fault Piece :=
  match lx.hintComments, cs with
  | true, '+' :: cs => commentAfter .hint ['/', '*', '+'] cs
  | _, cs => commentAfter .blockComment ['/', '*'] cs

/-- Reads a line comment from what follows its `--`. -/
def lineComment (cs : List Char) : Piece :=
  let body := cs.takeWhile (· != '\n')
  ⟨'-' :: '-' :: body, some (.lineComment, commentText body), cs.dropWhile (· != '\n')⟩

/-- Reads a string from what follows its opening quote; `before` are the characters of the piece
before that quote. -/
def string (type : TokenType) (before cs : List Char) : Except Fault Piece :=
  match Quoted.readBody cs with
  | none => .error ⟨.unterminatedString, []⟩
  | some (text, rest) => .ok ⟨before ++ Quoted.write text, some (type, String.ofList text), rest⟩

/-- Whether a word opens a national string when a quote follows it. -/
def opensNational (lx : Lexicon) (text : String) : Bool :=
  lx.nationalStrings && sameWord text "N"

def wordType (lx : Lexicon) (text : String) : TokenType :=
  match lx.dialect.keyword? text with
  | some keyword => .keyword keyword
  | none => .identifier

def wordPiece (lx : Lexicon) (chars rest : List Char) : Piece :=
  ⟨chars, some (wordType lx (String.ofList chars), String.ofList chars), rest⟩

/-- Reads a word: a national string where its letter is followed by a quote, else a keyword or an
identifier. -/
def word (lx : Lexicon) (cs : List Char) : Except Fault Piece :=
  match opensNational lx (String.ofList (cs.takeWhile continuesWord)),
    cs.dropWhile continuesWord with
  | true, '\'' :: rest => string .nationalString (cs.takeWhile continuesWord) rest
  | _, rest => .ok (wordPiece lx (cs.takeWhile continuesWord) rest)

def numberPiece (chars rest : List Char) : Piece :=
  ⟨chars, some (.number, String.ofList chars), rest⟩

/-- Reads a number: digits with at most one point among or after them. -/
def number (cs : List Char) : Except Fault Piece :=
  match cs.dropWhile Char.isDigit with
  | '.' :: fraction =>
    let chars := cs.takeWhile Char.isDigit ++ '.' :: fraction.takeWhile Char.isDigit
    match fraction.dropWhile Char.isDigit with
    | '.' :: _ => .error ⟨.secondPoint, chars⟩
    | rest => .ok (numberPiece chars rest)
  | rest => .ok (numberPiece (cs.takeWhile Char.isDigit) rest)

def symbol (c : Char) (cs : List Char) : Except Fault Piece :=
  match symbols.find? fun entry => entry.1.isPrefixOf (c :: cs) with
  | some (spelling, type) =>
    .ok ⟨spelling, some (type, String.ofList spelling), (c :: cs).drop spelling.length⟩
  | none => .error ⟨.unexpectedCharacter c, []⟩

/-- Reads a piece that is no comment, by its first character. -/
def plainPiece (lx : Lexicon) (c : Char) (cs : List Char) : Except Fault Piece :=
  if isSeparator c then .ok ⟨[c], none, cs⟩
  else if startsWord c then word lx (c :: cs)
  else if c.isDigit then number (c :: cs)
  else if c = '\'' then string .string [] cs
  else symbol c cs

/-- Reads the piece at the front of a text that is not empty. -/
def piece (lx : Lexicon) (c : Char) (cs : List Char) : Except Fault Piece :=
  match c, cs with
  | '/', '*' :: cs => blockComment lx cs
  | '-', '-' :: cs => .ok (lineComment cs)
  | c, cs => plainPiece lx c cs

/-- The token of a piece that was read between two places. -/
def Piece.tokenBetween (p : Piece) (start stop : Place) : Option Token :=
  p.token.map fun (type, text) => ⟨type, text, Span.between start stop⟩

/-- Reads pieces to the end of the text with a given number of steps; `done` holds the tokens read
so far, the last one first. -/
def run (lx : Lexicon) : Nat → Place → List Token → List Char → Except Error (List Token)
  | _, _, done, [] => .ok done.reverse
  | 0, place, _, _ :: _ => .error (.lexical (.tooManySteps lx.maxSteps) place.line place.column)
  | steps + 1, place, done, c :: cs =>
    match piece lx c cs with
    | .error fault =>
      let spot := place.advance fault.before
      .error (.lexical fault.cause spot.line spot.column)
    | .ok p =>
      let stop := place.advance p.chars
      run lx steps stop ((p.tokenBetween place stop).toList ++ done) p.rest

end Lexer

def Lexicon.tokenize (lx : Lexicon) (text : String) : Except Error (List Token) :=
  Lexer.run lx lx.maxSteps Text.Place.start [] (Text.unifyNewlines text.toList)

def Dialect.tokenize (d : Dialect) (text : String) : Except Error (List Token) :=
  d.lexicon.tokenize text

end SqlTree

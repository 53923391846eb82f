import SqlTree.Text.Place

/-!
# Tokens

A token is a type, a text and the span it was read from.  This module holds the types and their
classes; the keywords of each dialect are in `SqlTree.Token.Keyword`, the lexer in
`SqlTree.Token.Lexer`.
-/

namespace SqlTree

/-- The words that a dialect can reserve. -/
inductive Keyword where
  | SELECT | FROM | WHERE | AND | OR | XOR | NOT | AS | ON | JOIN | INNER | LEFT | RIGHT | FULL
  | OUTER | CROSS | UNION | INTERSECT | EXCEPT | MINUS | ALL | DISTINCT | UNIQUE | GROUP | BY
  | HAVING | ORDER | ASC | DESC | IN | IS | NULL | LIKE | ILIKE | REGEXP | BETWEEN | EXISTS
  | ANY | CASE | WHEN | THEN | ELSE | END | INSERT | INTO | VALUES | UPDATE | SET | DELETE
  | WITH | OVER | PARTITION | TRUE | FALSE | COLLATE | LIMIT | OFFSET | ROWS | FETCH | ONLY
  | NEXT | FIRST | TOP | DUAL | PIVOT | CONNECT | START | PRIOR | NOCYCLE | SIBLINGS | INTERVAL
  | ARRAY
  deriving DecidableEq, Repr

namespace Keyword

def all : List Keyword :=
  [.SELECT, .FROM, .WHERE, .AND, .OR, .XOR, .NOT, .AS, .ON, .JOIN, .INNER, .LEFT, .RIGHT,
   .FULL, .OUTER, .CROSS, .UNION, .INTERSECT, .EXCEPT, .MINUS, .ALL, .DISTINCT, .UNIQUE,
   .GROUP, .BY, .HAVING, .ORDER, .ASC, .DESC, .IN, .IS, .NULL, .LIKE, .ILIKE, .REGEXP,
   .BETWEEN, .EXISTS, .ANY, .CASE, .WHEN, .THEN, .ELSE, .END, .INSERT, .INTO, .VALUES, .UPDATE,
   .SET, .DELETE, .WITH, .OVER, .PARTITION, .TRUE, .FALSE, .COLLATE, .LIMIT, .OFFSET, .ROWS,
   .FETCH, .ONLY, .NEXT, .FIRST, .TOP, .DUAL, .PIVOT, .CONNECT, .START, .PRIOR, .NOCYCLE,
   .SIBLINGS, .INTERVAL, .ARRAY]

def name : Keyword → String
  | .SELECT => "Select"
  | .FROM => "From"
  | .WHERE => "Where"
  | .AND => "And"
  | .OR => "Or"
  | .XOR => "Xor"
  | .NOT => "Not"
  | .AS => "As"
  | .ON => "On"
  | .JOIN => "Join"
  | .INNER => "Inner"
  | .LEFT => "Left"
  | .RIGHT => "Right"
  | .FULL => "Full"
  | .OUTER => "Outer"
  | .CROSS => "Cross"
  | .UNION => "Union"
  | .INTERSECT => "Intersect"
  | .EXCEPT => "Except"
  | .MINUS => "Minus"
  | .ALL => "All"
  | .DISTINCT => "Distinct"
  | .UNIQUE => "Unique"
  | .GROUP => "Group"
  | .BY => "By"
  | .HAVING => "Having"
  | .ORDER => "Order"
  | .ASC => "Asc"
  | .DESC => "Desc"
  | .IN => "In"
  | .IS => "Is"
  | .NULL => "Null"
  | .LIKE => "Like"
  | .ILIKE => "ILike"
  | .REGEXP => "Regexp"
  | .BETWEEN => "Between"
  | .EXISTS => "Exists"
  | .ANY => "Any"
  | .CASE => "Case"
  | .WHEN => "When"
  | .THEN => "Then"
  | .ELSE => "Else"
  | .END => "End"
  | .INSERT => "Insert"
  | .INTO => "Into"
  | .VALUES => "Values"
  | .UPDATE => "Update"
  | .SET => "Set"
  | .DELETE => "Delete"
  | .WITH => "With"
  | .OVER => "Over"
  | .PARTITION => "Partition"
  | .TRUE => "True"
  | .FALSE => "False"
  | .COLLATE => "Collate"
  | .LIMIT => "Limit"
  | .OFFSET => "Offset"
  | .ROWS => "Rows"
  | .FETCH => "Fetch"
  | .ONLY => "Only"
  | .NEXT => "Next"
  | .FIRST => "First"
  | .TOP => "Top"
  | .DUAL => "Dual"
  | .PIVOT => "Pivot"
  | .CONNECT => "Connect"
  | .START => "Start"
  | .PRIOR => "Prior"
  | .NOCYCLE => "NoCycle"
  | .SIBLINGS => "Siblings"
  | .INTERVAL => "Interval"
  | .ARRAY => "Array"

end Keyword

inductive TokenType where
  -- symbols
  | lparen | rparen | lbracket | rbracket | lbrace | rbrace | comma | dot | semicolon | colon
  | atSign | doubleQuote | backtick | eq | neq | lt | lte | gt | gte
  -- operators
  | plus | dash | star | slash | percent | doublePipe | amp | pipe | caret | tilde | tildeStar
  | notTilde | notTildeStar
  -- constants
  | number | string | nationalString
  -- names, hints and comments
  | hint | identifier | quotedIdentifier | lineComment | blockComment
  /-- A keyword of the dialect. -/
  | keyword (word : Keyword)
  deriving DecidableEq, Repr

inductive TokenClass where
  | keyword | symbol | operator | constant | hint | unclassified
  deriving DecidableEq, Repr

def TokenClass.name : TokenClass → String
  | .keyword => "Keyword"
  | .symbol => "Symbol"
  | .operator => "Operator"
  | .constant => "Constant"
  | .hint => "Hints"
  | .unclassified => "Unclassified"

namespace TokenType

def all : List TokenType :=
  [.lparen, .rparen, .lbracket, .rbracket, .lbrace, .rbrace, .comma, .dot, .semicolon, .colon,
   .atSign, .doubleQuote, .backtick, .eq, .neq, .lt, .lte, .gt, .gte, .plus, .dash, .star,
   .slash, .percent, .doublePipe, .amp, .pipe, .caret, .tilde, .tildeStar, .notTilde,
   .notTildeStar, .number, .string, .nationalString, .hint, .identifier, .quotedIdentifier,
   .lineComment, .blockComment] ++
  Keyword.all.map .keyword

def name : TokenType → String
  | .lparen => "LParen"
  | .rparen => "RParen"
  | .lbracket => "LBracket"
  | .rbracket => "RBracket"
  | .lbrace => "LBrace"
  | .rbrace => "RBrace"
  | .comma => "Comma"
  | .dot => "Dot"
  | .semicolon => "Semicolon"
  | .colon => "Colon"
  | .atSign => "At"
  | .doubleQuote => "DoubleQuote"
  | .backtick => "Backtick"
  | .eq => "Eq"
  | .neq => "Neq"
  | .lt => "Lt"
  | .lte => "Lte"
  | .gt => "Gt"
  | .gte => "Gte"
  | .plus => "Plus"
  | .dash => "Dash"
  | .star => "Star"
  | .slash => "Slash"
  | .percent => "Percent"
  | .doublePipe => "DPipe"
  | .amp => "Amp"
  | .pipe => "Pipe"
  | .caret => "Caret"
  | .tilde => "Tilde"
  | .tildeStar => "TildeStar"
  | .notTilde => "NotTilde"
  | .notTildeStar => "NotTildeStar"
  | .number => "Number"
  | .string => "String"
  | .nationalString => "NationalString"
  | .hint => "Hint"
  | .identifier => "Identifier"
  | .quotedIdentifier => "QuotedIdentifier"
  | .lineComment => "LineComment"
  | .blockComment => "BlockComment"
  | .keyword word => word.name

/-- The number of a token type. -/
def index (type : TokenType) : Nat :=
  all.idxOf type

/-- Puts an underscore before every inner capital and turns all into capitals. -/
def underscored : List Char → List Char
  | [] => []
  | c :: cs => c.toUpper :: cs.flatMap fun d => if d.isUpper then ['_', d] else [d.toUpper]

/-- The name of a token type in stored tokens, `LParen` becoming `L_PAREN`. -/
def storedName (type : TokenType) : String :=
  String.ofList (underscored type.name.toList)

/-- The token type of a stored name. -/
def ofStoredName? (name : String) : Option TokenType :=
  all.find? fun type => type.storedName == name

def isKeyword : TokenType → Bool
  | .keyword _ => true
  | _ => false

def isComment : TokenType → Bool
  | .lineComment | .blockComment => true
  | _ => false

/-- Whether the type is a plain word: an identifier that is not escaped, or a keyword. -/
def isWord : TokenType → Bool
  | .identifier | .keyword _ => true
  | _ => false

/-- Whether the type is a name: an identifier, escaped or not. -/
def isName : TokenType → Bool
  | .identifier | .quotedIdentifier => true
  | _ => false

def isComparison : TokenType → Bool
  | .eq | .neq | .lt | .lte | .gt | .gte => true
  | _ => false

def isArithmetic : TokenType → Bool
  | .plus | .dash | .star | .slash | .percent => true
  | _ => false

def tokenClass : TokenType → TokenClass
  | .keyword _ => .keyword
  | .plus | .dash | .star | .slash | .percent | .doublePipe | .amp | .pipe | .caret
  | .tilde | .tildeStar | .notTilde | .notTildeStar => .operator
  | .number | .string | .nationalString => .constant
  | .hint => .hint
  | .identifier | .quotedIdentifier | .lineComment | .blockComment => .unclassified
  | _ => .symbol

end TokenType

/-- Where a token was read: from `start` up to `stop`, beginning in the given line and column. -/
structure Span where
  start : Nat
  stop : Nat
  line : Nat
  column : Nat
  deriving DecidableEq, Repr

/-- The span of what was read between two places. -/
def Span.between (p q : Text.Place) : Span :=
  ⟨p.offset, q.offset, p.line, p.column⟩

/-- A token.  The text of a word, a number or a symbol is as written, that of a string is its
content, that of a comment or a hint is its body without blanks at the ends. -/
structure Token where
  type : TokenType
  text : String
  span : Span
  deriving DecidableEq, Repr

namespace Token

/-- Two tokens agree when they have the same type; their texts and spans do not matter. -/
def agrees (a b : Token) : Bool :=
  a.type == b.type

/-- A token that was not read from any text. -/
def unplaced (type : TokenType) (text : String) : Token :=
  ⟨type, text, ⟨0, 0, 0, 0⟩⟩

/-- The name of the token's type with its text in parentheses. -/
def display (token : Token) : String :=
  token.type.name ++ "(" ++ token.text ++ ")"

end Token

end SqlTree

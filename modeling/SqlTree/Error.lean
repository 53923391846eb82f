import SqlTree.Token.Basic
import SqlTree.Tree.Kind

/-!
# Errors

What can go wrong between a text and its tree, as causes.  Each cause is worded in one place, and
`Error.message` is the whole text that a reader sees.  A `stated` cause carries wording of the
caller's own.
-/

namespace SqlTree

/-- Why a text cannot be read as tokens. -/
inductive LexicalCause where
  | tooManySteps (cap : Nat)
  | unterminatedComment
  | unterminatedString
  | secondPoint
  | unexpectedCharacter (c : Char)
  | unclosedIdentifier (left : Char)
  | emptyIdentifier
  | stated (message : String)
  deriving DecidableEq, Repr

def LexicalCause.text : LexicalCause → String
  | .tooManySteps cap => "Exceeded the maximum of " ++ toString cap ++ " scan steps"
  | .unterminatedComment => "Unterminated block comment"
  | .unterminatedString => "Unterminated string"
  | .secondPoint => "Numeric literal has more than one decimal point"
  | .unexpectedCharacter c => "Unexpected character: '" ++ String.singleton c ++ "'"
  | .unclosedIdentifier left =>
    "Unclosed escaped identifier starting with '" ++ String.singleton left ++ "'"
  | .emptyIdentifier => "Empty escaped identifier"
  | .stated message => message

/-- What stands where something else was wanted. -/
inductive Found where
  | token (type : TokenType) (text : String)
  | endOfInput
  deriving DecidableEq, Repr

def Found.text : Found → String
  | .token type text => type.name ++ " '" ++ text ++ "'"
  | .endOfInput => "end of input"

/-- What the grammar wants at a place. -/
inductive Wanted where
  | token (type : TokenType)
  | expression
  | identifier
  | tableName
  | aliasName
  | collation
  | variableName (sigil : String)
  | zone
  | nullValue
  | caseBranch
  | nullsPlace
  | rows
  | nextOrFirst
  | firstOrNext
  | pivotFor
  | valuesOrQuery
  deriving DecidableEq, Repr

def Wanted.text : Wanted → String
  | .token type => type.name
  | .expression => "expression"
  | .identifier => "identifier"
  | .tableName => "table name"
  | .aliasName => "alias after AS"
  | .collation => "collation name"
  | .variableName sigil => "variable name after '" ++ sigil ++ "'"
  | .zone => "ZONE after AT TIME"
  | .nullValue => "NULL after IS"
  | .caseBranch => "WHEN in CASE"
  | .nullsPlace => "FIRST or LAST after NULLS"
  | .rows => "ROWS"
  | .nextOrFirst => "NEXT or FIRST after FETCH"
  | .firstOrNext => "FIRST or NEXT after FETCH"
  | .pivotFor => "FOR in PIVOT"
  | .valuesOrQuery => "VALUES or SELECT"

/-- Why tokens do not follow the grammar. -/
inductive GrammarCause where
  | expected (wanted : Wanted) (found : Found)
  | inExpression (found : Found)
  | afterStatement (found : Found)
  | statementStart (found : Found)
  | longTableName (parts : List String)
  | longColumnName (parts : List String)
  | missingIndex
  | stated (message : String)
  deriving DecidableEq, Repr

def GrammarCause.text : GrammarCause → String
  | .expected wanted found => "Expected " ++ wanted.text ++ ", got " ++ found.text
  | .inExpression found => "Unexpected " ++ found.text ++ " in expression"
  | .afterStatement found => "Unexpected " ++ found.text ++ " after end of statement"
  | .statementStart found => "Unrecognized statement starting with " ++ found.text
  | .longTableName parts => "Table name has too many qualifiers: " ++ ".".intercalate parts
  | .longColumnName parts => "Column reference has too many qualifiers: " ++ ".".intercalate parts
  | .missingIndex => "Expected array index"
  | .stated message => message

/-- The lists and chains whose length is capped. -/
inductive Construct where
  | withList | withColumns | selectList | groupBy | orderBy | fromList | tableHints | pivotValues
  | insertColumns | valuesList | valuesRow | setList | inList | arguments | partitionBy
  | caseItems | array
  deriving DecidableEq, Repr

def Construct.text : Construct → String
  | .withList => "WITH"
  | .withColumns => "CTE column list"
  | .selectList => "select list"
  | .groupBy => "GROUP BY"
  | .orderBy => "ORDER BY"
  | .fromList => "FROM"
  | .tableHints => "table hints"
  | .pivotValues => "PIVOT values"
  | .insertColumns => "INSERT column list"
  | .valuesList => "VALUES"
  | .valuesRow => "VALUES row"
  | .setList => "SET"
  | .inList => "IN list"
  | .arguments => "function arguments"
  | .partitionBy => "PARTITION BY"
  | .caseItems => "CASE"
  | .array => "ARRAY"

/-- Why a statement as a whole is refused, wherever it stands. -/
inductive StatementCause where
  | emptyInput
  | unknownDialect (name : String)
  | tooManyIterations (construct : Construct) (cap : Nat)
  | tooDeep (cap : Nat)
  | stated (message : String)
  deriving DecidableEq, Repr

def StatementCause.text : StatementCause → String
  | .emptyInput => "Unrecognized statement: empty input"
  | .unknownDialect name => "Unknown dialect: " ++ name
  | .tooManyIterations construct cap =>
    construct.text ++ " exceeded the maximum of " ++ toString cap ++ " iterations"
  | .tooDeep cap => "expression nesting exceeded the maximum of " ++ toString cap ++ " levels"
  | .stated message => message

/-- What the grammar knows and the tree has no room for. -/
inductive Feature where
  | collateOn (kind : NodeKind)
  | stated (name : String)
  deriving DecidableEq, Repr

def Feature.text : Feature → String
  | .collateOn kind => "COLLATE on " ++ kind.name
  | .stated name => name

/-- Conditions that the callers of a function are to rule out. -/
inductive InternalCause where
  | unsupportedDelimiter (c : Char)
  | spanOutsideSource
  | withOn (kind : NodeKind)
  | pastEnd
  | stated (message : String)
  deriving DecidableEq, Repr

def InternalCause.text : InternalCause → String
  | .unsupportedDelimiter c => "Unsupported escape delimiter: " ++ String.singleton c
  | .spanOutsideSource => "Token span outside of source text"
  | .withOn kind => "cannot attach WITH clause to " ++ kind.name
  | .pastEnd => "no token left to take"
  | .stated message => message

/-- An error with its cause and, where it has one, its place. -/
inductive Error where
  /-- The text cannot be read as tokens. -/
  | lexical (cause : LexicalCause) (line column : Nat)
  /-- The tokens do not follow the grammar. -/
  | grammar (cause : GrammarCause) (line column : Nat)
  /-- The statement as a whole is refused. -/
  | statement (cause : StatementCause)
  /-- The tree has no room for a feature of the dialect. -/
  | unsupported (feature : Feature) (dialect : String)
  /-- A caller broke a promise. -/
  | internal (cause : InternalCause)
  deriving DecidableEq, Repr

namespace Error

def className : Error → String
  | .lexical .. => "Tokenize"
  | .grammar .. => "Syntax"
  | .statement _ => "Parse"
  | .unsupported .. => "Unsupported"
  | .internal _ => "Internal"

/-- Whether the error comes from reading characters. -/
def isLexical : Error → Bool
  | .lexical .. => true
  | _ => false

def placeText (line column : Nat) : String :=
  " error at line " ++ toString line ++ ", column " ++ toString column ++ ": "

def message : Error → String
  | .lexical cause line column => "Tokenization" ++ placeText line column ++ cause.text
  | .grammar cause line column => "Syntax" ++ placeText line column ++ cause.text
  | .statement cause => "Parse error: " ++ cause.text
  | .unsupported feature dialect =>
    "Unsupported: " ++ feature.text ++ " is not supported in " ++ dialect
  | .internal cause => "Internal error: " ++ cause.text

end Error

/-- A sequence of two parts succeeds if both do. -/
theorem except_bind_eq_ok {ε α β : Type} {x : Except ε α} {f : α → Except ε β} {b : β} :
    (x >>= f) = .ok b ↔ ∃ a, x = .ok a ∧ f a = .ok b := by
  cases x with
  | error e =>
      constructor
      · exact nofun
      · rintro ⟨a, ha, -⟩
        cases ha
  | ok a =>
      constructor
      · exact fun hf => ⟨a, rfl, hf⟩
      · rintro ⟨a', ha, hf⟩
        cases ha
        exact hf

end SqlTree

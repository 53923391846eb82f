import SqlTree.Text.Character

/-!
# Dialects

The five dialects and the facts in which they differ: their names, the delimiters of an escaped
identifier, the spelling of a row limit, and the lexical options.  The keywords of a dialect are in
`SqlTree.Token.Keyword`.
-/

namespace SqlTree

/-- The dialects of SQL that are read. -/
inductive Dialect where
  | mySql
  | sqlServer
  | oracle
  | postgreSql
  | sqlite
  deriving DecidableEq, Repr, Hashable

/-- The way in which a dialect writes how many rows are wanted. -/
inductive LimitStyle where
  /-- `LIMIT n`, `LIMIT m, n` or `LIMIT n OFFSET m`. -/
  | limitOffset
  /-- `OFFSET m ROWS [FETCH NEXT n ROWS ONLY]`. -/
  | offsetFetch
  /-- `[OFFSET m ROWS] [FETCH FIRST n ROWS ONLY]`. -/
  | fetchFirst
  /-- `LIMIT n` and `OFFSET m` in either order. -/
  | limitAndOffset
  deriving DecidableEq, Repr

def LimitStyle.name : LimitStyle → String
  | .limitOffset => "LimitOffset"
  | .offsetFetch => "OffsetFetch"
  | .fetchFirst => "FetchFirst"
  | .limitAndOffset => "PostgresLimit"

def LimitStyle.all : List LimitStyle :=
  [.limitOffset, .offsetFetch, .fetchFirst, .limitAndOffset]

def LimitStyle.ofName? (name : String) : Option LimitStyle :=
  all.find? fun style => style.name == name

/-- The two characters that an escaped identifier stands between. -/
structure Delimiters where
  left : Char
  right : Char
  deriving DecidableEq, Repr

namespace Dialect

/-- Every dialect, in the order of their numbers. -/
def all : List Dialect := [.mySql, .sqlServer, .oracle, .postgreSql, .sqlite]

/-- The number of a dialect, counted from zero. -/
def index : Dialect → Nat
  | .mySql => 0
  | .sqlServer => 1
  | .oracle => 2
  | .postgreSql => 3
  | .sqlite => 4

/-- The name shown to a reader. -/
def name : Dialect → String
  | .mySql => "mysql"
  | .sqlServer => "sqlserver"
  | .oracle => "oracle"
  | .postgreSql => "postgresql"
  | .sqlite => "sqlite"

/-- The name written into stored trees. -/
def storedName : Dialect → String
  | .mySql => "MySql"
  | .sqlServer => "SqlServer"
  | .oracle => "Oracle"
  | .postgreSql => "Pgsql"
  | .sqlite => "Sqlite"

/-- The names under which a dialect can be asked for. -/
def askedNames : Dialect → List String
  | .mySql => ["mysql"]
  | .sqlServer => ["sqlserver", "mssql", "tsql"]
  | .oracle => ["oracle"]
  | .postgreSql => ["postgresql", "postgres", "pgsql"]
  | .sqlite => ["sqlite"]

/-- The dialect that a name asks for; the case of ASCII letters does not matter. -/
def ofName? (name : String) : Option Dialect :=
  all.find? fun d => d.askedNames.contains (Text.lower name)

/-- The dialect of a stored name. -/
def ofStoredName? (name : String) : Option Dialect :=
  all.find? fun d => d.storedName == name

def delimiters : Dialect → Delimiters
  | .mySql | .sqlite => ⟨'\x60', '\x60'⟩
  | .sqlServer => ⟨'[', ']'⟩
  | .oracle | .postgreSql => ⟨'"', '"'⟩

def limitStyle : Dialect → LimitStyle
  | .mySql | .sqlite => .limitOffset
  | .sqlServer => .offsetFetch
  | .oracle => .fetchFirst
  | .postgreSql => .limitAndOffset

/-- Whether `/*+ … */` is a hint and not a comment. -/
def hintComments : Dialect → Bool
  | .mySql | .oracle => true
  | _ => false

/-- Whether `N'…'` is a string. -/
def nationalStrings : Dialect → Bool
  | .sqlServer => true
  | _ => false

theorem ofName?_name (d : Dialect) : ofName? d.name = some d := by
  cases d <;> decide +kernel

theorem ofStoredName?_storedName (d : Dialect) : ofStoredName? d.storedName = some d := by
  cases d <;> decide

end Dialect

end SqlTree

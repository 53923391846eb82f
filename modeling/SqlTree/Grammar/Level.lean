import SqlTree.Grammar.Cursor
import SqlTree.Tree.Node

/-!
# Settings and nesting levels

One grammar serves all dialects; the settings say which one is read.  The grammar is recursive
through five productions only, and each of them opens a nesting level.  A `Level` is what a rule
knows: the settings, and how those productions are read one level further down.  Every other rule is
built from these without recursion.
-/

namespace SqlTree

/-- How statements are to be read. -/
structure Settings where
  /-- The dialect stamped on every node. -/
  tag : Tag
  /-- The way in which row limits are written; none means that there are no row limits. -/
  limitStyle : Option LimitStyle
  /-- How many items a list may have. -/
  maxIterations : Nat
  /-- How many nesting levels may be open. -/
  maxDepth : Nat
  deriving DecidableEq, Repr

/-- The default cap on the items of a list. -/
def defaultMaxIterations : Nat := 100000

/-- The default cap on nesting levels. -/
def defaultMaxDepth : Nat := 32

def Dialect.settings (d : Dialect) : Settings :=
  ⟨⟨some d⟩, some d.limitStyle, defaultMaxIterations, defaultMaxDepth⟩

/-- The productions through which the grammar is recursive. -/
inductive Production where
  /-- A query with its named queries and set operators. -/
  | query
  /-- A source of rows: a table, a parenthesised query or join, or a function. -/
  | source
  /-- What follows a `NOT`. -/
  | negation
  /-- An operand of an operator, with its sign and what is written behind it. -/
  | operand
  /-- The value of an interval. -/
  | intervalValue
  deriving DecidableEq, Repr

/-- What a rule of the grammar knows. -/
structure Level where
  settings : Settings
  /-- Reads a production one nesting level further down. -/
  below : Production → Parser Expr

namespace Level

variable (g : Level)

def tag : Tag := g.settings.tag

def readsDialect (d : Dialect) : Bool :=
  g.tag.dialect == some d

def dialectName : String :=
  g.tag.dialect.elim "generic" Dialect.name

/-- Reads items with commas between them, no more than the settings allow. -/
def commaList {α : Type} (construct : Construct) (item : Parser α) : Parser (List α) :=
  Parser.commaList construct g.settings.maxIterations item

def binary (left : Expr) (op : BinaryOp) (right : Expr) : Expr :=
  .node (.binary left op right g.tag)

def number (value : String) : Expr :=
  .node (.number value g.tag)

def bool (value : Bool) : Expr :=
  .node (.bool value g.tag)

def null : Expr :=
  .node (.null g.tag)

def subquery (query : Expr) : Expr :=
  .node (.select query none g.tag)

end Level

end SqlTree

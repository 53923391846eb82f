import SqlTree.Grammar.Statement
import SqlTree.Token.Escape
import SqlTree.Tree.Distinct
import SqlTree.Tree.Render

/-!
# From text to tree

The whole way: a text is read as tokens, comments are lifted out and escaped identifiers fused, and
the grammar reads one statement from what is left.  The first stage that fails gives the error.
-/

namespace SqlTree

/-- A statement that was read from a text, with the comments of that text. -/
structure Parsed where
  statement : Expr
  comments : List String
  dialect : Dialect
  deriving BEq

def Settings.statementOf (settings : Settings) (tokens : List Token) : Except Error Expr :=
  match settings.statement (Cursor.start tokens) with
  | .ok e _ => .ok e
  | .error e _ => .error e

namespace Dialect

/-- The dialect that a name asks for, which has to be known. -/
def ofName (name : String) : Except Error Dialect :=
  match ofName? name with
  | some d => .ok d
  | none => .error (.statement (.unknownDialect name))

/-- Reads a statement and the comments around it with settings of the caller's. -/
def parseWith (d : Dialect) (settings : Settings) (text : String) :
    Except Error (Expr × List String) := do
  let normalized ← d.normalize text
  return (← settings.statementOf normalized.tokens, normalized.comments)

def parse (d : Dialect) (text : String) : Except Error Parsed := do
  let (statement, comments) ← d.parseWith d.settings text
  return ⟨statement, comments, d⟩

/-- Where the first stages succeed, the grammar decides. -/
theorem parse_of_normalize {d : Dialect} {text : String} {result : Normalized}
    (hnormalize : d.normalize text = .ok result) :
    d.parse text = (d.settings.statementOf result.tokens).map (⟨·, result.comments, d⟩) := by
  rw [parse, parseWith, hnormalize]
  change (d.settings.statementOf result.tokens >>= _) >>= _ = _
  cases d.settings.statementOf result.tokens <;> rfl

/-- A statement that is read has been read by the grammar. -/
theorem exists_of_parse {d : Dialect} {text : String} {parsed : Parsed}
    (hparse : d.parse text = .ok parsed) :
    ∃ normalized c, d.normalize text = .ok normalized ∧
      d.settings.statement (Cursor.start normalized.tokens) = .ok parsed.statement c := by
  cases hnormalize : d.normalize text with
  | error e =>
      rw [parse, parseWith, hnormalize] at hparse
      cases hparse
  | ok normalized =>
      rw [parse_of_normalize hnormalize, Settings.statementOf] at hparse
      cases hread : d.settings.statement (Cursor.start normalized.tokens) with
      | error e c =>
          rw [hread] at hparse
          cases hparse
      | ok e c =>
          rw [hread] at hparse
          cases hparse
          exact ⟨normalized, c, rfl, hread⟩

/-- Whether the text that a tree is written as reads back as the same tree. -/
def rereads (d : Dialect) (e : Expr) : Except Error Bool := do
  return (← d.parse e.render).statement == e

end Dialect

/-- Reads a statement in a dialect that is asked for by name. -/
def parseNamed (name text : String) : Except Error Parsed := do
  (← Dialect.ofName name).parse text

end SqlTree

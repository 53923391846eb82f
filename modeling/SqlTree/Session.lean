import SqlTree.Grammar.Statement

/-!
# Several readings from one cursor

A cursor may be read from more than once.  Each reading starts where the one before it stopped, also
when that one failed: what was taken before an error stays taken.
-/

namespace SqlTree

inductive Reading where
  | expression
  | statement
  deriving DecidableEq, Repr

namespace Settings

def read (settings : Settings) : Reading → Parser Expr
  | .expression => settings.expression
  | .statement => settings.statement

/-- What a reading gives, and the cursor after it. -/
def attempt (settings : Settings) (reading : Reading) (c : Cursor) : Except Error Expr × Cursor :=
  match settings.read reading c with
  | .ok e c => (.ok e, c)
  | .error e c => (.error e, c)

/-- What readings one after another give, each with the cursor after it. -/
def attempts (settings : Settings) : List Reading → Cursor → List (Except Error Expr × Cursor)
  | [], _ => []
  | reading :: readings, c =>
    let result := settings.attempt reading c
    result :: attempts settings readings result.2

end Settings

end SqlTree

import SqlTree.Grammar.Expression

/-!
# Row limits

The dialects write a row limit in four ways.  All of them give the same clause: how many rows are
skipped and how many are wanted.
-/

namespace SqlTree

/-- How many rows are skipped and how many are wanted, if that is said. -/
structure RowRange where
  offset : Option Expr := none
  rowCount : Option Expr := none

namespace Level

open SqlTree.Parser

variable (g : Level)

def rowsWord : Parser Unit := do
  if ← acceptKeyword .ROWS then return ()
  else if ← acceptWord "ROW" then return ()
  else refuseFor .rows

def limitOffset : Parser RowRange := do
  if ← acceptKeyword .LIMIT then
    let first ← g.additive
    if ← accept .comma then return ⟨some first, some (← g.additive)⟩
    else if ← acceptWord "OFFSET" then return ⟨some (← g.additive), some first⟩
    else return ⟨none, some first⟩
  else return {}

/-- Takes a keyword or else a plain word, and says whether one of them stood here. -/
def acceptEither (word : Keyword) (other : String) : Parser Bool := do
  if ← acceptKeyword word then return true else acceptWord other

/-- Reads `FETCH` with one of its two words, given which comes first in errors, then the number of
rows. -/
def fetch (ordinal : Keyword) (other : String) (wanted : Wanted) : Parser (Option Expr) := do
  if ← acceptKeyword .FETCH then
    if ← acceptEither ordinal other then
      let rowCount ← g.additive
      rowsWord
      let _ ← expectKeyword .ONLY
      return some rowCount
    else refuseFor wanted
  else return none

/-- Reads `OFFSET m ROWS [FETCH NEXT n ROWS ONLY]`. -/
def offsetFetch : Parser RowRange := do
  if ← acceptKeyword .OFFSET then
    let offset ← g.additive
    rowsWord
    return ⟨some offset, ← g.fetch .NEXT "FIRST" .nextOrFirst⟩
  else return {}

/-- Reads `OFFSET m ROWS`, if it stands here. -/
def offsetRows : Parser (Option Expr) := do
  if ← acceptWord "OFFSET" then
    let offset ← g.additive
    rowsWord
    return some offset
  else return none

/-- Reads `[OFFSET m ROWS] [FETCH FIRST n ROWS ONLY]`. -/
def fetchFirst : Parser RowRange := do
  let offset ← g.offsetRows
  return ⟨offset, ← g.fetch .FIRST "NEXT" .firstOrNext⟩

/-- Takes the word `ROWS` or `ROW` if it stands here. -/
def rowsWordIfAny : Parser Unit := do
  if ← acceptWord "ROWS" then return ()
  else
    let _ ← acceptWord "ROW"
    return ()

/-- Takes a keyword if it stands here and what follows it has not been read yet. -/
def acceptUnlessRead (read : Option Expr) (word : Keyword) : Parser Bool :=
  if read.isNone then acceptKeyword word else pure false

/-- Reads one of `LIMIT n`, `LIMIT ALL` and `OFFSET m [ROWS]`.  What has been said already is not
read again. -/
def limitOrOffset (range : RowRange) : Parser (Turn RowRange) := do
  if ← acceptUnlessRead range.rowCount .LIMIT then
    if ← acceptKeyword .ALL then return .again range
    else return .again { range with rowCount := some (← g.additive) }
  else if ← acceptUnlessRead range.offset .OFFSET then
    let offset ← g.additive
    rowsWordIfAny
    return .again { range with offset := some offset }
  else return .done range

/-- Reads `LIMIT n` and `OFFSET m` in either order. -/
def limitAndOffset : Parser RowRange :=
  loop g.limitOrOffset {}

def rowRange : Option LimitStyle → Parser RowRange
  | some .limitOffset => g.limitOffset
  | some .offsetFetch => g.offsetFetch
  | some .fetchFirst => g.fetchFirst
  | some .limitAndOffset => g.limitAndOffset
  | none => return {}

def limit : Parser (Option (Limit Expr)) := do
  match ← g.rowRange g.settings.limitStyle with
  | ⟨none, none⟩ => return none
  | ⟨offset, rowCount⟩ => return some ⟨offset, rowCount, g.tag⟩

end Level

end SqlTree

import SqlTree.Dialect
import SqlTree.Token.Basic

/-!
# The keywords of each dialect

Every dialect reserves the common keywords and some of its own.  A word is looked up without regard
to the case of its ASCII letters.
-/

namespace SqlTree

/-- The words that every dialect reserves. -/
def commonKeywords : List (String × Keyword) :=
  [("SELECT", .SELECT), ("FROM", .FROM), ("WHERE", .WHERE), ("AND", .AND), ("OR", .OR),
   ("XOR", .XOR), ("NOT", .NOT), ("AS", .AS), ("ON", .ON), ("JOIN", .JOIN), ("INNER", .INNER),
   ("LEFT", .LEFT), ("RIGHT", .RIGHT), ("FULL", .FULL), ("OUTER", .OUTER), ("CROSS", .CROSS),
   ("UNION", .UNION), ("INTERSECT", .INTERSECT), ("EXCEPT", .EXCEPT), ("ALL", .ALL),
   ("DISTINCT", .DISTINCT), ("GROUP", .GROUP), ("BY", .BY), ("HAVING", .HAVING),
   ("ORDER", .ORDER), ("ASC", .ASC), ("DESC", .DESC), ("IN", .IN), ("IS", .IS), ("NULL", .NULL),
   ("LIKE", .LIKE), ("BETWEEN", .BETWEEN), ("EXISTS", .EXISTS), ("ANY", .ANY), ("CASE", .CASE),
   ("WHEN", .WHEN), ("THEN", .THEN), ("ELSE", .ELSE), ("END", .END), ("INSERT", .INSERT),
   ("INTO", .INTO), ("VALUES", .VALUES), ("UPDATE", .UPDATE), ("SET", .SET),
   ("DELETE", .DELETE), ("WITH", .WITH), ("OVER", .OVER), ("PARTITION", .PARTITION),
   ("TRUE", .TRUE), ("FALSE", .FALSE), ("COLLATE", .COLLATE)]

namespace Dialect

/-- The words that a dialect reserves beside the common ones. -/
def ownKeywords : Dialect → List (String × Keyword)
  | .mySql =>
    [("LIMIT", .LIMIT), ("INTERVAL", .INTERVAL), ("REGEXP", .REGEXP), ("RLIKE", .REGEXP)]
  | .sqlServer =>
    [("OFFSET", .OFFSET), ("ROWS", .ROWS), ("FETCH", .FETCH), ("ONLY", .ONLY), ("NEXT", .NEXT),
     ("TOP", .TOP), ("PIVOT", .PIVOT)]
  | .oracle =>
    [("ROWS", .ROWS), ("FETCH", .FETCH), ("ONLY", .ONLY), ("UNIQUE", .UNIQUE),
     ("FIRST", .FIRST), ("DUAL", .DUAL), ("MINUS", .MINUS), ("CONNECT", .CONNECT),
     ("START", .START), ("PRIOR", .PRIOR), ("NOCYCLE", .NOCYCLE), ("SIBLINGS", .SIBLINGS),
     ("PIVOT", .PIVOT), ("INTERVAL", .INTERVAL)]
  | .postgreSql =>
    [("LIMIT", .LIMIT), ("OFFSET", .OFFSET), ("INTERVAL", .INTERVAL), ("ARRAY", .ARRAY),
     ("ILIKE", .ILIKE)]
  | .sqlite => [("LIMIT", .LIMIT)]

def keywords (d : Dialect) : List (String × Keyword) :=
  commonKeywords ++ d.ownKeywords

/-- The keyword that a word is in a dialect, if it is one. -/
def keyword? (d : Dialect) (word : String) : Option Keyword :=
  d.keywords.lookup (Text.upper word)

def reserves (d : Dialect) (word : String) : Bool :=
  (d.keyword? word).isSome

/-- The case of ASCII letters does not decide whether a word is reserved. -/
theorem keyword?_congr (d : Dialect) {a b : String} (h : Text.sameWord a b = true) :
    d.keyword? a = d.keyword? b := by
  rw [keyword?, Text.sameWord_iff.1 h, keyword?]

end Dialect

end SqlTree

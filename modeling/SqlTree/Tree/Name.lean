import SqlTree.Dialect

/-!
# Tags and names

Every node carries a tag: the dialect it was read in, if it was read.  The tag rides along but takes
no part in equality or hashing.  The names of a tree keep their delimiters, and know them.
-/

namespace SqlTree

/-- The dialect that a node was read in. -/
structure Tag where
  dialect : Option Dialect := none
  deriving DecidableEq, Repr

/-- Any two tags compare equal. -/
instance : BEq Tag := ⟨fun _ _ => true⟩

/-- All tags have the same hash. -/
instance : Hashable Tag := ⟨fun _ => 0⟩

structure Collate where
  name : String
  tag : Tag := {}
  deriving BEq, Hashable, Repr

/-- The unit of an interval, in capitals. -/
structure TimeUnit where
  unit : String
  tag : Tag := {}
  deriving BEq, Hashable, Repr

/-- The words that are units of an interval. -/
def TimeUnit.words : List String :=
  ["MICROSECOND", "MILLISECOND", "SECOND", "MINUTE", "HOUR", "DAY", "WEEK", "MONTH", "QUARTER",
   "YEAR"]

/-- A name.  An escaped name keeps its delimiters in `value` and repeats them in `left` and `right`.
-/
structure Identifier where
  value : String
  left : Option String := none
  right : Option String := none
  collate : Option Collate := none
  tag : Tag := {}
  deriving BEq, Hashable, Repr

namespace Identifier

/-- An escaped name from its text: the first character is the left delimiter, the last one after it
the right delimiter. -/
def escaped (text : String) (tag : Tag) : Identifier :=
  let chars := text.toList
  { value := text
    left := chars.head?.map String.singleton
    right := chars.tail.getLast?.map String.singleton
    tag }

def isEscaped (name : Identifier) : Bool :=
  name.left.isSome

/-- The text without `ends.1` before it and `ends.2` after it, if it has both. -/
def strip? (left right text : List Char) : Option (List Char) :=
  if left.isPrefixOf text then
    let inner := text.drop left.length
    if right.isSuffixOf inner then some (inner.take (inner.length - right.length)) else none
  else none

/-- The name without its delimiters. -/
def unescaped (name : Identifier) : String :=
  match name.left, name.right with
  | some left, some right =>
    match strip? left.toList right.toList name.value.toList with
    | some inner => String.ofList inner
    | none => name.value
  | _, _ => name.value

/-- A name between two one-character delimiters is the text between them. -/
theorem unescaped_escaped (l r : Char) (body : List Char) (tag : Tag) :
    (escaped (String.ofList (l :: body ++ [r])) tag).unescaped = String.ofList body := by
  simp [escaped, unescaped, strip?]

end Identifier

end SqlTree

/-!
# JSON values

The values in which trees are stored and from which they are read back.
-/

namespace SqlTree

/-- A JSON value.  The fields of an object keep their order. -/
inductive Json where
  | null
  | bool (value : Bool)
  | number (value : Int)
  | string (value : String)
  | array (items : List Json)
  | object (fields : List (String × Json))
  deriving Inhabited

namespace Json

mutual

/-- The number of values around the innermost one. -/
def height : Json → Nat
  | .null | .bool _ | .number _ | .string _ => 0
  | .array items => heightOfItems items + 1
  | .object fields => heightOfFields fields + 1

/-- The greatest height of an item. -/
def heightOfItems : List Json → Nat
  | [] => 0
  | item :: items => max item.height (heightOfItems items)

/-- The greatest height of the value of a field. -/
def heightOfFields : List (String × Json) → Nat
  | [] => 0
  | (_, value) :: fields => max value.height (heightOfFields fields)

end

/-- A value that may be missing, `null` standing for a missing one. -/
def maybe {α : Type} (write : α → Json) : Option α → Json
  | none => .null
  | some a => write a

def list {α : Type} (write : α → Json) (items : List α) : Json :=
  .array (items.map write)

def string? : Json → Option String
  | .string value => some value
  | _ => none

def bool? : Json → Option Bool
  | .bool value => some value
  | _ => none

/-- Reads a list: a JSON array whose items can all be read. -/
def list? {α : Type} (read : Json → Option α) : Json → Option (List α)
  | .array items => items.mapM read
  | _ => none

def maybe? {α : Type} (read : Json → Option α) : Json → Option (Option α)
  | .null => some none
  | value => (read value).map some

/-- The name of a constant: a string, or an object with that name as its only key and `null` as its
value. -/
def constantName? : Json → Option String
  | .string name => some name
  | .object [(name, .null)] => some name
  | _ => none

/-- Reads a constant by its name. -/
def constant? {α : Type} (ofName? : String → Option α) (value : Json) : Option α :=
  value.constantName?.bind ofName?

end Json

end SqlTree

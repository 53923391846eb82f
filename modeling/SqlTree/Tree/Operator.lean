/-!
# Operators and options

The closed sets of operators, set operators, join kinds and options that a node can hold, each with
the text it is written with and the name it is stored under.
-/

namespace SqlTree

/-- The operators between two operands. -/
inductive BinaryOp where
  | equal | notEqual | less | lessOrEqual | greater | greaterOrEqual
  | like | notLike | ilike | notILike | is | isNot
  | and | or | xor
  | add | sub | mul | div | mod
  | bitAnd | bitOr | bitXor | concat
  deriving DecidableEq, Repr, Hashable

namespace BinaryOp

def all : List BinaryOp :=
  [.equal, .notEqual, .less, .lessOrEqual, .greater, .greaterOrEqual,
   .like, .notLike, .ilike, .notILike, .is, .isNot, .and, .or, .xor,
   .add, .sub, .mul, .div, .mod, .bitAnd, .bitOr, .bitXor, .concat]

def name : BinaryOp → String
  | .equal => "Equal"
  | .notEqual => "NotEqual"
  | .less => "Less"
  | .lessOrEqual => "LessOrEqual"
  | .greater => "Greater"
  | .greaterOrEqual => "GreaterOrEqual"
  | .like => "Like"
  | .notLike => "NotLike"
  | .ilike => "ILike"
  | .notILike => "NotILike"
  | .is => "Is"
  | .isNot => "IsNot"
  | .and => "And"
  | .or => "Or"
  | .xor => "Xor"
  | .add => "Add"
  | .sub => "Sub"
  | .mul => "Mul"
  | .div => "Div"
  | .mod => "Mod"
  | .bitAnd => "BitwiseAnd"
  | .bitOr => "BitwiseOr"
  | .bitXor => "BitwiseXor"
  | .concat => "Concat"

def text : BinaryOp → String
  | .equal => "="
  | .notEqual => "<>"
  | .less => "<"
  | .lessOrEqual => "<="
  | .greater => ">"
  | .greaterOrEqual => ">="
  | .like => "LIKE"
  | .notLike => "NOT LIKE"
  | .ilike => "ILIKE"
  | .notILike => "NOT ILIKE"
  | .is => "IS"
  | .isNot => "IS NOT"
  | .and => "AND"
  | .or => "OR"
  | .xor => "XOR"
  | .add => "+"
  | .sub => "-"
  | .mul => "*"
  | .div => "/"
  | .mod => "%"
  | .bitAnd => "&"
  | .bitOr => "|"
  | .bitXor => "^"
  | .concat => "||"

def isComparison : BinaryOp → Bool
  | .equal | .notEqual | .less | .lessOrEqual | .greater | .greaterOrEqual
  | .like | .notLike | .ilike | .notILike | .is | .isNot => true
  | _ => false

def isLogical : BinaryOp → Bool
  | .and | .or | .xor => true
  | _ => false

def ofName? (name : String) : Option BinaryOp :=
  all.find? fun op => op.name == name

theorem ofName?_name (op : BinaryOp) : ofName? op.name = some op := by
  cases op <;> decide

end BinaryOp

/-- The operators between two queries. -/
inductive SetOp where
  | union | unionAll | intersect | intersectAll | except | exceptAll | minus
  deriving DecidableEq, Repr, Hashable

namespace SetOp

def all : List SetOp :=
  [.union, .unionAll, .intersect, .intersectAll, .except, .exceptAll, .minus]

def name : SetOp → String
  | .union => "Union"
  | .unionAll => "UnionAll"
  | .intersect => "Intersect"
  | .intersectAll => "IntersectAll"
  | .except => "Except"
  | .exceptAll => "ExceptAll"
  | .minus => "Minus"

def text : SetOp → String
  | .union => "UNION"
  | .unionAll => "UNION ALL"
  | .intersect => "INTERSECT"
  | .intersectAll => "INTERSECT ALL"
  | .except => "EXCEPT"
  | .exceptAll => "EXCEPT ALL"
  | .minus => "MINUS"

def ofName? (name : String) : Option SetOp :=
  all.find? fun op => op.name == name

theorem ofName?_name (op : SetOp) : ofName? op.name = some op := by
  cases op <;> decide

end SetOp

/-- The ways to join two sources. -/
inductive JoinKind where
  | inner | left | right | full | cross
  deriving DecidableEq, Repr, Hashable

namespace JoinKind

def all : List JoinKind := [.inner, .left, .right, .full, .cross]

def name : JoinKind → String
  | .inner => "Inner"
  | .left => "Left"
  | .right => "Right"
  | .full => "Full"
  | .cross => "Cross"

def text : JoinKind → String
  | .inner => "INNER JOIN"
  | .left => "LEFT JOIN"
  | .right => "RIGHT JOIN"
  | .full => "FULL JOIN"
  | .cross => "CROSS JOIN"

def ofName? (name : String) : Option JoinKind :=
  all.find? fun kind => kind.name == name

theorem ofName?_name (kind : JoinKind) : ofName? kind.name = some kind := by
  cases kind <;> decide

end JoinKind

/-- What is done with equal rows of a query. -/
inductive RowOption where
  | all | distinct | unique
  deriving DecidableEq, Repr, Hashable

namespace RowOption

def every : List RowOption := [.all, .distinct, .unique]

def name : RowOption → String
  | .all => "All"
  | .distinct => "Distinct"
  | .unique => "Unique"

def text : RowOption → String
  | .all => "ALL"
  | .distinct => "DISTINCT"
  | .unique => "UNIQUE"

def ofName? (name : String) : Option RowOption :=
  every.find? fun option => option.name == name

theorem ofName?_name (option : RowOption) : ofName? option.name = some option := by
  cases option <;> decide

end RowOption

/-- The direction of a sort. -/
inductive SortOrder where
  | asc | desc
  deriving DecidableEq, Repr, Hashable

namespace SortOrder

def name : SortOrder → String
  | .asc => "Asc"
  | .desc => "Desc"

def text : SortOrder → String
  | .asc => "ASC"
  | .desc => "DESC"

def ofName? (name : String) : Option SortOrder :=
  [.asc, .desc].find? fun order => order.name == name

theorem ofName?_name (order : SortOrder) : ofName? order.name = some order := by
  cases order <;> decide

end SortOrder

/-- Where a sort puts nulls. -/
inductive NullsOrder where
  | first | last
  deriving DecidableEq, Repr, Hashable

namespace NullsOrder

def name : NullsOrder → String
  | .first => "First"
  | .last => "Last"

def text : NullsOrder → String
  | .first => "NULLS FIRST"
  | .last => "NULLS LAST"

def ofName? (name : String) : Option NullsOrder :=
  [.first, .last].find? fun order => order.name == name

theorem ofName?_name (order : NullsOrder) : ofName? order.name = some order := by
  cases order <;> decide

end NullsOrder

end SqlTree

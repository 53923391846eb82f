import SqlTree.Tree.Node

/-!
# Well-formed trees

The places of a node that hold expressions are slots, and each kind of slot wants certain nodes at
its root: a query, an operand of a set operator, a source of rows, and so on.  A tree is well
formed when every slot in it holds what it wants and every node by itself makes sense: lists that
cannot be empty are not, a join has a condition where it needs one, and so on.  Main statement
here: the slots of a node are all the places that hold a child (`Node.map_slots`).
-/

namespace SqlTree

/-- What is wanted in a place of a tree. -/
inductive Slot where
  /-- A whole statement. -/
  | statement
  /-- A query without parentheses around it. -/
  | query
  /-- What stands to the left of a set operator. -/
  | leftOperand
  /-- What stands to the right of a set operator. -/
  | rightOperand
  /-- A query in parentheses. -/
  | subquery
  /-- A source of rows. -/
  | source
  /-- The name of a table and nothing else. -/
  | tableName
  /-- An assignment. -/
  | assignment
  /-- What may stand behind `IS`. -/
  | truthOrNull
  /-- An expression with a value. -/
  | expression

section Slots

variable {ε : Type}

/-- Whether a slot wants a node, by what the node is at its root.  Sources of rows, queries without
parentheses and whole statements are no expressions; a query in parentheses is one, if it has no
alias. -/
def Slot.Admits : Slot → Node ε → Prop
  | .statement, .select _ aliasName _ => aliasName = none
  | .statement, .insert _ | .statement, .update _ | .statement, .delete _ => True
  | .query, .selectQuery _ | .query, .union _ _ _ _ _ => True
  | .leftOperand, .union withQueries _ _ _ _ => withQueries = []
  | .leftOperand, .selectQuery q | .rightOperand, .selectQuery q => q.withQueries = []
  | .leftOperand, .select _ aliasName _ | .rightOperand, .select _ aliasName _ => aliasName = none
  | .subquery, .select _ aliasName _ => aliasName = none
  | .source, .select _ _ _ | .source, .table _ | .source, .joinTable _ _ _ _ _ _
  | .source, .tableFunction _ _ _ | .source, .pivotTable _ _ _ _ _ _ => True
  | .tableName, .table table => table.link = none ∧ table.aliasName = none ∧ table.hints = []
  | .assignment, .binary _ op _ _ => op = .equal
  | .truthOrNull, .bool _ _ | .truthOrNull, .null _ => True
  | .expression, .select _ aliasName _ => aliasName = none
  | .expression, .selectQuery _ | .expression, .union _ _ _ _ _ | .expression, .table _
  | .expression, .joinTable _ _ _ _ _ _ | .expression, .tableFunction _ _ _
  | .expression, .pivotTable _ _ _ _ _ _ | .expression, .insert _ | .expression, .update _
  | .expression, .delete _ => False
  | .expression, _ => True
  | _, _ => False

def Slot.each (slot : Slot) (children : List ε) : List (Slot × ε) :=
  children.map (slot, ·)

def BinaryOp.rightSlot : BinaryOp → Slot
  | .is | .isNot => .truthOrNull
  | _ => .expression

/-! ## The slots of a node -/

def SelectQuery.slots (q : SelectQuery ε) : List (Slot × ε) :=
  Slot.query.each (q.withQueries.flatMap WithQuery.held) ++
    Slot.expression.each (q.hints.flatMap Hint.held) ++
    Slot.expression.each (q.top.toList.flatMap Top.held) ++
    Slot.expression.each (q.columns.flatMap SelectItem.held) ++
    Slot.tableName.each q.into.toList ++
    Slot.source.each q.source.toList ++
    Slot.expression.each q.condition.toList ++
    Slot.expression.each (q.groupBy.toList.flatMap GroupBy.held) ++
    Slot.expression.each (q.connectBy.toList.flatMap ConnectBy.held) ++
    Slot.expression.each (q.orderBy.toList.flatMap OrderBy.held) ++
    Slot.expression.each (q.limit.toList.flatMap Limit.held)

def Insert.slots (i : Insert ε) : List (Slot × ε) :=
  Slot.expression.each (i.hints.flatMap Hint.held) ++ Slot.tableName.each [i.table] ++
    Slot.expression.each i.rows.flatten ++ Slot.subquery.each i.query.toList

def Update.slots (u : Update ε) : List (Slot × ε) :=
  Slot.expression.each (u.hints.flatMap Hint.held) ++ Slot.source.each [u.table] ++
    Slot.assignment.each u.assignments ++ Slot.source.each u.source.toList ++
    Slot.expression.each u.condition.toList

def Delete.slots (d : Delete ε) : List (Slot × ε) :=
  Slot.expression.each (d.hints.flatMap Hint.held) ++ Slot.source.each [d.table] ++
    Slot.source.each d.source.toList ++ Slot.expression.each d.condition.toList

def Node.slots : Node ε → List (Slot × ε)
  | .select query _ _ => Slot.query.each [query]
  | .selectQuery query => query.slots
  | .union withQueries left right _ _ =>
    Slot.query.each (withQueries.flatMap WithQuery.held) ++ Slot.leftOperand.each [left] ++
      Slot.rightOperand.each [right]
  | .joinTable left right _ condition _ _ =>
    Slot.source.each [left, right] ++ Slot.expression.each condition.toList
  | .pivotTable source aggregate column values _ _ =>
    Slot.source.each [source] ++
      Slot.expression.each (aggregate.held ++ [column] ++ values.flatMap SelectItem.held)
  | .binary left op right _ => Slot.expression.each [left] ++ op.rightSlot.each [right]
  | .membership operand targets query _ _ =>
    Slot.expression.each ([operand] ++ targets) ++ Slot.subquery.each query.toList
  | .existence query _ => Slot.subquery.each [query]
  | .insert statement => statement.slots
  | .update statement => statement.slots
  | .delete statement => statement.slots
  | n => Slot.expression.each n.held

@[simp] theorem Slot.map_snd_each (slot : Slot) (children : List ε) :
    (slot.each children).map Prod.snd = children := by
  simp [Slot.each, Function.comp_def]

/-- Every child of a node stands in one slot of it. -/
theorem Node.map_slots (n : Node ε) : n.slots.map Prod.snd = n.held := by
  cases n with
  | selectQuery => simp [slots, held, SelectQuery.slots, SelectQuery.held]
  | insert => simp [slots, held, Insert.slots, Insert.held]
  | update => simp [slots, held, Update.slots, Update.held]
  | delete => simp [slots, held, Delete.slots, Delete.held]
  | _ => simp [slots, held]

/-! ## Nodes by themselves -/

/-- The lists in a window hold something. -/
structure Window.Sound (w : Window ε) : Prop where
  partitionBy : ∀ p ∈ w.partitionBy, p.items ≠ []
  orderBy : ∀ o ∈ w.orderBy, o.items ≠ []

/-- The lists behind the arguments of a call hold something. -/
structure Call.Sound (c : Call ε) : Prop where
  withinGroup : ∀ w ∈ c.withinGroup, w.orderBy.items ≠ []
  window : ∀ w ∈ c.window, w.Sound

/-- The lists of a `SELECT` block hold something, and a row limit says something. -/
structure SelectQuery.Sound (q : SelectQuery ε) : Prop where
  columns : q.columns ≠ []
  groupBy : ∀ g ∈ q.groupBy, g.items ≠ []
  orderBy : ∀ o ∈ q.orderBy, o.items ≠ []
  limit : ∀ l ∈ q.limit, l.offset.isSome ∨ l.rowCount.isSome

/-- An `INSERT` statement has either rows of values or a query. -/
def Insert.Sound (i : Insert ε) : Prop :=
  (i.rows ≠ [] ∧ (∀ row ∈ i.rows, row ≠ []) ∧ i.query = none) ∨ (i.rows = [] ∧ i.query.isSome)

/-- A node makes sense by itself, whatever its children are. -/
def Node.Sound : Node ε → Prop
  | .selectQuery query => query.Sound
  | .joinTable _ _ kind condition isComma _ =>
    (condition = none ↔ kind = .cross ∨ isComma = true) ∧ (isComma = true → kind = .inner)
  | .tableFunction function _ _ => function.Sound
  | .pivotTable _ aggregate _ _ _ _ => aggregate.Sound
  | .membership _ targets query _ _ =>
    (targets ≠ [] ∧ query = none) ∨ (targets = [] ∧ query.isSome)
  | .caseOf _ items _ _ => items ≠ []
  | .call function => function.Sound
  | .insert statement => statement.Sound
  | .update statement => statement.assignments ≠ []
  | _ => True

end Slots

/-! ## Trees -/

/-- A tree may stand in a slot: the slot wants its root, each node makes sense by itself, and the
same is true of the trees in all slots of its root. -/
inductive WellFormed : Slot → Expr → Prop where
  | node {slot : Slot} {n : Node Expr} (admits : slot.Admits n) (sound : n.Sound)
      (parts : ∀ part ∈ n.slots, WellFormed part.1 part.2) : WellFormed slot (.node n)

def Filled (parts : List (Slot × Expr)) : Prop :=
  ∀ part ∈ parts, WellFormed part.1 part.2

def AllIn (slot : Slot) (es : List Expr) : Prop :=
  ∀ e ∈ es, WellFormed slot e

section Parts

variable {slot : Slot} {e : Expr} {es fs : List Expr}

@[simp] theorem allIn_nil : AllIn slot [] :=
  List.forall_mem_nil _

@[simp] theorem allIn_cons : AllIn slot (e :: es) ↔ WellFormed slot e ∧ AllIn slot es :=
  List.forall_mem_cons

@[simp] theorem allIn_append : AllIn slot (es ++ fs) ↔ AllIn slot es ∧ AllIn slot fs :=
  List.forall_mem_append

@[simp] theorem allIn_toList {e? : Option Expr} :
    AllIn slot e?.toList ↔ ∀ e ∈ e?, WellFormed slot e := by
  simp [AllIn]

@[simp] theorem allIn_flatMap {α : Type} {held : α → List Expr} {clauses : List α} :
    AllIn slot (clauses.flatMap held) ↔ ∀ clause ∈ clauses, AllIn slot (held clause) :=
  List.forall_mem_flatMap

@[simp] theorem allIn_flatten {lists : List (List Expr)} :
    AllIn slot lists.flatten ↔ ∀ list ∈ lists, AllIn slot list := by
  rw [← List.flatMap_id, allIn_flatMap]
  rfl

@[simp] theorem filled_append {parts more : List (Slot × Expr)} :
    Filled (parts ++ more) ↔ Filled parts ∧ Filled more :=
  List.forall_mem_append

@[simp] theorem filled_each : Filled (slot.each es) ↔ AllIn slot es := by
  simp [Filled, Slot.each, AllIn]

end Parts

namespace WellFormed

variable {slot other : Slot} {n : Node Expr} {e : Expr}

theorem ofFilled (hadmits : slot.Admits n) (hsound : n.Sound) (hslots : Filled n.slots) :
    WellFormed slot (.node n) :=
  .node hadmits hsound hslots

/-- A tree may stand in every slot that wants its root. -/
theorem transfer (h : WellFormed slot e) (hadmits : other.Admits e.toNode) :
    WellFormed other e := by
  cases h with
  | node _ hsound hparts => exact .node hadmits hsound hparts

theorem admits_toNode (h : WellFormed slot e) : slot.Admits e.toNode := by
  cases h with
  | node hadmits _ _ => exact hadmits

theorem filled (h : WellFormed slot (.node n)) : Filled n.slots := by
  cases h with
  | node _ _ hparts => exact hparts

end WellFormed

end SqlTree

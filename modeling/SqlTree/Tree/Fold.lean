import SqlTree.Tree.Node

/-!
# Folding a tree

`Expr.fold` replaces every node of a tree by the value of an algebra, from the leaves up.  Nearly
all functions on trees are folds.  Main statements: a fold maps itself over the children of a node
(`Expr.fold_node`), and what holds of a node whenever it holds of all its children holds of every
tree (`Expr.induction`).
-/

namespace SqlTree

namespace Expr

mutual

/-- Replaces every node by the value that the algebra gives to it. -/
def fold {α : Type} (algebra : Node α → α) : Expr → α
  | .node n => algebra (Fold.node algebra n)

def Fold.node {α : Type} (algebra : Node α → α) : Node Expr → Node α
  | .select query aliasName tag => .select (fold algebra query) aliasName tag
  | .selectQuery query => .selectQuery (Fold.selectQuery algebra query)
  | .union withQueries left right op tag =>
    .union (Fold.withQueries algebra withQueries) (fold algebra left) (fold algebra right) op tag
  | .table source => .table (Fold.table algebra source)
  | .joinTable left right kind condition isComma tag =>
    .joinTable (fold algebra left) (fold algebra right) kind (Fold.option algebra condition)
      isComma tag
  | .tableFunction function aliasName tag =>
    .tableFunction (Fold.call algebra function) aliasName tag
  | .pivotTable source aggregate column values aliasName tag =>
    .pivotTable (fold algebra source) (Fold.call algebra aggregate) (fold algebra column)
      (Fold.selectItems algebra values) aliasName tag
  | .identifier name => .identifier name
  | .property schema owner name collate tag => .property schema owner name collate tag
  | .allColumns owner tag => .allColumns owner tag
  | .variable sigil name tag => .variable sigil name tag
  | .number value tag => .number value tag
  | .string value isNational tag => .string value isNational tag
  | .bool value tag => .bool value tag
  | .null tag => .null tag
  | .interval value unit tag => .interval (fold algebra value) unit tag
  | .array elements tag => .array (Fold.list algebra elements) tag
  | .binary left op right tag => .binary (fold algebra left) op (fold algebra right) tag
  | .not operand tag => .not (fold algebra operand) tag
  | .negate operand tag => .negate (fold algebra operand) tag
  | .between operand low high negated tag =>
    .between (fold algebra operand) (fold algebra low) (fold algebra high) negated tag
  | .membership operand targets query negated tag =>
    .membership (fold algebra operand) (Fold.list algebra targets) (Fold.option algebra query)
      negated tag
  | .existence query tag => .existence (fold algebra query) tag
  | .any query tag => .any (fold algebra query) tag
  | .all query tag => .all (fold algebra query) tag
  | .regex operand pattern ignoresCase negated tag =>
    .regex (fold algebra operand) (fold algebra pattern) ignoresCase negated tag
  | .caseOf operand items otherwise tag =>
    .caseOf (Fold.option algebra operand) (Fold.caseItems algebra items)
      (Fold.option algebra otherwise) tag
  | .call function => .call (Fold.call algebra function)
  | .atTimeZone operand zone tag => .atTimeZone (fold algebra operand) (fold algebra zone) tag
  | .arrayIndex base index tag => .arrayIndex (fold algebra base) (fold algebra index) tag
  | .arraySlice base lower upper tag =>
    .arraySlice (fold algebra base) (Fold.option algebra lower) (Fold.option algebra upper) tag
  | .insert statement => .insert (Fold.insert algebra statement)
  | .update statement => .update (Fold.update algebra statement)
  | .delete statement => .delete (Fold.delete algebra statement)

def Fold.selectQuery {α : Type} (algebra : Node α → α) :
    SelectQuery Expr → SelectQuery α
  | ⟨withQueries, hints, option, top, columns, into, source, condition, groupBy, connectBy,
    orderBy, limit, tag⟩ =>
    ⟨Fold.withQueries algebra withQueries, Fold.hints algebra hints, option,
    Fold.optionTop algebra top, Fold.selectItems algebra columns, Fold.option algebra into,
    Fold.option algebra source, Fold.option algebra condition, Fold.optionGroupBy algebra groupBy,
    Fold.optionConnectBy algebra connectBy, Fold.optionOrderBy algebra orderBy,
    Fold.optionLimit algebra limit, tag⟩

def Fold.withQueries {α : Type} (algebra : Node α → α) :
    List (WithQuery Expr) → List (WithQuery α)
  | [] => []
  | x :: xs => Fold.withQuery algebra x :: Fold.withQueries algebra xs

def Fold.withQuery {α : Type} (algebra : Node α → α) :
    WithQuery Expr → WithQuery α
  | ⟨name, columns, query, tag⟩ =>
    ⟨name, columns, fold algebra query, tag⟩

def Fold.hints {α : Type} (algebra : Node α → α) :
    List (Hint Expr) → List (Hint α)
  | [] => []
  | x :: xs => Fold.hint algebra x :: Fold.hints algebra xs

def Fold.hint {α : Type} (algebra : Node α → α) :
    Hint Expr → Hint α
  | ⟨body, tag⟩ =>
    ⟨fold algebra body, tag⟩

def Fold.optionTop {α : Type} (algebra : Node α → α) :
    Option (Top Expr) → Option (Top α)
  | none => none
  | some x => some (Fold.top algebra x)

def Fold.top {α : Type} (algebra : Node α → α) :
    Top Expr → Top α
  | ⟨count, percent, withTies, tag⟩ =>
    ⟨fold algebra count, percent, withTies, tag⟩

def Fold.selectItems {α : Type} (algebra : Node α → α) :
    List (SelectItem Expr) → List (SelectItem α)
  | [] => []
  | x :: xs => Fold.selectItem algebra x :: Fold.selectItems algebra xs

def Fold.selectItem {α : Type} (algebra : Node α → α) :
    SelectItem Expr → SelectItem α
  | ⟨body, aliasName, tag⟩ =>
    ⟨fold algebra body, aliasName, tag⟩

def Fold.option {α : Type} (algebra : Node α → α) :
    Option Expr → Option α
  | none => none
  | some x => some (fold algebra x)

def Fold.optionGroupBy {α : Type} (algebra : Node α → α) :
    Option (GroupBy Expr) → Option (GroupBy α)
  | none => none
  | some x => some (Fold.groupBy algebra x)

def Fold.groupBy {α : Type} (algebra : Node α → α) :
    GroupBy Expr → GroupBy α
  | ⟨items, having, tag⟩ =>
    ⟨Fold.list algebra items, Fold.option algebra having, tag⟩

def Fold.list {α : Type} (algebra : Node α → α) :
    List Expr → List α
  | [] => []
  | x :: xs => fold algebra x :: Fold.list algebra xs

def Fold.optionConnectBy {α : Type} (algebra : Node α → α) :
    Option (ConnectBy Expr) → Option (ConnectBy α)
  | none => none
  | some x => some (Fold.connectBy algebra x)

def Fold.connectBy {α : Type} (algebra : Node α → α) :
    ConnectBy Expr → ConnectBy α
  | ⟨startWith, condition, nocycle, prior, tag⟩ =>
    ⟨Fold.option algebra startWith, fold algebra condition, nocycle, prior, tag⟩

def Fold.optionOrderBy {α : Type} (algebra : Node α → α) :
    Option (OrderBy Expr) → Option (OrderBy α)
  | none => none
  | some x => some (Fold.orderBy algebra x)

def Fold.orderBy {α : Type} (algebra : Node α → α) :
    OrderBy Expr → OrderBy α
  | ⟨items, siblings, tag⟩ =>
    ⟨Fold.orderItems algebra items, siblings, tag⟩

def Fold.orderItems {α : Type} (algebra : Node α → α) :
    List (OrderItem Expr) → List (OrderItem α)
  | [] => []
  | x :: xs => Fold.orderItem algebra x :: Fold.orderItems algebra xs

def Fold.orderItem {α : Type} (algebra : Node α → α) :
    OrderItem Expr → OrderItem α
  | ⟨expr, order, nulls, tag⟩ =>
    ⟨fold algebra expr, order, nulls, tag⟩

def Fold.optionLimit {α : Type} (algebra : Node α → α) :
    Option (Limit Expr) → Option (Limit α)
  | none => none
  | some x => some (Fold.limit algebra x)

def Fold.limit {α : Type} (algebra : Node α → α) :
    Limit Expr → Limit α
  | ⟨offset, rowCount, tag⟩ =>
    ⟨Fold.option algebra offset, Fold.option algebra rowCount, tag⟩

def Fold.table {α : Type} (algebra : Node α → α) :
    Table Expr → Table α
  | ⟨database, schema, name, link, aliasName, hints, tag⟩ =>
    ⟨database, schema, name, link, aliasName, Fold.hints algebra hints, tag⟩

def Fold.call {α : Type} (algebra : Node α → α) :
    Call Expr → Call α
  | ⟨owner, name, distinct, arguments, withinGroup, window, tag⟩ =>
    ⟨owner, name, distinct, Fold.list algebra arguments,
    Fold.optionWithinGroup algebra withinGroup, Fold.optionWindow algebra window, tag⟩

def Fold.optionWithinGroup {α : Type} (algebra : Node α → α) :
    Option (WithinGroup Expr) → Option (WithinGroup α)
  | none => none
  | some x => some (Fold.withinGroup algebra x)

def Fold.withinGroup {α : Type} (algebra : Node α → α) :
    WithinGroup Expr → WithinGroup α
  | ⟨orderBy, tag⟩ =>
    ⟨Fold.orderBy algebra orderBy, tag⟩

def Fold.optionWindow {α : Type} (algebra : Node α → α) :
    Option (Window Expr) → Option (Window α)
  | none => none
  | some x => some (Fold.window algebra x)

def Fold.window {α : Type} (algebra : Node α → α) :
    Window Expr → Window α
  | ⟨partitionBy, orderBy, tag⟩ =>
    ⟨Fold.optionPartitionBy algebra partitionBy, Fold.optionOrderBy algebra orderBy, tag⟩

def Fold.optionPartitionBy {α : Type} (algebra : Node α → α) :
    Option (PartitionBy Expr) → Option (PartitionBy α)
  | none => none
  | some x => some (Fold.partitionBy algebra x)

def Fold.partitionBy {α : Type} (algebra : Node α → α) :
    PartitionBy Expr → PartitionBy α
  | ⟨items, tag⟩ =>
    ⟨Fold.list algebra items, tag⟩

def Fold.caseItems {α : Type} (algebra : Node α → α) :
    List (CaseItem Expr) → List (CaseItem α)
  | [] => []
  | x :: xs => Fold.caseItem algebra x :: Fold.caseItems algebra xs

def Fold.caseItem {α : Type} (algebra : Node α → α) :
    CaseItem Expr → CaseItem α
  | ⟨condition, result, tag⟩ =>
    ⟨fold algebra condition, fold algebra result, tag⟩

def Fold.insert {α : Type} (algebra : Node α → α) :
    Insert Expr → Insert α
  | ⟨hints, table, columns, rows, query, tag⟩ =>
    ⟨Fold.hints algebra hints, fold algebra table, columns, Fold.rows algebra rows,
    Fold.option algebra query, tag⟩

def Fold.rows {α : Type} (algebra : Node α → α) :
    List (List Expr) → List (List α)
  | [] => []
  | x :: xs => Fold.list algebra x :: Fold.rows algebra xs

def Fold.update {α : Type} (algebra : Node α → α) :
    Update Expr → Update α
  | ⟨hints, table, assignments, source, condition, tag⟩ =>
    ⟨Fold.hints algebra hints, fold algebra table, Fold.list algebra assignments,
    Fold.option algebra source, Fold.option algebra condition, tag⟩

def Fold.delete {α : Type} (algebra : Node α → α) :
    Delete Expr → Delete α
  | ⟨hints, table, source, condition, tag⟩ =>
    ⟨Fold.hints algebra hints, fold algebra table, Fold.option algebra source,
    Fold.option algebra condition, tag⟩

end

variable {α : Type} (algebra : Node α → α)

private theorem fold_withQuery (x : WithQuery Expr) :
    Fold.withQuery algebra x = x.map (fold algebra) := by
  cases x; simp [Fold.withQuery, WithQuery.map]

private theorem fold_withQueries (x : List (WithQuery Expr)) :
    Fold.withQueries algebra x = x.map (WithQuery.map (fold algebra)) := by
  induction x <;> simp_all [Fold.withQueries, fold_withQuery]

private theorem fold_hint (x : Hint Expr) :
    Fold.hint algebra x = x.map (fold algebra) := by
  cases x; simp [Fold.hint, Hint.map]

private theorem fold_hints (x : List (Hint Expr)) :
    Fold.hints algebra x = x.map (Hint.map (fold algebra)) := by
  induction x <;> simp_all [Fold.hints, fold_hint]

private theorem fold_top (x : Top Expr) :
    Fold.top algebra x = x.map (fold algebra) := by
  cases x; simp [Fold.top, Top.map]

private theorem fold_optionTop (x : Option (Top Expr)) :
    Fold.optionTop algebra x = x.map (Top.map (fold algebra)) := by
  cases x <;> simp [Fold.optionTop, fold_top]

private theorem fold_selectItem (x : SelectItem Expr) :
    Fold.selectItem algebra x = x.map (fold algebra) := by
  cases x; simp [Fold.selectItem, SelectItem.map]

private theorem fold_selectItems (x : List (SelectItem Expr)) :
    Fold.selectItems algebra x = x.map (SelectItem.map (fold algebra)) := by
  induction x <;> simp_all [Fold.selectItems, fold_selectItem]

private theorem fold_option (x : Option Expr) :
    Fold.option algebra x = x.map (fold algebra) := by
  cases x <;> simp [Fold.option]

private theorem fold_list (x : List Expr) :
    Fold.list algebra x = x.map (fold algebra) := by
  induction x <;> simp_all [Fold.list]

private theorem fold_groupBy (x : GroupBy Expr) :
    Fold.groupBy algebra x = x.map (fold algebra) := by
  cases x; simp [Fold.groupBy, GroupBy.map, fold_list, fold_option]

private theorem fold_optionGroupBy (x : Option (GroupBy Expr)) :
    Fold.optionGroupBy algebra x = x.map (GroupBy.map (fold algebra)) := by
  cases x <;> simp [Fold.optionGroupBy, fold_groupBy]

private theorem fold_connectBy (x : ConnectBy Expr) :
    Fold.connectBy algebra x = x.map (fold algebra) := by
  cases x; simp [Fold.connectBy, ConnectBy.map, fold_option]

private theorem fold_optionConnectBy (x : Option (ConnectBy Expr)) :
    Fold.optionConnectBy algebra x = x.map (ConnectBy.map (fold algebra)) := by
  cases x <;> simp [Fold.optionConnectBy, fold_connectBy]

private theorem fold_orderItem (x : OrderItem Expr) :
    Fold.orderItem algebra x = x.map (fold algebra) := by
  cases x; simp [Fold.orderItem, OrderItem.map]

private theorem fold_orderItems (x : List (OrderItem Expr)) :
    Fold.orderItems algebra x = x.map (OrderItem.map (fold algebra)) := by
  induction x <;> simp_all [Fold.orderItems, fold_orderItem]

private theorem fold_orderBy (x : OrderBy Expr) :
    Fold.orderBy algebra x = x.map (fold algebra) := by
  cases x; simp [Fold.orderBy, OrderBy.map, fold_orderItems]

private theorem fold_optionOrderBy (x : Option (OrderBy Expr)) :
    Fold.optionOrderBy algebra x = x.map (OrderBy.map (fold algebra)) := by
  cases x <;> simp [Fold.optionOrderBy, fold_orderBy]

private theorem fold_limit (x : Limit Expr) :
    Fold.limit algebra x = x.map (fold algebra) := by
  cases x; simp [Fold.limit, Limit.map, fold_option]

private theorem fold_optionLimit (x : Option (Limit Expr)) :
    Fold.optionLimit algebra x = x.map (Limit.map (fold algebra)) := by
  cases x <;> simp [Fold.optionLimit, fold_limit]

private theorem fold_selectQuery (x : SelectQuery Expr) :
    Fold.selectQuery algebra x = x.map (fold algebra) := by
  cases x; simp [Fold.selectQuery, SelectQuery.map, fold_withQueries, fold_hints, fold_optionTop,
    fold_selectItems, fold_option, fold_optionGroupBy, fold_optionConnectBy, fold_optionOrderBy,
    fold_optionLimit]

private theorem fold_table (x : Table Expr) :
    Fold.table algebra x = x.map (fold algebra) := by
  cases x; simp [Fold.table, Table.map, fold_hints]

private theorem fold_withinGroup (x : WithinGroup Expr) :
    Fold.withinGroup algebra x = x.map (fold algebra) := by
  cases x; simp [Fold.withinGroup, WithinGroup.map, fold_orderBy]

private theorem fold_optionWithinGroup (x : Option (WithinGroup Expr)) :
    Fold.optionWithinGroup algebra x = x.map (WithinGroup.map (fold algebra)) := by
  cases x <;> simp [Fold.optionWithinGroup, fold_withinGroup]

private theorem fold_partitionBy (x : PartitionBy Expr) :
    Fold.partitionBy algebra x = x.map (fold algebra) := by
  cases x; simp [Fold.partitionBy, PartitionBy.map, fold_list]

private theorem fold_optionPartitionBy (x : Option (PartitionBy Expr)) :
    Fold.optionPartitionBy algebra x = x.map (PartitionBy.map (fold algebra)) := by
  cases x <;> simp [Fold.optionPartitionBy, fold_partitionBy]

private theorem fold_window (x : Window Expr) :
    Fold.window algebra x = x.map (fold algebra) := by
  cases x; simp [Fold.window, Window.map, fold_optionPartitionBy, fold_optionOrderBy]

private theorem fold_optionWindow (x : Option (Window Expr)) :
    Fold.optionWindow algebra x = x.map (Window.map (fold algebra)) := by
  cases x <;> simp [Fold.optionWindow, fold_window]

private theorem fold_call (x : Call Expr) :
    Fold.call algebra x = x.map (fold algebra) := by
  cases x; simp [Fold.call, Call.map, fold_list, fold_optionWithinGroup, fold_optionWindow]

private theorem fold_caseItem (x : CaseItem Expr) :
    Fold.caseItem algebra x = x.map (fold algebra) := by
  cases x; simp [Fold.caseItem, CaseItem.map]

private theorem fold_caseItems (x : List (CaseItem Expr)) :
    Fold.caseItems algebra x = x.map (CaseItem.map (fold algebra)) := by
  induction x <;> simp_all [Fold.caseItems, fold_caseItem]

private theorem fold_rows (x : List (List Expr)) :
    Fold.rows algebra x = x.map (List.map (fold algebra)) := by
  induction x <;> simp_all [Fold.rows, fold_list]

private theorem fold_insert (x : Insert Expr) :
    Fold.insert algebra x = x.map (fold algebra) := by
  cases x; simp [Fold.insert, Insert.map, fold_hints, fold_rows, fold_option]

private theorem fold_update (x : Update Expr) :
    Fold.update algebra x = x.map (fold algebra) := by
  cases x; simp [Fold.update, Update.map, fold_hints, fold_list, fold_option]

private theorem fold_delete (x : Delete Expr) :
    Fold.delete algebra x = x.map (fold algebra) := by
  cases x; simp [Fold.delete, Delete.map, fold_hints, fold_option]

/-- Folding a node is folding its children and then applying the algebra. -/
theorem fold_node (n : Node Expr) :
    fold algebra (.node n) = algebra (n.map (fold algebra)) := by
  rw [fold]
  congr 1
  cases n <;> simp [Fold.node, Node.map, fold_selectQuery, fold_withQueries, fold_table,
    fold_option, fold_call, fold_selectItems, fold_list, fold_caseItems, fold_insert, fold_update,
    fold_delete]

/-- The number of nodes below the root on the longest way down. -/
def height : Expr → Nat :=
  fold fun n => n.held.foldr (fun h above => max (h + 1) above) 0

theorem height_node (n : Node Expr) :
    height (.node n) = (n.held.map height).foldr (fun h above => max (h + 1) above) 0 := by
  rw [height, fold_node, Node.held_map]

private theorem lt_foldr_max {h : Nat} {hs : List Nat} (mem : h ∈ hs) :
    h < hs.foldr (fun h above => max (h + 1) above) 0 := by
  induction hs with
  | nil => simp at mem
  | cons k hs ih =>
    rw [List.foldr_cons]
    rcases List.mem_cons.1 mem with rfl | mem
    · omega
    · have := ih mem
      omega

/-- A child is less high than its parent. -/
theorem height_lt_of_mem_held {c : Expr} {n : Node Expr} (mem : c ∈ n.held) :
    c.height < height (.node n) := by
  rw [height_node]
  exact lt_foldr_max (List.mem_map_of_mem mem)

/-- What holds of a node whenever it holds of all its children holds of every expression. -/
theorem induction {P : Expr → Prop} (step : ∀ n : Node Expr, (∀ c ∈ n.held, P c) → P (.node n))
    (e : Expr) : P e := by
  induction hk : e.height using Nat.strongRecOn generalizing e with
  | ind k ih =>
    obtain ⟨n⟩ := e
    exact step n fun c mem => ih c.height (hk ▸ height_lt_of_mem_held mem) c rfl

end Expr

end SqlTree

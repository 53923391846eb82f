import SqlTree.Tree.Name
import SqlTree.Tree.Operator

/-!
# Clauses

The clauses that nodes are made of, over a type of expressions that is left open.  For every clause
there are three operations: `map` changes the expressions it holds, `held` lists them in the order
of the fields, and `relabel` changes tags and texts and leaves the expressions alone.
-/

namespace SqlTree

/-- A change of the tags and of the texts of a tree. -/
structure Relabel where
  tag : Tag → Tag := id
  text : String → String := id

def Relabel.untag : Relabel := { tag := fun _ => {} }

def Relabel.stamp (tag : Tag) : Relabel := { tag := fun _ => tag }

def Relabel.blank : Relabel := { text := fun _ => "" }

def Collate.relabel (r : Relabel) (c : Collate) : Collate :=
  ⟨r.text c.name, r.tag c.tag⟩

def TimeUnit.relabel (r : Relabel) (u : TimeUnit) : TimeUnit :=
  ⟨r.text u.unit, r.tag u.tag⟩

def Identifier.relabel (r : Relabel) (i : Identifier) : Identifier :=
  ⟨r.text i.value, i.left.map r.text, i.right.map r.text, i.collate.map (Collate.relabel r),
    r.tag i.tag⟩

/-- One entry of a select list or of the values of a pivot. -/
structure SelectItem (ε : Type) where
  body : ε
  aliasName : Option Identifier
  tag : Tag := {}
  deriving BEq, Hashable

namespace SelectItem

variable {ε α : Type}

def map (f : ε → α) (s : SelectItem ε) : SelectItem α :=
  ⟨f s.body, s.aliasName, s.tag⟩

def held (s : SelectItem ε) : List ε :=
  [s.body]

def relabel (r : Relabel) (s : SelectItem ε) : SelectItem ε :=
  ⟨s.body, s.aliasName.map (Identifier.relabel r), r.tag s.tag⟩

@[simp] theorem held_map (f : ε → α) (s : SelectItem ε) : (s.map f).held = s.held.map f := by
  simp [held, map]

end SelectItem

/-- A named query that stands before a query: `name [(columns)] AS (query)`. -/
structure WithQuery (ε : Type) where
  name : Identifier
  columns : List Identifier
  query : ε
  tag : Tag := {}
  deriving BEq, Hashable

namespace WithQuery

variable {ε α : Type}

def map (f : ε → α) (w : WithQuery ε) : WithQuery α :=
  ⟨w.name, w.columns, f w.query, w.tag⟩

def held (w : WithQuery ε) : List ε :=
  [w.query]

def relabel (r : Relabel) (w : WithQuery ε) : WithQuery ε :=
  ⟨w.name.relabel r, w.columns.map (Identifier.relabel r), w.query, r.tag w.tag⟩

@[simp] theorem held_map (f : ε → α) (w : WithQuery ε) : (w.map f).held = w.held.map f := by
  simp [held, map]

end WithQuery

/-- A hint to the optimizer.  One written as a comment has a string as its body. -/
structure Hint (ε : Type) where
  body : ε
  tag : Tag := {}
  deriving BEq, Hashable

namespace Hint

variable {ε α : Type}

def map (f : ε → α) (h : Hint ε) : Hint α :=
  ⟨f h.body, h.tag⟩

def held (h : Hint ε) : List ε :=
  [h.body]

def relabel (r : Relabel) (h : Hint ε) : Hint ε :=
  ⟨h.body, r.tag h.tag⟩

@[simp] theorem held_map (f : ε → α) (h : Hint ε) : (h.map f).held = h.held.map f := by
  simp [held, map]

end Hint

/-- `TOP n [PERCENT] [WITH TIES]`. -/
structure Top (ε : Type) where
  count : ε
  percent : Bool
  withTies : Bool
  tag : Tag := {}
  deriving BEq, Hashable

namespace Top

variable {ε α : Type}

def map (f : ε → α) (t : Top ε) : Top α :=
  ⟨f t.count, t.percent, t.withTies, t.tag⟩

def held (t : Top ε) : List ε :=
  [t.count]

def relabel (r : Relabel) (t : Top ε) : Top ε :=
  ⟨t.count, t.percent, t.withTies, r.tag t.tag⟩

@[simp] theorem held_map (f : ε → α) (t : Top ε) : (t.map f).held = t.held.map f := by
  simp [held, map]

end Top

/-- One item of an `ORDER BY` list. -/
structure OrderItem (ε : Type) where
  expr : ε
  order : Option SortOrder
  nulls : Option NullsOrder
  tag : Tag := {}
  deriving BEq, Hashable

namespace OrderItem

variable {ε α : Type}

def map (f : ε → α) (o : OrderItem ε) : OrderItem α :=
  ⟨f o.expr, o.order, o.nulls, o.tag⟩

def held (o : OrderItem ε) : List ε :=
  [o.expr]

def relabel (r : Relabel) (o : OrderItem ε) : OrderItem ε :=
  ⟨o.expr, o.order, o.nulls, r.tag o.tag⟩

@[simp] theorem held_map (f : ε → α) (o : OrderItem ε) : (o.map f).held = o.held.map f := by
  simp [held, map]

end OrderItem

/-- `ORDER [SIBLINGS] BY items`. -/
structure OrderBy (ε : Type) where
  items : List (OrderItem ε)
  siblings : Bool
  tag : Tag := {}
  deriving BEq, Hashable

namespace OrderBy

variable {ε α : Type}

def map (f : ε → α) (o : OrderBy ε) : OrderBy α :=
  ⟨o.items.map (OrderItem.map f), o.siblings, o.tag⟩

def held (o : OrderBy ε) : List ε :=
  o.items.flatMap OrderItem.held

def relabel (r : Relabel) (o : OrderBy ε) : OrderBy ε :=
  ⟨o.items.map (OrderItem.relabel r), o.siblings, r.tag o.tag⟩

@[simp] theorem held_map (f : ε → α) (o : OrderBy ε) : (o.map f).held = o.held.map f := by
  simp [held, map, List.map_flatMap, List.flatMap_map]

end OrderBy

/-- `GROUP BY items [HAVING condition]`. -/
structure GroupBy (ε : Type) where
  items : List ε
  having : Option ε
  tag : Tag := {}
  deriving BEq, Hashable

namespace GroupBy

variable {ε α : Type}

def map (f : ε → α) (g : GroupBy ε) : GroupBy α :=
  ⟨g.items.map f, g.having.map f, g.tag⟩

def held (g : GroupBy ε) : List ε :=
  g.items ++ g.having.toList

def relabel (r : Relabel) (g : GroupBy ε) : GroupBy ε :=
  ⟨g.items, g.having, r.tag g.tag⟩

@[simp] theorem held_map (f : ε → α) (g : GroupBy ε) : (g.map f).held = g.held.map f := by
  simp [held, map, Option.toList_map]

end GroupBy

/-- `[START WITH condition] CONNECT BY [NOCYCLE] [PRIOR] condition`. -/
structure ConnectBy (ε : Type) where
  startWith : Option ε
  condition : ε
  nocycle : Bool
  prior : Bool
  tag : Tag := {}
  deriving BEq, Hashable

namespace ConnectBy

variable {ε α : Type}

def map (f : ε → α) (c : ConnectBy ε) : ConnectBy α :=
  ⟨c.startWith.map f, f c.condition, c.nocycle, c.prior, c.tag⟩

def held (c : ConnectBy ε) : List ε :=
  c.startWith.toList ++ [c.condition]

def relabel (r : Relabel) (c : ConnectBy ε) : ConnectBy ε :=
  ⟨c.startWith, c.condition, c.nocycle, c.prior, r.tag c.tag⟩

@[simp] theorem held_map (f : ε → α) (c : ConnectBy ε) : (c.map f).held = c.held.map f := by
  simp [held, map, Option.toList_map]

end ConnectBy

/-- How many rows are skipped and how many are wanted. -/
structure Limit (ε : Type) where
  offset : Option ε
  rowCount : Option ε
  tag : Tag := {}
  deriving BEq, Hashable

namespace Limit

variable {ε α : Type}

def map (f : ε → α) (l : Limit ε) : Limit α :=
  ⟨l.offset.map f, l.rowCount.map f, l.tag⟩

def held (l : Limit ε) : List ε :=
  l.offset.toList ++ l.rowCount.toList

def relabel (r : Relabel) (l : Limit ε) : Limit ε :=
  ⟨l.offset, l.rowCount, r.tag l.tag⟩

@[simp] theorem held_map (f : ε → α) (l : Limit ε) : (l.map f).held = l.held.map f := by
  simp [held, map, Option.toList_map]

end Limit

/-- `PARTITION BY items`. -/
structure PartitionBy (ε : Type) where
  items : List ε
  tag : Tag := {}
  deriving BEq, Hashable

namespace PartitionBy

variable {ε α : Type}

def map (f : ε → α) (p : PartitionBy ε) : PartitionBy α :=
  ⟨p.items.map f, p.tag⟩

def held (p : PartitionBy ε) : List ε :=
  p.items

def relabel (r : Relabel) (p : PartitionBy ε) : PartitionBy ε :=
  ⟨p.items, r.tag p.tag⟩

@[simp] theorem held_map (f : ε → α) (p : PartitionBy ε) : (p.map f).held = p.held.map f := by
  simp [held, map]

end PartitionBy

/-- `WITHIN GROUP (ORDER BY items)`. -/
structure WithinGroup (ε : Type) where
  orderBy : OrderBy ε
  tag : Tag := {}
  deriving BEq, Hashable

namespace WithinGroup

variable {ε α : Type}

def map (f : ε → α) (w : WithinGroup ε) : WithinGroup α :=
  ⟨w.orderBy.map f, w.tag⟩

def held (w : WithinGroup ε) : List ε :=
  w.orderBy.held

def relabel (r : Relabel) (w : WithinGroup ε) : WithinGroup ε :=
  ⟨w.orderBy.relabel r, r.tag w.tag⟩

@[simp] theorem held_map (f : ε → α) (w : WithinGroup ε) : (w.map f).held = w.held.map f := by
  simp [held, map]

end WithinGroup

/-- `OVER ([PARTITION BY items] [ORDER BY items])`. -/
structure Window (ε : Type) where
  partitionBy : Option (PartitionBy ε)
  orderBy : Option (OrderBy ε)
  tag : Tag := {}
  deriving BEq, Hashable

namespace Window

variable {ε α : Type}

def map (f : ε → α) (o : Window ε) : Window α :=
  ⟨o.partitionBy.map (PartitionBy.map f), o.orderBy.map (OrderBy.map f), o.tag⟩

def held (o : Window ε) : List ε :=
  o.partitionBy.toList.flatMap PartitionBy.held ++ o.orderBy.toList.flatMap OrderBy.held

def relabel (r : Relabel) (o : Window ε) : Window ε :=
  ⟨o.partitionBy.map (PartitionBy.relabel r), o.orderBy.map (OrderBy.relabel r), r.tag o.tag⟩

@[simp] theorem held_map (f : ε → α) (o : Window ε) : (o.map f).held = o.held.map f := by
  simp [held, map, List.map_flatMap, List.flatMap_map, Option.toList_map]

end Window

/-- `WHEN condition THEN result`. -/
structure CaseItem (ε : Type) where
  condition : ε
  result : ε
  tag : Tag := {}
  deriving BEq, Hashable

namespace CaseItem

variable {ε α : Type}

def map (f : ε → α) (c : CaseItem ε) : CaseItem α :=
  ⟨f c.condition, f c.result, c.tag⟩

def held (c : CaseItem ε) : List ε :=
  [c.condition] ++ [c.result]

def relabel (r : Relabel) (c : CaseItem ε) : CaseItem ε :=
  ⟨c.condition, c.result, r.tag c.tag⟩

@[simp] theorem held_map (f : ε → α) (c : CaseItem ε) : (c.map f).held = c.held.map f := by
  simp [held, map]

end CaseItem

/-- `[owner.]name([DISTINCT] arguments) [WITHIN GROUP (…)] [OVER (…)]`. -/
structure Call (ε : Type) where
  owner : List Identifier
  name : Identifier
  distinct : Bool
  arguments : List ε
  withinGroup : Option (WithinGroup ε)
  window : Option (Window ε)
  tag : Tag := {}
  deriving BEq, Hashable

namespace Call

variable {ε α : Type}

def map (f : ε → α) (c : Call ε) : Call α :=
  ⟨c.owner, c.name, c.distinct, c.arguments.map f, c.withinGroup.map (WithinGroup.map f),
    c.window.map (Window.map f), c.tag⟩

def held (c : Call ε) : List ε :=
  c.arguments ++ c.withinGroup.toList.flatMap WithinGroup.held ++
    c.window.toList.flatMap Window.held

def relabel (r : Relabel) (c : Call ε) : Call ε :=
  ⟨c.owner.map (Identifier.relabel r), c.name.relabel r, c.distinct, c.arguments,
    c.withinGroup.map (WithinGroup.relabel r), c.window.map (Window.relabel r), r.tag c.tag⟩

@[simp] theorem held_map (f : ε → α) (c : Call ε) : (c.map f).held = c.held.map f := by
  simp [held, map, List.map_flatMap, List.flatMap_map, Option.toList_map]

end Call

/-- One `SELECT` block. -/
structure SelectQuery (ε : Type) where
  withQueries : List (WithQuery ε)
  hints : List (Hint ε)
  option : Option RowOption
  top : Option (Top ε)
  columns : List (SelectItem ε)
  into : Option ε
  source : Option ε
  condition : Option ε
  groupBy : Option (GroupBy ε)
  connectBy : Option (ConnectBy ε)
  orderBy : Option (OrderBy ε)
  limit : Option (Limit ε)
  tag : Tag := {}
  deriving BEq, Hashable

namespace SelectQuery

variable {ε α : Type}

def map (f : ε → α) (s : SelectQuery ε) : SelectQuery α :=
  ⟨s.withQueries.map (WithQuery.map f), s.hints.map (Hint.map f), s.option, s.top.map (Top.map f),
    s.columns.map (SelectItem.map f), s.into.map f, s.source.map f, s.condition.map f,
    s.groupBy.map (GroupBy.map f), s.connectBy.map (ConnectBy.map f),
    s.orderBy.map (OrderBy.map f), s.limit.map (Limit.map f), s.tag⟩

def held (s : SelectQuery ε) : List ε :=
  s.withQueries.flatMap WithQuery.held ++ s.hints.flatMap Hint.held ++
    s.top.toList.flatMap Top.held ++ s.columns.flatMap SelectItem.held ++ s.into.toList ++
    s.source.toList ++ s.condition.toList ++ s.groupBy.toList.flatMap GroupBy.held ++
    s.connectBy.toList.flatMap ConnectBy.held ++ s.orderBy.toList.flatMap OrderBy.held ++
    s.limit.toList.flatMap Limit.held

def relabel (r : Relabel) (s : SelectQuery ε) : SelectQuery ε :=
  ⟨s.withQueries.map (WithQuery.relabel r), s.hints.map (Hint.relabel r), s.option,
    s.top.map (Top.relabel r), s.columns.map (SelectItem.relabel r), s.into, s.source,
    s.condition, s.groupBy.map (GroupBy.relabel r), s.connectBy.map (ConnectBy.relabel r),
    s.orderBy.map (OrderBy.relabel r), s.limit.map (Limit.relabel r), r.tag s.tag⟩

@[simp] theorem held_map (f : ε → α) (s : SelectQuery ε) : (s.map f).held = s.held.map f := by
  simp [held, map, List.map_flatMap, List.flatMap_map, Option.toList_map]

end SelectQuery

/-- A table: `[database.][schema.]name[@link] [AS alias] [WITH (hints)]`. -/
structure Table (ε : Type) where
  database : Option Identifier
  schema : Option Identifier
  name : Identifier
  link : Option Identifier
  aliasName : Option Identifier
  hints : List (Hint ε)
  tag : Tag := {}
  deriving BEq, Hashable

namespace Table

variable {ε α : Type}

def map (f : ε → α) (t : Table ε) : Table α :=
  ⟨t.database, t.schema, t.name, t.link, t.aliasName, t.hints.map (Hint.map f), t.tag⟩

def held (t : Table ε) : List ε :=
  t.hints.flatMap Hint.held

def relabel (r : Relabel) (t : Table ε) : Table ε :=
  ⟨t.database.map (Identifier.relabel r), t.schema.map (Identifier.relabel r), t.name.relabel r,
    t.link.map (Identifier.relabel r), t.aliasName.map (Identifier.relabel r),
    t.hints.map (Hint.relabel r), r.tag t.tag⟩

@[simp] theorem held_map (f : ε → α) (t : Table ε) : (t.map f).held = t.held.map f := by
  simp [held, map, List.map_flatMap, List.flatMap_map]

end Table

/-- `INSERT INTO table [(columns)]` with rows or with a query. -/
structure Insert (ε : Type) where
  hints : List (Hint ε)
  table : ε
  columns : List Identifier
  rows : List (List ε)
  query : Option ε
  tag : Tag := {}
  deriving BEq, Hashable

namespace Insert

variable {ε α : Type}

def map (f : ε → α) (i : Insert ε) : Insert α :=
  ⟨i.hints.map (Hint.map f), f i.table, i.columns, i.rows.map (List.map f), i.query.map f, i.tag⟩

def held (i : Insert ε) : List ε :=
  i.hints.flatMap Hint.held ++ [i.table] ++ i.rows.flatten ++ i.query.toList

def relabel (r : Relabel) (i : Insert ε) : Insert ε :=
  ⟨i.hints.map (Hint.relabel r), i.table, i.columns.map (Identifier.relabel r), i.rows, i.query,
    r.tag i.tag⟩

@[simp] theorem held_map (f : ε → α) (i : Insert ε) : (i.map f).held = i.held.map f := by
  simp [held, map, List.map_flatMap, List.flatMap_map, Option.toList_map, List.map_flatten]

end Insert

/-- `UPDATE table SET assignments [FROM source] [WHERE condition]`. -/
structure Update (ε : Type) where
  hints : List (Hint ε)
  table : ε
  assignments : List ε
  source : Option ε
  condition : Option ε
  tag : Tag := {}
  deriving BEq, Hashable

namespace Update

variable {ε α : Type}

def map (f : ε → α) (u : Update ε) : Update α :=
  ⟨u.hints.map (Hint.map f), f u.table, u.assignments.map f, u.source.map f, u.condition.map f,
    u.tag⟩

def held (u : Update ε) : List ε :=
  u.hints.flatMap Hint.held ++ [u.table] ++ u.assignments ++ u.source.toList ++ u.condition.toList

def relabel (r : Relabel) (u : Update ε) : Update ε :=
  ⟨u.hints.map (Hint.relabel r), u.table, u.assignments, u.source, u.condition, r.tag u.tag⟩

@[simp] theorem held_map (f : ε → α) (u : Update ε) : (u.map f).held = u.held.map f := by
  simp [held, map, List.map_flatMap, List.flatMap_map, Option.toList_map]

end Update

/-- `DELETE [FROM] table [FROM source] [WHERE condition]`. -/
structure Delete (ε : Type) where
  hints : List (Hint ε)
  table : ε
  source : Option ε
  condition : Option ε
  tag : Tag := {}
  deriving BEq, Hashable

namespace Delete

variable {ε α : Type}

def map (f : ε → α) (d : Delete ε) : Delete α :=
  ⟨d.hints.map (Hint.map f), f d.table, d.source.map f, d.condition.map f, d.tag⟩

def held (d : Delete ε) : List ε :=
  d.hints.flatMap Hint.held ++ [d.table] ++ d.source.toList ++ d.condition.toList

def relabel (r : Relabel) (d : Delete ε) : Delete ε :=
  ⟨d.hints.map (Hint.relabel r), d.table, d.source, d.condition, r.tag d.tag⟩

@[simp] theorem held_map (f : ε → α) (d : Delete ε) : (d.map f).held = d.held.map f := by
  simp [held, map, List.map_flatMap, List.flatMap_map, Option.toList_map]

end Delete

end SqlTree

import Mathlib.Data.List.NodupEquivFin
import SqlTree.Parsed
import SqlTree.Proofs.Numbering.Ancestry
import SqlTree.Proofs.WellFormed.Statement

/-!
# Nodes that share a place

A place in a parent table is a parent, a key and an index.  The children of a node stand at spots
of their own, since each field has its own key and each element of a list its own index; only the
rows of an `INSERT` statement put all values of a row at one spot
(`Node.exists_row_of_count_spot`).  So two nodes of a statement that is read have one place only
if they are values of one row (`Settings.places_of_statement`).
-/

namespace SqlTree

section Spots

variable {ε : Type}

def Child.spot (c : Child ε) : String × Option Nat :=
  (c.key, c.index)

/-- Children that stand under some keys, each of them at a spot of its own. -/
structure SpotsApart (keys : List String) (children : List (Child ε)) : Prop where
  nodup : (children.map Child.spot).Nodup
  key_mem : ∀ c ∈ children, c.key ∈ keys

namespace SpotsApart

variable {keys keys' : List String} {children children' : List (Child ε)}

theorem nil : SpotsApart [] ([] : List (Child ε)) :=
  ⟨List.nodup_nil, List.forall_mem_nil _⟩

/-- Fields with different keys stand beside each other. -/
theorem append (h : SpotsApart keys children) (h' : SpotsApart keys' children')
    (hkeys : ∀ key ∈ keys, key ∉ keys') :
    SpotsApart (keys ++ keys') (children ++ children') := by
  constructor
  · rw [List.map_append, List.nodup_append]
    refine ⟨h.nodup, h'.nodup, fun spot hspot spot' hspot' heq => ?_⟩
    obtain ⟨c, hc, rfl⟩ := List.mem_map.1 hspot
    obtain ⟨c', hc', rfl⟩ := List.mem_map.1 hspot'
    have hkey : c.key = c'.key := congrArg Prod.fst heq
    exact hkeys _ (h.key_mem c hc) (hkey ▸ h'.key_mem c' hc')
  · intro c hc
    rcases List.mem_append.1 hc with hc | hc
    · exact List.mem_append_left _ (h.key_mem c hc)
    · exact List.mem_append_right _ (h'.key_mem c hc)

theorem one (key : String) (e : ε) : SpotsApart [key] (Child.one key e) :=
  ⟨List.nodup_singleton _, fun _ hc => List.mem_singleton.2 (List.mem_singleton.1 hc ▸ rfl)⟩

/-- What a clause holds that may be missing. -/
theorem ofOption {α : Type} {field : α → List (Child ε)} (hfield : ∀ a, SpotsApart keys (field a))
    (clause : Option α) : SpotsApart keys (clause.toList.flatMap field) := by
  cases clause with
  | none => exact ⟨List.nodup_nil, List.forall_mem_nil _⟩
  | some a => simpa using hfield a

theorem optional (key : String) (e : Option ε) : SpotsApart [key] (Child.optional key e) :=
  ofOption (one key) e

theorem list (key : String) (es : List ε) : SpotsApart [key] (Child.list key es) := by
  constructor
  · rw [List.nodup_iff_pairwise_ne, List.pairwise_iff_getElem]
    intro i j hi hj hij heq
    simp only [Child.list, List.getElem_map, List.getElem_mapIdx, Child.spot, Prod.mk.injEq,
      Option.some.injEq] at heq
    omega
  · intro c hc
    obtain ⟨i, hi, rfl⟩ := List.mem_mapIdx.1 hc
    exact List.mem_singleton_self key

end SpotsApart

open SpotsApart

/-! ## Nodes whose children stand apart -/

theorem OrderBy.spotsApart (key : String) (o : OrderBy ε) : SpotsApart [key] (o.children key) :=
  .list key _

theorem Call.spotsApart (c : Call ε) :
    SpotsApart ["arguments", "within_group", "over.partition_by", "over.order_by"] c.children := by
  have hwindow : ∀ o : Window ε, SpotsApart ["over.partition_by", "over.order_by"]
      ((o.partitionBy.toList.flatMap fun p => Child.list "over.partition_by" p.items) ++
        o.orderBy.toList.flatMap (OrderBy.children "over.order_by")) :=
    fun o => (ofOption (fun p : PartitionBy ε => list _ p.items) o.partitionBy).append
      (ofOption (OrderBy.spotsApart "over.order_by") o.orderBy) (by decide)
  have hwithin :=
    ofOption (fun w : WithinGroup ε => w.orderBy.spotsApart "within_group") c.withinGroup
  exact ((list _ _).append hwithin (by decide)).append (ofOption hwindow c.window) (by decide)

theorem SelectQuery.spotsApart (q : SelectQuery ε) : ∃ keys, SpotsApart keys q.children := by
  have hconnect : ∀ c : ConnectBy ε, SpotsApart ["connect_by.start_with", "connect_by"]
      (Child.optional "connect_by.start_with" c.startWith ++ Child.one "connect_by" c.condition) :=
    fun c => (optional _ _).append (one _ _) (by decide)
  have hgroup : ∀ g : GroupBy ε, SpotsApart ["group_by", "group_by.having"]
      (Child.list "group_by" g.items ++ Child.optional "group_by.having" g.having) :=
    fun g => (list _ _).append (optional _ _) (by decide)
  have hlimit : ∀ l : Limit ε, SpotsApart ["limit.offset", "limit.row_count"]
      (Child.optional "limit.offset" l.offset ++ Child.optional "limit.row_count" l.rowCount) :=
    fun l => (optional _ _).append (optional _ _) (by decide)
  have hfront := (((list "with" (q.withQueries.map WithQuery.query)).append
    (list "hints" (q.hints.map Hint.body)) (by decide)).append
    (optional "top" (q.top.map Top.count)) (by decide)).append
    (list "columns" (q.columns.map SelectItem.body)) (by decide)
  have hsources := ((hfront.append (optional "into" q.into) (by decide)).append
    (optional "from" q.source) (by decide)).append (optional "where" q.condition) (by decide)
  have hgroups := (hsources.append (ofOption hconnect q.connectBy) (by decide)).append
    (ofOption hgroup q.groupBy) (by decide)
  exact ⟨_, (hgroups.append (ofOption (OrderBy.spotsApart "order_by") q.orderBy) (by decide)).append
    (ofOption hlimit q.limit) (by decide)⟩

/-- The conditions and the results of case branches take turns under two keys. -/
theorem CaseItem.spotsApart (items : List (CaseItem ε)) :
    SpotsApart ["when", "then"] (items.mapIdx fun i item => item.children i).flatten := by
  constructor
  · rw [List.map_flatten, List.nodup_flatten]
    constructor
    · intro spots hspots
      obtain ⟨_, hchildren, rfl⟩ := List.mem_map.1 hspots
      obtain ⟨i, hi, rfl⟩ := List.mem_mapIdx.1 hchildren
      simp [children, Child.spot]
    · rw [List.pairwise_iff_getElem]
      intro i j hi hj hij spot hspot hspot'
      simp only [List.getElem_map, List.getElem_mapIdx, children, List.map_cons, List.map_nil,
        List.mem_cons, List.not_mem_nil, or_false, Child.spot] at hspot hspot'
      rcases hspot with rfl | rfl <;> rcases hspot' with heq | heq <;>
        simp only [Prod.mk.injEq, Option.some.injEq] at heq <;> omega
  · intro c hc
    obtain ⟨_, hchildren, hc⟩ := List.mem_flatten.1 hc
    obtain ⟨i, hi, rfl⟩ := List.mem_mapIdx.1 hchildren
    rcases List.mem_cons.1 hc with rfl | hc
    · exact List.mem_cons_self
    · exact List.mem_cons_of_mem _ (List.mem_singleton.2 (List.mem_singleton.1 hc ▸ rfl))

/-- The children of every node but an `INSERT` statement stand apart. -/
theorem Node.spotsApart (n : Node ε) (hinsert : n.kind ≠ .insert) :
    ∃ keys, SpotsApart keys n.children := by
  cases n with
  | select query => exact ⟨_, one "query" query⟩
  | selectQuery query => exact query.spotsApart
  | union withQueries left right =>
      exact ⟨_, ((list "with" _).append (one "left" left) (by decide)).append (one "right" right)
        (by decide)⟩
  | table source => exact ⟨_, list "hints" _⟩
  | joinTable left right kind condition =>
      exact ⟨_, ((one "left" left).append (one "right" right) (by decide)).append
        (optional "on" condition) (by decide)⟩
  | tableFunction function => exact ⟨_, function.spotsApart⟩
  | pivotTable source aggregate column values =>
      exact ⟨_, (((one "source" source).append (list "aggregate" aggregate.arguments)
        (by decide)).append (one "pivot_column" column) (by decide)).append
        (list "pivot_values" (values.map SelectItem.body)) (by decide)⟩
  | interval value => exact ⟨_, one "value" value⟩
  | array elements => exact ⟨_, list "elements" elements⟩
  | binary left op right => exact ⟨_, (one "left" left).append (one "right" right) (by decide)⟩
  | not operand => exact ⟨_, one "expr" operand⟩
  | negate operand => exact ⟨_, one "expr" operand⟩
  | between operand low high =>
      exact ⟨_, ((one "expr" operand).append (one "low" low) (by decide)).append (one "high" high)
        (by decide)⟩
  | membership operand targets query =>
      exact ⟨_, ((one "expr" operand).append (list "targets" targets) (by decide)).append
        (optional "query" query) (by decide)⟩
  | existence query => exact ⟨_, one "query" query⟩
  | any query => exact ⟨_, one "query" query⟩
  | all query => exact ⟨_, one "query" query⟩
  | regex operand pattern =>
      exact ⟨_, (one "expr" operand).append (one "pattern" pattern) (by decide)⟩
  | caseOf operand items otherwise =>
      exact ⟨_, ((optional "operand" operand).append (CaseItem.spotsApart items) (by decide)).append
        (optional "else" otherwise) (by decide)⟩
  | call function => exact ⟨_, function.spotsApart⟩
  | atTimeZone operand zone =>
      exact ⟨_, (one "expr" operand).append (one "zone" zone) (by decide)⟩
  | arrayIndex base index =>
      exact ⟨_, (one "array" base).append (one "index" index) (by decide)⟩
  | arraySlice base lower upper =>
      exact ⟨_, ((one "array" base).append (optional "lower" lower) (by decide)).append
        (optional "upper" upper) (by decide)⟩
  | insert => exact absurd rfl hinsert
  | update statement =>
      exact ⟨_, ((((list "hints" _).append (one "table" statement.table) (by decide)).append
        (list "set" statement.assignments) (by decide)).append
        (optional "from" statement.source) (by decide)).append
        (optional "where" statement.condition) (by decide)⟩
  | delete statement =>
      exact ⟨_, (((list "hints" _).append (one "table" statement.table) (by decide)).append
        (optional "from" statement.source) (by decide)).append
        (optional "where" statement.condition) (by decide)⟩
  | _ => exact ⟨_, .nil⟩

/-! ## Rows of values -/

/-- The values of a row stand at one spot. -/
theorem rowChildren_spot (row : List ε) (i : Nat) :
    (rowChildren row i).map Child.spot = List.replicate row.length ("values", some i) := by
  simp only [rowChildren, List.map_map, Function.comp_def, Child.spot, List.map_const']

def rowsFrom (first : Nat) (rows : List (List ε)) : List (Child ε) :=
  (rows.mapIdx fun i row => rowChildren row (first + i)).flatten

theorem rowsFrom_cons (first : Nat) (row : List ε) (rows : List (List ε)) :
    rowsFrom first (row :: rows) = rowChildren row first ++ rowsFrom (first + 1) rows := by
  simp only [rowsFrom, List.mapIdx_cons, List.flatten_cons, Nat.add_zero, Nat.add_right_comm,
    Nat.add_assoc]

theorem exists_of_mem_rowsFrom {first : Nat} {rows : List (List ε)} {spot : String × Option Nat}
    (hspot : spot ∈ (rowsFrom first rows).map Child.spot) :
    ∃ i, first ≤ i ∧ spot = ("values", some i) := by
  obtain ⟨c, hc, rfl⟩ := List.mem_map.1 hspot
  obtain ⟨_, hrow, hc⟩ := List.mem_flatten.1 hc
  obtain ⟨i, hi, rfl⟩ := List.mem_mapIdx.1 hrow
  obtain ⟨e, -, rfl⟩ := List.mem_map.1 hc
  exact ⟨first + i, Nat.le_add_right _ _, rfl⟩

/-- As many values stand at the spot of a row as there are in it. -/
theorem count_rowsFrom (first r : Nat) (rows : List (List ε)) :
    ((rowsFrom first rows).map Child.spot).count ("values", some (first + r)) =
      rows[r]?.elim 0 List.length := by
  induction rows generalizing first r with
  | nil => rfl
  | cons row rows ih =>
      rw [rowsFrom_cons, List.map_append, List.count_append, rowChildren_spot, List.count_replicate]
      cases r with
      | zero =>
          have hlater : ("values", some first) ∉ (rowsFrom (first + 1) rows).map Child.spot := by
            intro hspot
            obtain ⟨i, hle, heq⟩ := exists_of_mem_rowsFrom hspot
            have hi : first = i := Option.some.inj (congrArg Prod.snd heq)
            omega
          rw [Nat.add_zero, List.count_eq_zero.2 hlater, if_pos BEq.rfl]
          rfl
      | succ r =>
          have hfirst : ("values", some first) ≠ ("values", some (first + (r + 1))) := by
            intro heq
            have hi : first = first + (r + 1) := Option.some.inj (congrArg Prod.snd heq)
            omega
          have hnext : first + (r + 1) = first + 1 + r := by omega
          rw [if_neg (beq_iff_eq.not.2 hfirst), Nat.zero_add, hnext, ih, List.getElem?_cons_succ]

namespace Insert

variable (s : Insert ε)

/-- The children of an `INSERT` statement beside its rows. -/
def besideRows : List (Child ε) :=
  Child.list "hints" (s.hints.map Hint.body) ++ Child.one "table" s.table ++
    Child.optional "query" s.query

theorem besideRows_apart : SpotsApart ["hints", "table", "query"] s.besideRows :=
  ((list "hints" _).append (one "table" s.table) (by decide)).append (optional "query" s.query)
    (by decide)

theorem count_spot_eq (spot : String × Option Nat) :
    ((Node.insert s).children.map Child.spot).count spot =
      (s.besideRows.map Child.spot).count spot +
        ((rowsFrom 0 s.rows).map Child.spot).count spot := by
  have hrows : rowsFrom 0 s.rows = (s.rows.mapIdx fun i row => rowChildren row i).flatten := by
    simp only [rowsFrom, Nat.zero_add]
  rw [hrows]
  simp only [Node.children, besideRows, List.map_append, List.count_append]
  omega

/-- All values of a row stand at one spot, and nothing else stands there. -/
theorem count_row (r : Nat) :
    ((Node.insert s).children.map Child.spot).count ("values", some r) =
      s.rows[r]?.elim 0 List.length := by
  have hbeside : ("values", some r) ∉ s.besideRows.map Child.spot := by
    intro hspot
    obtain ⟨c, hc, heq⟩ := List.mem_map.1 hspot
    have hkey : c.key = "values" := congrArg Prod.fst heq
    exact absurd (hkey ▸ s.besideRows_apart.key_mem c hc) (by decide)
  have hrows := count_rowsFrom 0 r s.rows
  rw [Nat.zero_add] at hrows
  rw [count_spot_eq, List.count_eq_zero.2 hbeside, Nat.zero_add, hrows]

end Insert

/-- Where more than one child of a node stands, there are values of a row. -/
theorem Node.exists_row_of_count_spot {n : Node ε} {spot : String × Option Nat}
    (hcount : 1 < (n.children.map Child.spot).count spot) :
    ∃ s r, n = .insert s ∧ spot = ("values", some r) := by
  by_cases hinsert : n.kind = .insert
  · obtain ⟨s, rfl⟩ : ∃ s, n = .insert s := by
      cases n with
      | insert s => exact ⟨s, rfl⟩
      | _ => cases hinsert
    have hbeside := List.nodup_iff_count_le_one.1 s.besideRows_apart.nodup spot
    rw [s.count_spot_eq] at hcount
    have hrows : 0 < ((rowsFrom 0 s.rows).map Child.spot).count spot := by omega
    obtain ⟨r, -, rfl⟩ := exists_of_mem_rowsFrom (List.count_pos_iff.1 hrows)
    exact ⟨s, r, rfl, rfl⟩
  · obtain ⟨keys, hapart⟩ := n.spotsApart hinsert
    have hle := List.nodup_iff_count_le_one.1 hapart.nodup spot
    omega

end Spots

/-! ## The places of a tree -/

/-- What stands at two positions of a list occurs more than once. -/
theorem one_lt_count {α : Type} [DecidableEq α] {xs : List α} {x : α} {i j : Nat} (hij : i ≠ j)
    (hi : xs[i]? = some x) (hj : xs[j]? = some x) : 1 < xs.count x := by
  obtain ⟨hilt, rfl⟩ := List.getElem?_eq_some_iff.1 hi
  obtain ⟨hjlt, hsame⟩ := List.getElem?_eq_some_iff.1 hj
  apply List.duplicate_iff_two_le_count.1
  rw [List.duplicate_iff_exists_distinct_get]
  rcases Nat.lt_or_gt_of_ne hij with hlt | hlt
  · exact ⟨⟨i, hilt⟩, ⟨j, hjlt⟩, hlt, rfl, hsame.symm⟩
  · exact ⟨⟨j, hjlt⟩, ⟨i, hilt⟩, hlt, hsame.symm, rfl⟩

namespace ParentTable

variable {e : Expr} {p : Station}

/-- The nodes of a walk that have a given parent are its children. -/
theorem filter_visit_perm (hp : p ∈ (Station.root e).visit) :
    ((Station.root e).visit.filter fun s => s.place.parent == some p.id).Perm p.children := by
  have hvisit : (Station.root e).visit.Nodup := by
    apply List.Nodup.of_map Station.id
    rw [visit_root_id]
    exact List.nodup_range
  have hchildren : p.children.Nodup :=
    p.children_pairwise_before.imp fun hbefore => ne_of_apply_ne _ hbefore.id_lt.ne
  rw [List.perm_ext_iff_of_nodup (hvisit.filter _) hchildren]
  intro s
  rw [List.mem_filter, beq_iff_eq]
  constructor
  · rintro ⟨hs, hparent⟩
    rcases Station.eq_or_mem_children_of_mem_visit s hs with rfl | ⟨q, hq, hsq⟩
    · cases hparent
    · have hid : q.id = p.id :=
        Option.some.inj ((Station.childOf_of_mem hsq).parent_eq.symm.trans hparent)
      exact eq_of_id_eq hq hp hid ▸ hsq
  · exact fun hs => ⟨Station.mem_visit_of_childOf hp hs, (Station.childOf_of_mem hs).parent_eq⟩

/-- As many nodes have a place as there are children at that spot of the parent. -/
theorem count_entries (hp : p ∈ (Station.root e).visit) (key : String) (index : Option Nat) :
    (ofExpr e).entries.toList.count ⟨some p.id, key, index⟩ =
      (p.expr.toNode.children.map Child.spot).count (key, index) := by
  have hplace : ∀ s : Station, (s.place == ⟨some p.id, key, index⟩) =
      ((s.toChild.spot == (key, index)) && (s.place.parent == some p.id)) := by
    rintro ⟨id, ⟨parent, key', index'⟩, way, expr⟩
    rw [Bool.eq_iff_iff]
    simp only [beq_iff_eq, Bool.and_eq_true, ParentInfo.mk.injEq, Station.toChild, Child.spot,
      Prod.mk.injEq]
    exact and_comm
  rw [entries_ofExpr, ← p.children_toChild, List.map_map, List.count, List.count, List.countP_map,
    List.countP_map]
  calc
    _ = (Station.root e).visit.countP fun s =>
          (s.toChild.spot == (key, index)) && (s.place.parent == some p.id) :=
        List.countP_congr fun s _ => by rw [Function.comp, hplace]
    _ = _ := by
        rw [← List.countP_filter]
        exact (filter_visit_perm hp).countP_eq _

theorem exists_station_of_get? {id : Nat} {place : ParentInfo}
    (hid : (ofExpr e).get? id = some place) :
    ∃ s ∈ (Station.root e).visit, s.id = id ∧ s.place = place := by
  have hlt : id < e.size := by
    by_contra hge
    rw [get?_eq_none (Nat.le_of_not_lt hge)] at hid
    cases hid
  obtain ⟨s, hs, rfl⟩ := exists_station hlt
  rw [get?_ofExpr hs] at hid
  exact ⟨s, hs, rfl, Option.some.inj hid⟩

/-- Two nodes of a tree that have one place are values of one row. -/
theorem exists_row_of_get?_eq {i j : Nat} {place : ParentInfo} (hij : i ≠ j)
    (hi : (ofExpr e).get? i = some place) (hj : (ofExpr e).get? j = some place) :
    ∃ p ∈ (Station.root e).visit, ∃ s r row, p.expr.toNode = .insert s ∧ s.rows[r]? = some row ∧
      1 < row.length ∧ place = ⟨some p.id, "values", some r⟩ := by
  obtain ⟨x, hx, rfl, rfl⟩ := exists_station_of_get? hi
  obtain ⟨y, hy, rfl, hplace⟩ := exists_station_of_get? hj
  have hcount : 1 < (ofExpr e).entries.toList.count x.place := by
    rw [get?, ← Array.getElem?_toList] at hi hj
    exact one_lt_count hij hi hj
  rcases Station.eq_or_mem_children_of_mem_visit x hx with rfl | ⟨p, hp, hxp⟩
  · rcases Station.eq_or_mem_children_of_mem_visit y hy with rfl | ⟨q, -, hyq⟩
    · exact absurd rfl hij
    · have hparent := (Station.childOf_of_mem hyq).parent_eq
      rw [hplace] at hparent
      cases hparent
  · have hparent := (Station.childOf_of_mem hxp).parent_eq
    obtain ⟨id, ⟨parent, key, index⟩, way, x⟩ := x
    cases (hparent : parent = some p.id)
    rw [count_entries hp] at hcount
    obtain ⟨s, r, hinsert, hspot⟩ := Node.exists_row_of_count_spot hcount
    rw [hinsert, hspot, s.count_row] at hcount
    cases hrow : s.rows[r]? with
    | none =>
        rw [hrow] at hcount
        cases hcount
    | some row =>
        rw [hrow] at hcount
        cases hspot
        exact ⟨p, hp, s, r, row, hinsert, hrow, hcount, rfl⟩

end ParentTable

/-! ## Statements -/

/-- No place inside a node wants a whole statement. -/
theorem Node.statement_not_mem_slots {ε : Type} (n : Node ε) :
    Slot.statement ∉ n.slots.map Prod.fst := by
  cases n with
  | binary left op right => cases op <;> simp [slots, Slot.each, BinaryOp.rightSlot]
  | _ => simp [slots, SelectQuery.slots, Insert.slots, Update.slots, Delete.slots, Slot.each]

theorem WellFormed.eq_statement_of_insert {slot : Slot} {e : Expr} {s : Insert Expr}
    (hformed : WellFormed slot e) (hinsert : e.toNode = .insert s) : slot = .statement := by
  have hadmits := hformed.admits_toNode
  rw [hinsert] at hadmits
  cases slot with
  | statement => rfl
  | _ => cases hadmits

theorem Expr.node_toNode (e : Expr) : .node e.toNode = e := by
  cases e
  rfl

/-- Each node of a well-formed tree may stand where it stands; below the root that is no place for a
statement. -/
theorem Station.wellFormed {e : Expr} (hformed : WellFormed .statement e) :
    ∀ t ∈ (root e).visit, ∃ slot, WellFormed slot t.expr ∧ (slot = .statement → t = root e) := by
  refine visit_induction ⟨_, hformed, fun _ => rfl⟩ fun p _ ⟨slot, hp, _⟩ c hc => ?_
  have hchild : c.expr ∈ p.expr.children := p.children_expr ▸ List.mem_map_of_mem hc
  have hheld : c.expr ∈ p.expr.toNode.held :=
    p.expr.toNode.held_perm_children.mem_iff.2 (List.mem_append_left _ hchild)
  rw [← Node.map_slots] at hheld
  obtain ⟨part, hpart, hexpr⟩ := List.mem_map.1 hheld
  refine ⟨part.1, ?_, fun hslot => ?_⟩
  · rw [← p.expr.node_toNode] at hp
    exact hexpr ▸ hp.filled part hpart
  · exact absurd (hslot ▸ List.mem_map_of_mem hpart) p.expr.toNode.statement_not_mem_slots

/-- In a statement the nodes have places of their own, but for the values in the rows of an `INSERT`
statement. -/
structure ParentTable.SharesRows (table : ParentTable) (e : Expr) : Prop where
  /-- Two nodes that have one place are values of one row, -/
  shared : ∀ i j place, i ≠ j → table.get? i = some place → table.get? j = some place →
    ∃ s r row, e = .node (.insert s) ∧ s.rows[r]? = some row ∧ 1 < row.length ∧
      place = ⟨some 0, "values", some r⟩
  /-- and all the values of a row have one place. -/
  row : ∀ s r row, e = .node (.insert s) → s.rows[r]? = some row →
    table.entries.toList.count ⟨some 0, "values", some r⟩ = row.length

/-- Two different nodes of a statement that is read have the same parent, key and index just when
they are values of one row. -/
theorem Settings.places_of_statement {settings : Settings} {c d : Cursor} {e : Expr}
    (hread : settings.statement c = .ok e d) : (ParentTable.ofExpr e).SharesRows e := by
  have hbelow : Level.FormsBelow (Level.atDepth settings c.depth) :=
    Level.gives_produce settings (settings.maxDepth - c.depth)
  have hformed := hbelow.statement c e d trivial hread
  constructor
  · intro i j place hij hi hj
    obtain ⟨p, hp, s, r, row, hinsert, hrow, hlength, rfl⟩ :=
      ParentTable.exists_row_of_get?_eq hij hi hj
    obtain ⟨slot, hslot, hroot⟩ := Station.wellFormed hformed p hp
    obtain rfl := hroot (hslot.eq_statement_of_insert hinsert)
    have hexpr : e = .node (.insert s) := hinsert ▸ e.node_toNode.symm
    exact ⟨s, r, row, hexpr, hrow, hlength, rfl⟩
  · rintro s r row rfl hrow
    have hcount := ParentTable.count_entries (Station.mem_visit_self (.root (.node (.insert s))))
      "values" (some r)
    rw [show (Station.root _).expr.toNode = .insert s from rfl, s.count_row, hrow] at hcount
    exact hcount

/-- The tokens of `INSERT INTO t VALUES (1, 2), (3)`. -/
def twoRows : List Token :=
  [.unplaced (.keyword .INSERT) "INSERT", .unplaced (.keyword .INTO) "INTO",
    .unplaced .identifier "t", .unplaced (.keyword .VALUES) "VALUES", .unplaced .lparen "(",
    .unplaced .number "1", .unplaced .comma ",", .unplaced .number "2", .unplaced .rparen ")",
    .unplaced .comma ",", .unplaced .lparen "(", .unplaced .number "3", .unplaced .rparen ")"]

theorem Settings.places_of_statement_twoRows :
    ∃ e d, Dialect.mySql.settings.statement (Cursor.start twoRows) = .ok e d ∧
      (ParentTable.ofExpr e).SharesRows e := by
  obtain ⟨e, d, hread⟩ : ∃ e d,
      Dialect.mySql.settings.statement (Cursor.start twoRows) = .ok e d := ⟨_, _, rfl⟩
  exact ⟨e, d, hread, Settings.places_of_statement hread⟩

/-- The values of the first row have one place. -/
theorem not_places_distinct_twoRows :
    ¬∀ (settings : Settings) (tokens : List Token) (e : Expr), settings.statementOf tokens = .ok e →
      ∀ i j place, i ≠ j → (ParentTable.ofExpr e).get? i = some place →
        (ParentTable.ofExpr e).get? j ≠ some place := by
  intro hall
  obtain ⟨e, hread, hfirst, hsecond⟩ : ∃ e,
      Dialect.mySql.settings.statementOf twoRows = .ok e ∧
        (ParentTable.ofExpr e).get? 2 = some ⟨some 0, "values", some 0⟩ ∧
        (ParentTable.ofExpr e).get? 3 = some ⟨some 0, "values", some 0⟩ := ⟨_, rfl, rfl, rfl⟩
  exact hall _ _ e hread 2 3 _ (by decide) hfirst hsecond

end SqlTree

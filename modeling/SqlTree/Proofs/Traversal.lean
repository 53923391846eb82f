import Mathlib.Data.List.Perm.Basic
import SqlTree.Tree.Walk

/-!
# What a walk finds

A walk goes to every expression that a node holds, but for those that a pivot's aggregate holds
behind its arguments: the sort of its group and its window.  So a walk finds every node of a tree
once, and nothing else, exactly when no pivot that it comes to has such an aggregate.
-/

namespace SqlTree

section Clauses

variable {ε : Type}

/-- The expressions that a call holds behind its arguments: in its group sort and in its window. -/
def Call.behindArguments (c : Call ε) : List ε :=
  c.withinGroup.toList.flatMap WithinGroup.held ++ c.window.toList.flatMap Window.held

/-- The expressions that a node holds and that a walk does not go to. -/
def Node.unwalked : Node ε → List ε
  | .pivotTable _ aggregate _ _ _ _ => aggregate.behindArguments
  | _ => []

namespace Child

@[simp] theorem map_expr_one (key : String) (e : ε) : (one key e).map expr = [e] :=
  rfl

@[simp] theorem map_expr_optional (key : String) (e : Option ε) :
    (optional key e).map expr = e.toList := by
  cases e <;> rfl

@[simp] theorem map_expr_list (key : String) (es : List ε) : (list key es).map expr = es := by
  apply List.ext_getElem <;> simp [list]

/-- The children in clauses that each have an index. -/
theorem map_expr_flatten_mapIdx {α : Type} (xs : List α) (g : Nat → α → List (Child ε))
    (held : α → List ε) (hheld : ∀ i x, (g i x).map expr = held x) :
    (xs.mapIdx g).flatten.map expr = xs.flatMap held := by
  have hparts : (xs.mapIdx g).map (List.map expr) = xs.map held := by
    apply List.ext_getElem <;> simp [hheld]
  rw [List.map_flatten, hparts, List.flatMap_def]

end Child

theorem WithQuery.flatMap_held (ws : List (WithQuery ε)) :
    ws.flatMap held = ws.map query :=
  List.map_eq_flatMap.symm

theorem Hint.flatMap_held (hints : List (Hint ε)) : hints.flatMap held = hints.map body :=
  List.map_eq_flatMap.symm

theorem SelectItem.flatMap_held (items : List (SelectItem ε)) :
    items.flatMap held = items.map body :=
  List.map_eq_flatMap.symm

theorem OrderBy.children_expr (key : String) (o : OrderBy ε) :
    (o.children key).map Child.expr = o.held := by
  rw [children, Child.map_expr_list, List.map_eq_flatMap]
  rfl

theorem Call.children_expr (c : Call ε) : c.children.map Child.expr = c.held := by
  have hwithin : ∀ w : WithinGroup ε,
      (w.orderBy.children "within_group").map Child.expr = w.held :=
    fun w => w.orderBy.children_expr _
  simp only [children, held, List.map_append, List.map_flatMap, Child.map_expr_list, hwithin,
    OrderBy.children_expr]
  rfl

theorem Call.held_eq (c : Call ε) : c.held = c.arguments ++ c.behindArguments :=
  List.append_assoc ..

/-- The hierarchy of a query comes before its grouping in a walk. -/
theorem SelectQuery.held_perm_children (q : SelectQuery ε) :
    q.held.Perm (q.children.map Child.expr) := by
  have hswap : ∀ xs ys zs : List ε, (xs ++ ys ++ zs).Perm (xs ++ zs ++ ys) := by
    intro xs ys zs
    rw [List.append_assoc, List.append_assoc]
    exact List.perm_append_comm.append_left xs
  have htop : (q.top.map Top.count).toList = q.top.toList.flatMap Top.held := by
    cases q.top <;> rfl
  simp only [children, List.map_append, List.map_flatMap, Child.map_expr_list,
    Child.map_expr_optional, Child.map_expr_one, OrderBy.children_expr, htop,
    ← WithQuery.flatMap_held, ← Hint.flatMap_held, ← SelectItem.flatMap_held]
  exact ((hswap _ _ _).append_right _).append_right _

/-- The children that a walk goes to, and the expressions that it does not go to, are all that a
node holds. -/
theorem Node.held_perm_children (n : Node ε) :
    n.held.Perm (n.children.map Child.expr ++ n.unwalked) := by
  cases n
  case selectQuery q =>
    have hnone : (selectQuery q).unwalked = [] := rfl
    rw [hnone, List.append_nil]
    exact q.held_perm_children
  case pivotTable source aggregate column values aliasName tag =>
    have hvalues : ∀ xs ys zs : List ε, (xs ++ ys ++ zs).Perm (xs ++ (zs ++ ys)) := by
      intro xs ys zs
      rw [List.append_assoc]
      exact List.perm_append_comm.append_left xs
    have hrest := hvalues aggregate.arguments aggregate.behindArguments
      (column :: values.map SelectItem.body)
    simp only [held, children, unwalked, List.map_append, Child.map_expr_one, Child.map_expr_list,
      SelectItem.flatMap_held, Call.held_eq, List.append_assoc, List.cons_append, List.nil_append]
      at hrest ⊢
    exact hrest.cons source
  case caseOf operand items otherwise tag =>
    have hitems := Child.map_expr_flatten_mapIdx items (fun i item => item.children i)
      CaseItem.held fun _ _ => rfl
    simp [held, children, unwalked, -List.map_flatten, hitems]
  case insert statement =>
    have hrows := Child.map_expr_flatten_mapIdx statement.rows (fun i row => rowChildren row i) id
      fun i row => by simp [rowChildren, Function.comp_def]
    simp [held, children, unwalked, -List.map_flatten, hrows, Insert.held, Hint.flatMap_held]
  all_goals
    simp [held, children, unwalked, Call.children_expr, Table.held, Update.held, Delete.held,
      WithQuery.flatMap_held, Hint.flatMap_held]

end Clauses

/-! ## Whole trees -/

namespace Expr

open scoped List

/-- All nodes of a tree, each before those that it holds. -/
def everyNode (e : Expr) : List Expr :=
  e :: e.held.attach.flatMap fun c => everyNode c.1
termination_by e.height
decreasing_by
  obtain ⟨n⟩ := e
  exact height_lt_of_mem_held c.2

theorem everyNode_eq (e : Expr) : e.everyNode = e :: e.held.flatMap everyNode := by
  rw [everyNode, List.flatMap_def, List.flatMap_def, List.attach_map_val]

theorem preorderOf_append (es es' : List Expr) :
    preorderOf (es ++ es') = preorderOf es ++ preorderOf es' := by
  induction es using preorderOf.induct with
  | case1 => simp [preorderOf]
  | case2 e stack ih =>
      rw [List.cons_append, preorderOf, preorderOf, ← List.append_assoc, ih, List.cons_append]

/-- A walk visits a node, and then walks through each of its children. -/
theorem preorder_eq (e : Expr) : e.preorder = e :: e.children.flatMap preorder := by
  have hstack : ∀ es : List Expr, preorderOf es = es.flatMap preorder := by
    intro es
    induction es with
    | nil => rw [preorderOf, List.flatMap_nil]
    | cons e es ih =>
        rw [← List.singleton_append, preorderOf_append, ih]
        rfl
  rw [preorder, preorderOf, List.append_nil, hstack]

/-- What a walk does not come to: everything in the parts of its nodes that it does not go to. -/
def missed (e : Expr) : List Expr :=
  e.preorder.flatMap fun x => x.toNode.unwalked.flatMap everyNode

theorem missed_eq (e : Expr) :
    e.missed = e.toNode.unwalked.flatMap everyNode ++ e.children.flatMap missed := by
  rw [missed, preorder_eq, List.flatMap_cons, List.flatMap_assoc]
  rfl

/-- All nodes of a tree are those that a walk visits and those that it does not come to. -/
theorem everyNode_perm (e : Expr) : e.everyNode.Perm (e.preorder ++ e.missed) := by
  induction e using Expr.induction with
  | step n ih =>
      have hheld : n.held.Perm ((node n).children ++ n.unwalked) := n.held_perm_children
      have hchildren : ((node n).children.flatMap everyNode).Perm
          ((node n).children.flatMap fun c => c.preorder ++ c.missed) :=
        List.Perm.flatMap_left _ fun c hc =>
          ih c (hheld.mem_iff.2 (List.mem_append_left _ hc))
      have hsplit := List.flatMap_append_perm (node n).children preorder missed
      rw [everyNode_eq, preorder_eq, missed_eq, List.cons_append]
      refine List.Perm.cons _ ?_
      calc n.held.flatMap everyNode
        _ ~ ((node n).children ++ n.unwalked).flatMap everyNode := hheld.flatMap_right _
        _ = (node n).children.flatMap everyNode ++ n.unwalked.flatMap everyNode := by
            rw [List.flatMap_append]
        _ ~ (node n).children.flatMap preorder ++ (node n).children.flatMap missed ++
              n.unwalked.flatMap everyNode := (hchildren.trans hsplit.symm).append_right _
        _ ~ (node n).children.flatMap preorder ++
              (n.unwalked.flatMap everyNode ++ (node n).children.flatMap missed) := by
            rw [List.append_assoc]
            exact List.perm_append_comm.append_left _

theorem missed_eq_nil_iff {e : Expr} :
    e.missed = [] ↔ ∀ x ∈ e.preorder, x.toNode.unwalked = [] := by
  rw [missed, List.flatMap_eq_nil_iff]
  refine forall₂_congr fun x _ => ?_
  rw [List.flatMap_eq_nil_iff]
  constructor
  · intro hnone
    rw [List.eq_nil_iff_forall_not_mem]
    intro c hc
    have hc' := hnone c hc
    rw [everyNode_eq] at hc'
    cases hc'
  · intro hnone c hc
    rw [hnone] at hc
    cases hc

/-- A walk visits every node exactly once unless it does not come to some of them. -/
theorem preorder_perm_iff_missed {e : Expr} : e.preorder.Perm e.everyNode ↔ e.missed = [] := by
  constructor
  · intro hperm
    have hlength := hperm.length_eq.trans e.everyNode_perm.length_eq
    rw [List.length_append] at hlength
    exact List.length_eq_zero_iff.1 (by omega)
  · intro hmissed
    have hperm := e.everyNode_perm
    rw [hmissed, List.append_nil] at hperm
    exact hperm.symm

/-- A walk visits every node of a tree exactly once if no pivot that it comes to has an aggregate
with something in its group sort or in its window, and only then. -/
theorem preorder_perm_everyNode_iff (e : Expr) :
    e.preorder.Perm e.everyNode ↔ ∀ x ∈ e.preorder, x.toNode.unwalked = [] := by
  rw [preorder_perm_iff_missed, missed_eq_nil_iff]

/-- The source `t PIVOT (SUM(x) OVER (ORDER BY @v) FOR c IN (1))`. -/
def windowedPivot : Expr :=
  let name := fun value : String => Expr.node (.identifier { value })
  let sort : OrderBy Expr := ⟨[⟨.node (.variable "@" "v" {}), none, none, {}⟩], false, {}⟩
  .node (.pivotTable (.node (.table ⟨none, none, { value := "t" }, none, none, [], {}⟩))
    ⟨[], { value := "SUM" }, false, [name "x"], none, some ⟨none, some sort, {}⟩, {}⟩ (name "c")
    [⟨.node (.number "1" {}), none, {}⟩] none {})

/-- The variable in the window of an aggregate is not visited. -/
theorem not_preorder_perm_everyNode_windowedPivot :
    ¬ windowedPivot.preorder.Perm windowedPivot.everyNode := by
  have hroot : windowedPivot ∈ windowedPivot.preorder := by
    rw [preorder_eq]
    exact List.mem_cons_self
  have hsome : windowedPivot.toNode.unwalked ≠ [] := nofun
  intro hperm
  exact hsome (missed_eq_nil_iff.1 (preorder_perm_iff_missed.1 hperm) _ hroot)

end Expr

end SqlTree

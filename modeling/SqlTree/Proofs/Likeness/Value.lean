import SqlTree.Grammar.Statement
import SqlTree.Tree.Distinct

/-!
# Values that are alike

Two readings of like tokens give like trees.  A `Likeness` says what that means: it fixes the
settings of the two readings, the tokens that count as alike, and how the trees of either reading
are relabelled before they are compared.  Here are the values that the rules of the grammar give,
and for each clause and each node that it is alike when its parts are.
-/

namespace SqlTree

class Relabels (α : Type) where
  relabelAll : Relabel → α → α

export Relabels (relabelAll)

section Instances

variable {α : Type}

instance [Relabels α] : Relabels (Option α) := ⟨fun r => Option.map (relabelAll r)⟩
instance [Relabels α] : Relabels (List α) := ⟨fun r => List.map (relabelAll r)⟩
instance : Relabels String := ⟨fun r text => r.text text⟩
instance : Relabels Tag := ⟨fun r tag => r.tag tag⟩
instance : Relabels Identifier := ⟨Identifier.relabel⟩
instance : Relabels Collate := ⟨Collate.relabel⟩
instance : Relabels TimeUnit := ⟨TimeUnit.relabel⟩
instance : Relabels Expr := ⟨Expr.relabel⟩
instance : Relabels (SelectItem Expr) := ⟨fun r x => (x.map (Expr.relabel r)).relabel r⟩
instance : Relabels (WithQuery Expr) := ⟨fun r x => (x.map (Expr.relabel r)).relabel r⟩
instance : Relabels (Hint Expr) := ⟨fun r x => (x.map (Expr.relabel r)).relabel r⟩
instance : Relabels (Top Expr) := ⟨fun r x => (x.map (Expr.relabel r)).relabel r⟩
instance : Relabels (OrderItem Expr) := ⟨fun r x => (x.map (Expr.relabel r)).relabel r⟩
instance : Relabels (OrderBy Expr) := ⟨fun r x => (x.map (Expr.relabel r)).relabel r⟩
instance : Relabels (GroupBy Expr) := ⟨fun r x => (x.map (Expr.relabel r)).relabel r⟩
instance : Relabels (ConnectBy Expr) := ⟨fun r x => (x.map (Expr.relabel r)).relabel r⟩
instance : Relabels (Limit Expr) := ⟨fun r x => (x.map (Expr.relabel r)).relabel r⟩
instance : Relabels (PartitionBy Expr) := ⟨fun r x => (x.map (Expr.relabel r)).relabel r⟩
instance : Relabels (WithinGroup Expr) := ⟨fun r x => (x.map (Expr.relabel r)).relabel r⟩
instance : Relabels (Window Expr) := ⟨fun r x => (x.map (Expr.relabel r)).relabel r⟩
instance : Relabels (CaseItem Expr) := ⟨fun r x => (x.map (Expr.relabel r)).relabel r⟩
instance : Relabels (Call Expr) := ⟨fun r x => (x.map (Expr.relabel r)).relabel r⟩
instance : Relabels (Table Expr) := ⟨fun r x => (x.map (Expr.relabel r)).relabel r⟩
instance : Relabels NamePath := ⟨fun r path => ⟨relabelAll r path.last, relabelAll r path.before⟩⟩
instance : Relabels RowRange :=
  ⟨fun r range => ⟨relabelAll r range.offset, relabelAll r range.rowCount⟩⟩

end Instances

/-- Two settings to read with, the tokens that count as alike in the two readings, and how the trees
of either reading are relabelled before they are compared. -/
structure Likeness where
  first : Settings
  second : Settings
  firstLabel : Relabel
  secondLabel : Relabel
  token : Token → Token → Prop
  /-- Which token may come right after which one in the first reading. -/
  follows : Token → Token → Prop
  /-- The errors with which both readings may fail, at like places. -/
  error : Error → Error → Prop
  /-- The errors with which one reading may fail, whatever becomes of the other one. -/
  parts : Error → Prop

namespace Likeness

variable {α : Type} {L : Likeness}

/-- Two values that are the same once they are relabelled. -/
def Like [Relabels α] (L : Likeness) (a b : α) : Prop :=
  relabelAll L.firstLabel a = relabelAll L.secondLabel b

theorem Like.refl [Relabels α] (hlabel : L.firstLabel = L.secondLabel) (a : α) : L.Like a a := by
  rw [Like, hlabel]

section Lists

variable [Relabels α]

theorem Like.nil : L.Like ([] : List α) [] :=
  rfl

theorem like_cons {a b : α} {as bs : List α} :
    L.Like (a :: as) (b :: bs) ↔ L.Like a b ∧ L.Like as bs := by
  simp [Like, relabelAll]

theorem Like.cons {a b : α} {as bs : List α} (hhead : L.Like a b) (htail : L.Like as bs) :
    L.Like (a :: as) (b :: bs) :=
  like_cons.2 ⟨hhead, htail⟩

theorem Like.append {as bs cs ds : List α} (hfront : L.Like as bs) (hback : L.Like cs ds) :
    L.Like (as ++ cs) (bs ++ ds) := by
  simp_all [Like, relabelAll]

theorem Like.reverse {as bs : List α} (hlist : L.Like as bs) :
    L.Like as.reverse bs.reverse := by
  simp_all [Like, relabelAll]

theorem Like.eq_nil {bs : List α} (hlist : L.Like [] bs) : bs = [] := by
  cases bs with
  | nil => rfl
  | cons b bs => cases hlist

theorem Like.isEmpty_eq {as bs : List α} (hlist : L.Like as bs) : as.isEmpty = bs.isEmpty := by
  cases as with
  | nil => rw [hlist.eq_nil]
  | cons a as => cases bs with
    | nil => cases hlist
    | cons b bs => rfl

theorem Like.exists_cons {a : α} {as bs : List α} (hlist : L.Like (a :: as) bs) :
    ∃ b bs', bs = b :: bs' ∧ L.Like a b ∧ L.Like as bs' := by
  cases bs with
  | nil => cases hlist
  | cons b bs => exact ⟨b, bs, rfl, like_cons.1 hlist⟩

/-- Like lists are the same if like values are. -/
theorem Like.eq_of_forall {as bs : List α} (hlist : L.Like as bs)
    (hvalue : ∀ {a b : α}, L.Like a b → a = b) : as = bs := by
  induction as generalizing bs with
  | nil => exact hlist.eq_nil.symm
  | cons a as ih =>
      obtain ⟨b, bs, rfl, hhead, htail⟩ := hlist.exists_cons
      rw [hvalue hhead, ih htail]

theorem Like.map {β : Type} [Relabels β] {f g : α → β} {as bs : List α} (hlist : L.Like as bs)
    (hmap : ∀ a b, L.Like a b → L.Like (f a) (g b)) : L.Like (as.map f) (bs.map g) := by
  induction as generalizing bs with
  | nil =>
      obtain rfl := hlist.eq_nil
      exact .nil
  | cons a as ih =>
      obtain ⟨b, bs, rfl, hhead, htail⟩ := hlist.exists_cons
      exact .cons (hmap a b hhead) (ih htail)

theorem Like.none : L.Like (none : Option α) none :=
  rfl

theorem Like.some {a b : α} (h : L.Like a b) : L.Like (some a) (some b) :=
  congrArg Option.some h

theorem like_some {a b : α} : L.Like (Option.some a) (Option.some b) ↔ L.Like a b := by
  simp [Like, relabelAll]

theorem Like.eq_none {y : Option α} (h : L.Like Option.none y) : y = Option.none := by
  cases y with
  | none => rfl
  | some b => cases h

theorem Like.exists_some {a : α} {y : Option α} (h : L.Like (Option.some a) y) :
    ∃ b, y = Option.some b ∧ L.Like a b := by
  cases y with
  | none => cases h
  | some b => exact ⟨b, rfl, like_some.1 h⟩

end Lists

/-! ## Names -/

section Names

theorem Like.name {text text' : String} {tag tag' : Tag}
    (htext : L.Like text text') (htag : L.Like tag tag') :
    L.Like ({ value := text, tag } : Identifier) { value := text', tag := tag' } := by
  simp_all [Like, relabelAll, Identifier.relabel]

theorem Like.value {name name' : Identifier} (hname : L.Like name name') :
    L.Like name.value name'.value :=
  congrArg Identifier.value hname

theorem Like.withValue {name name' : Identifier} {text text' : String}
    (hname : L.Like name name') (htext : L.Like text text') :
    L.Like { name with value := text } { name' with value := text' } := by
  simp_all [Like, relabelAll, Identifier.relabel]

theorem Like.collate {text text' : String} {tag tag' : Tag}
    (htext : L.Like text text') (htag : L.Like tag tag') :
    L.Like (Collate.mk text tag) ⟨text', tag'⟩ := by
  simp_all [Like, relabelAll, Collate.relabel]

theorem Like.timeUnit {text text' : String} {tag tag' : Tag}
    (htext : L.Like text text') (htag : L.Like tag tag') :
    L.Like (TimeUnit.mk text tag) ⟨text', tag'⟩ := by
  simp_all [Like, relabelAll, TimeUnit.relabel]

theorem like_path {last last' : Identifier} {before before' : List Identifier} :
    L.Like (NamePath.mk last before) ⟨last', before'⟩ ↔ L.Like last last' ∧
      L.Like before before' := by
  simp [Like, relabelAll]

theorem Like.push {path path' : NamePath} {name name' : Identifier}
    (hpath : L.Like path path') (hname : L.Like name name') :
    L.Like (path.push name) (path'.push name') :=
  have hparts := like_path.1 hpath
  like_path.2 ⟨hname, .cons hparts.1 hparts.2⟩

theorem Like.owner {path path' : NamePath} (hpath : L.Like path path') :
    L.Like path.owner path'.owner :=
  (like_path.1 hpath).2.reverse

theorem Like.parts {path path' : NamePath} (hpath : L.Like path path') :
    L.Like path.parts path'.parts :=
  hpath.owner.append (.cons (like_path.1 hpath).1 .nil)

theorem Like.texts {path path' : NamePath} (hpath : L.Like path path') :
    L.Like path.texts path'.texts :=
  hpath.parts.map fun _ _ => .value

/-- Like paths, by how many parts stand before the last one.  More than two are wanted nowhere. -/
inductive LikePaths (L : Likeness) : NamePath → NamePath → Prop where
  | alone {last last' : Identifier} (hlast : L.Like last last') : LikePaths L ⟨last, []⟩ ⟨last', []⟩
  | owned {last last' owner owner' : Identifier} (hlast : L.Like last last')
      (howner : L.Like owner owner') : LikePaths L ⟨last, [owner]⟩ ⟨last', [owner']⟩
  | ownedTwice {last last' owner owner' outer outer' : Identifier} (hlast : L.Like last last')
      (howner : L.Like owner owner') (houter : L.Like outer outer') :
      LikePaths L ⟨last, [owner, outer]⟩ ⟨last', [owner', outer']⟩
  | long {last last' a b c a' b' c' : Identifier} {outer outer' : List Identifier}
      (htexts : L.Like (NamePath.mk last (a :: b :: c :: outer)).texts
        (NamePath.mk last' (a' :: b' :: c' :: outer')).texts) :
      LikePaths L ⟨last, a :: b :: c :: outer⟩ ⟨last', a' :: b' :: c' :: outer'⟩

theorem Like.paths {path path' : NamePath} (hpath : L.Like path path') :
    L.LikePaths path path' := by
  obtain ⟨last, before⟩ := path
  obtain ⟨last', before'⟩ := path'
  obtain ⟨hlast, hbefore⟩ := like_path.1 hpath
  match before, hbefore with
  | [], hbefore =>
      obtain rfl := hbefore.eq_nil
      exact .alone hlast
  | [owner], hbefore =>
      obtain ⟨owner', _, rfl, howner, hnil⟩ := hbefore.exists_cons
      obtain rfl := hnil.eq_nil
      exact .owned hlast howner
  | [owner, outer], hbefore =>
      obtain ⟨owner', _, rfl, howner, hrest⟩ := hbefore.exists_cons
      obtain ⟨outer', _, rfl, houter, hnil⟩ := hrest.exists_cons
      obtain rfl := hnil.eq_nil
      exact .ownedTwice hlast howner houter
  | _ :: _ :: _ :: _, hbefore =>
      obtain ⟨_, _, rfl, _, hrest⟩ := hbefore.exists_cons
      obtain ⟨_, _, rfl, _, hrest⟩ := hrest.exists_cons
      obtain ⟨_, _, rfl, _, _⟩ := hrest.exists_cons
      exact .long hpath.texts

theorem like_rowRange {offset offset' rowCount rowCount' : Option Expr} :
    L.Like (RowRange.mk offset rowCount) ⟨offset', rowCount'⟩ ↔
      L.Like offset offset' ∧ L.Like rowCount rowCount' := by
  simp [Like, relabelAll]

end Names

/-! ## Clauses -/

section Clauses

theorem Like.selectItem {e e' : Expr} {name name' : Option Identifier} {tag tag' : Tag}
    (he : L.Like e e') (hname : L.Like name name') (htag : L.Like tag tag') :
    L.Like (SelectItem.mk e name tag) ⟨e', name', tag'⟩ := by
  simp_all [Like, relabelAll, SelectItem.map, SelectItem.relabel]

theorem Like.withQuery {name name' : Identifier} {columns columns' : List Identifier}
    {query query' : Expr} {tag tag' : Tag}
    (hname : L.Like name name') (hcolumns : L.Like columns columns') (hquery : L.Like query query')
    (htag : L.Like tag tag') :
    L.Like (WithQuery.mk name columns query tag) ⟨name', columns', query', tag'⟩ := by
  simp_all [Like, relabelAll, WithQuery.map, WithQuery.relabel]

theorem Like.hint {e e' : Expr} {tag tag' : Tag} (he : L.Like e e') (htag : L.Like tag tag') :
    L.Like (Hint.mk e tag) ⟨e', tag'⟩ := by
  simp_all [Like, relabelAll, Hint.map, Hint.relabel]

theorem Like.top {e e' : Expr} {percent withTies : Bool} {tag tag' : Tag}
    (he : L.Like e e') (htag : L.Like tag tag') :
    L.Like (Top.mk e percent withTies tag) ⟨e', percent, withTies, tag'⟩ := by
  simp_all [Like, relabelAll, Top.map, Top.relabel]

theorem Like.orderItem {e e' : Expr} {order : Option SortOrder} {nulls : Option NullsOrder}
    {tag tag' : Tag} (he : L.Like e e') (htag : L.Like tag tag') :
    L.Like (OrderItem.mk e order nulls tag) ⟨e', order, nulls, tag'⟩ := by
  simp_all [Like, relabelAll, OrderItem.map, OrderItem.relabel]

theorem Like.orderBy {items items' : List (OrderItem Expr)} {siblings : Bool} {tag tag' : Tag}
    (hitems : L.Like items items') (htag : L.Like tag tag') :
    L.Like (OrderBy.mk items siblings tag) ⟨items', siblings, tag'⟩ := by
  simp_all [Like, relabelAll, OrderBy.map, OrderBy.relabel, Function.comp_def]

theorem Like.groupBy {items items' : List Expr} {having having' : Option Expr} {tag tag' : Tag}
    (hitems : L.Like items items') (hhaving : L.Like having having') (htag : L.Like tag tag') :
    L.Like (GroupBy.mk items having tag) ⟨items', having', tag'⟩ := by
  simp_all [Like, relabelAll, GroupBy.map, GroupBy.relabel]

theorem Like.connectBy {start start' : Option Expr} {e e' : Expr} {nocycle prior : Bool}
    {tag tag' : Tag} (hstart : L.Like start start') (he : L.Like e e') (htag : L.Like tag tag') :
    L.Like (ConnectBy.mk start e nocycle prior tag) ⟨start', e', nocycle, prior, tag'⟩ := by
  simp_all [Like, relabelAll, ConnectBy.map, ConnectBy.relabel]

theorem Like.limit {offset offset' count count' : Option Expr} {tag tag' : Tag}
    (hoffset : L.Like offset offset') (hcount : L.Like count count') (htag : L.Like tag tag') :
    L.Like (Limit.mk offset count tag) ⟨offset', count', tag'⟩ := by
  simp_all [Like, relabelAll, Limit.map, Limit.relabel]

theorem Like.partitionBy {items items' : List Expr} {tag tag' : Tag}
    (hitems : L.Like items items') (htag : L.Like tag tag') :
    L.Like (PartitionBy.mk items tag) ⟨items', tag'⟩ := by
  simp_all [Like, relabelAll, PartitionBy.map, PartitionBy.relabel]

theorem Like.withinGroup {order order' : OrderBy Expr} {tag tag' : Tag}
    (horder : L.Like order order') (htag : L.Like tag tag') :
    L.Like (WithinGroup.mk order tag) ⟨order', tag'⟩ := by
  simp_all [Like, relabelAll, WithinGroup.map, WithinGroup.relabel]

theorem Like.window {partition partition' : Option (PartitionBy Expr)}
    {order order' : Option (OrderBy Expr)} {tag tag' : Tag}
    (hpartition : L.Like partition partition') (horder : L.Like order order')
    (htag : L.Like tag tag') :
    L.Like (Window.mk partition order tag) ⟨partition', order', tag'⟩ := by
  simp_all [Like, relabelAll, Window.map, Window.relabel, Function.comp_def]

theorem Like.caseItem {condition condition' result result' : Expr} {tag tag' : Tag}
    (hcondition : L.Like condition condition') (hresult : L.Like result result')
    (htag : L.Like tag tag') :
    L.Like (CaseItem.mk condition result tag) ⟨condition', result', tag'⟩ := by
  simp_all [Like, relabelAll, CaseItem.map, CaseItem.relabel]

theorem Like.call {owner owner' : List Identifier} {name name' : Identifier} {distinct : Bool}
    {arguments arguments' : List Expr} {within within' : Option (WithinGroup Expr)}
    {window window' : Option (Window Expr)} {tag tag' : Tag}
    (howner : L.Like owner owner') (hname : L.Like name name')
    (harguments : L.Like arguments arguments') (hwithin : L.Like within within')
    (hwindow : L.Like window window') (htag : L.Like tag tag') :
    L.Like (Call.mk owner name distinct arguments within window tag)
      ⟨owner', name', distinct, arguments', within', window', tag'⟩ := by
  simp_all [Like, relabelAll, Call.map, Call.relabel, Function.comp_def]

theorem Like.table {database database' schema schema' : Option Identifier} {name name' : Identifier}
    {link link' aliasName aliasName' : Option Identifier} {hints hints' : List (Hint Expr)}
    {tag tag' : Tag} (hdatabase : L.Like database database') (hschema : L.Like schema schema')
    (hname : L.Like name name') (hlink : L.Like link link') (halias : L.Like aliasName aliasName')
    (hhints : L.Like hints hints') (htag : L.Like tag tag') :
    L.Like (Table.mk database schema name link aliasName hints tag)
      ⟨database', schema', name', link', aliasName', hints', tag'⟩ := by
  simp_all [Like, relabelAll, Table.map, Table.relabel, Function.comp_def]

theorem Like.complete {table table' : Table Expr}
    {link link' aliasName aliasName' : Option Identifier}
    {hints hints' : List (Hint Expr)} (htable : L.Like table table') (hlink : L.Like link link')
    (halias : L.Like aliasName aliasName') (hhints : L.Like hints hints') :
    L.Like { table with link, aliasName, hints }
      { table' with link := link', aliasName := aliasName', hints := hints' } := by
  simp_all [Like, relabelAll, Table.map, Table.relabel, Function.comp_def]

end Clauses

/-! ## Nodes -/

section Nodes

variable {e e' left left' right right' : Expr} {tag tag' : Tag}

theorem Like.select {name name' : Option Identifier}
    (he : L.Like e e') (hname : L.Like name name') (htag : L.Like tag tag') :
    L.Like (Expr.node (.select e name tag)) (.node (.select e' name' tag')) := by
  simp_all [Like, relabelAll, Expr.relabel_node, Node.map, Node.relabel]

theorem Like.selectQuery {ws ws' : List (WithQuery Expr)} {hints hints' : List (Hint Expr)}
    {option : Option RowOption} {top top' : Option (Top Expr)}
    {columns columns' : List (SelectItem Expr)} {into into' source source' : Option Expr}
    {condition condition' : Option Expr} {groupBy groupBy' : Option (GroupBy Expr)}
    {connectBy connectBy' : Option (ConnectBy Expr)} {orderBy orderBy' : Option (OrderBy Expr)}
    {limit limit' : Option (Limit Expr)}
    (hws : L.Like ws ws') (hhints : L.Like hints hints') (htop : L.Like top top')
    (hcolumns : L.Like columns columns') (hinto : L.Like into into')
    (hsource : L.Like source source') (hcondition : L.Like condition condition')
    (hgroupBy : L.Like groupBy groupBy') (hconnectBy : L.Like connectBy connectBy')
    (horderBy : L.Like orderBy orderBy') (hlimit : L.Like limit limit')
    (htag : L.Like tag tag') :
    L.Like
      (Expr.node (.selectQuery ⟨ws, hints, option, top, columns, into, source, condition, groupBy,
        connectBy, orderBy, limit, tag⟩))
      (.node (.selectQuery ⟨ws', hints', option, top', columns', into', source', condition',
        groupBy', connectBy', orderBy', limit', tag'⟩)) := by
  simp_all [Like, relabelAll, Expr.relabel_node, Node.map, Node.relabel, SelectQuery.map,
    SelectQuery.relabel, Function.comp_def]

theorem Like.union {ws ws' : List (WithQuery Expr)} {op : SetOp}
    (hws : L.Like ws ws') (hleft : L.Like left left') (hright : L.Like right right')
    (htag : L.Like tag tag') :
    L.Like (Expr.node (.union ws left right op tag)) (.node (.union ws' left' right' op tag')) := by
  simp_all [Like, relabelAll, Expr.relabel_node, Node.map, Node.relabel, Function.comp_def]

theorem Like.tableNode {table table' : Table Expr} (htable : L.Like table table') :
    L.Like (Expr.node (.table table)) (.node (.table table')) := by
  simp_all [Like, relabelAll, Expr.relabel_node, Node.map, Node.relabel]

theorem Like.joinTable {kind : JoinKind} {condition condition' : Option Expr} {isComma : Bool}
    (hleft : L.Like left left') (hright : L.Like right right')
    (hcondition : L.Like condition condition') (htag : L.Like tag tag') :
    L.Like (Expr.node (.joinTable left right kind condition isComma tag))
      (.node (.joinTable left' right' kind condition' isComma tag')) := by
  simp_all [Like, relabelAll, Expr.relabel_node, Node.map, Node.relabel]

theorem Like.tableFunction {call call' : Call Expr} {name name' : Option Identifier}
    (hcall : L.Like call call') (hname : L.Like name name') (htag : L.Like tag tag') :
    L.Like (Expr.node (.tableFunction call name tag))
      (.node (.tableFunction call' name' tag')) := by
  simp_all [Like, relabelAll, Expr.relabel_node, Node.map, Node.relabel]

theorem Like.pivotTable {call call' : Call Expr} {values values' : List (SelectItem Expr)}
    {name name' : Option Identifier}
    (hleft : L.Like left left') (hcall : L.Like call call') (hright : L.Like right right')
    (hvalues : L.Like values values') (hname : L.Like name name') (htag : L.Like tag tag') :
    L.Like (Expr.node (.pivotTable left call right values name tag))
      (.node (.pivotTable left' call' right' values' name' tag')) := by
  simp_all [Like, relabelAll, Expr.relabel_node, Node.map, Node.relabel, Function.comp_def]

theorem Like.identifier {name name' : Identifier} (hname : L.Like name name') :
    L.Like (Expr.node (.identifier name)) (.node (.identifier name')) := by
  simp_all [Like, relabelAll, Expr.relabel_node, Node.map, Node.relabel]

theorem Like.property {schema schema' : Option Identifier} {owner owner' name name' : Identifier}
    {collate collate' : Option Collate}
    (hschema : L.Like schema schema') (howner : L.Like owner owner') (hname : L.Like name name')
    (hcollate : L.Like collate collate') (htag : L.Like tag tag') :
    L.Like (Expr.node (.property schema owner name collate tag))
      (.node (.property schema' owner' name' collate' tag')) := by
  simp_all [Like, relabelAll, Expr.relabel_node, Node.map, Node.relabel]

theorem Like.allColumns {owner owner' : List Identifier}
    (howner : L.Like owner owner') (htag : L.Like tag tag') :
    L.Like (Expr.node (.allColumns owner tag)) (.node (.allColumns owner' tag')) := by
  simp_all [Like, relabelAll, Expr.relabel_node, Node.map, Node.relabel]

theorem Like.variable {sigil sigil' name name' : String}
    (hsigil : L.Like sigil sigil') (hname : L.Like name name') (htag : L.Like tag tag') :
    L.Like (Expr.node (.variable sigil name tag)) (.node (.variable sigil' name' tag')) := by
  simp_all [Like, relabelAll, Expr.relabel_node, Node.map, Node.relabel]

theorem Like.number {text text' : String} (htext : L.Like text text') (htag : L.Like tag tag') :
    L.Like (Expr.node (.number text tag)) (.node (.number text' tag')) := by
  simp_all [Like, relabelAll, Expr.relabel_node, Node.map, Node.relabel]

theorem Like.string {text text' : String} {isNational : Bool}
    (htext : L.Like text text') (htag : L.Like tag tag') :
    L.Like (Expr.node (.string text isNational tag)) (.node (.string text' isNational tag')) := by
  simp_all [Like, relabelAll, Expr.relabel_node, Node.map, Node.relabel]

theorem Like.bool {value : Bool} (htag : L.Like tag tag') :
    L.Like (Expr.node (.bool value tag)) (.node (.bool value tag')) := by
  simp_all [Like, relabelAll, Expr.relabel_node, Node.map, Node.relabel]

theorem Like.null (htag : L.Like tag tag') :
    L.Like (Expr.node (.null tag)) (.node (.null tag')) := by
  simp_all [Like, relabelAll, Expr.relabel_node, Node.map, Node.relabel]

theorem Like.interval {unit unit' : Option TimeUnit}
    (he : L.Like e e') (hunit : L.Like unit unit') (htag : L.Like tag tag') :
    L.Like (Expr.node (.interval e unit tag)) (.node (.interval e' unit' tag')) := by
  simp_all [Like, relabelAll, Expr.relabel_node, Node.map, Node.relabel]

theorem Like.array {elements elements' : List Expr}
    (helements : L.Like elements elements') (htag : L.Like tag tag') :
    L.Like (Expr.node (.array elements tag)) (.node (.array elements' tag')) := by
  simp_all [Like, relabelAll, Expr.relabel_node, Node.map, Node.relabel]

theorem Like.binary {op : BinaryOp}
    (hleft : L.Like left left') (hright : L.Like right right') (htag : L.Like tag tag') :
    L.Like (Expr.node (.binary left op right tag)) (.node (.binary left' op right' tag')) := by
  simp_all [Like, relabelAll, Expr.relabel_node, Node.map, Node.relabel]

theorem Like.not (he : L.Like e e') (htag : L.Like tag tag') :
    L.Like (Expr.node (.not e tag)) (.node (.not e' tag')) := by
  simp_all [Like, relabelAll, Expr.relabel_node, Node.map, Node.relabel]

theorem Like.negate (he : L.Like e e') (htag : L.Like tag tag') :
    L.Like (Expr.node (.negate e tag)) (.node (.negate e' tag')) := by
  simp_all [Like, relabelAll, Expr.relabel_node, Node.map, Node.relabel]

theorem Like.between {negated : Bool}
    (he : L.Like e e') (hleft : L.Like left left') (hright : L.Like right right')
    (htag : L.Like tag tag') :
    L.Like (Expr.node (.between e left right negated tag))
      (.node (.between e' left' right' negated tag')) := by
  simp_all [Like, relabelAll, Expr.relabel_node, Node.map, Node.relabel]

theorem Like.membership {targets targets' : List Expr} {query query' : Option Expr} {negated : Bool}
    (he : L.Like e e') (htargets : L.Like targets targets') (hquery : L.Like query query')
    (htag : L.Like tag tag') :
    L.Like (Expr.node (.membership e targets query negated tag))
      (.node (.membership e' targets' query' negated tag')) := by
  simp_all [Like, relabelAll, Expr.relabel_node, Node.map, Node.relabel]

theorem Like.existence (he : L.Like e e') (htag : L.Like tag tag') :
    L.Like (Expr.node (.existence e tag)) (.node (.existence e' tag')) := by
  simp_all [Like, relabelAll, Expr.relabel_node, Node.map, Node.relabel]

theorem Like.any (he : L.Like e e') (htag : L.Like tag tag') :
    L.Like (Expr.node (.any e tag)) (.node (.any e' tag')) := by
  simp_all [Like, relabelAll, Expr.relabel_node, Node.map, Node.relabel]

theorem Like.all (he : L.Like e e') (htag : L.Like tag tag') :
    L.Like (Expr.node (.all e tag)) (.node (.all e' tag')) := by
  simp_all [Like, relabelAll, Expr.relabel_node, Node.map, Node.relabel]

theorem Like.regex {ignoresCase negated : Bool}
    (hleft : L.Like left left') (hright : L.Like right right') (htag : L.Like tag tag') :
    L.Like (Expr.node (.regex left right ignoresCase negated tag))
      (.node (.regex left' right' ignoresCase negated tag')) := by
  simp_all [Like, relabelAll, Expr.relabel_node, Node.map, Node.relabel]

theorem Like.caseOf {operand operand' otherwise otherwise' : Option Expr}
    {items items' : List (CaseItem Expr)}
    (hoperand : L.Like operand operand') (hitems : L.Like items items')
    (hotherwise : L.Like otherwise otherwise') (htag : L.Like tag tag') :
    L.Like (Expr.node (.caseOf operand items otherwise tag))
      (.node (.caseOf operand' items' otherwise' tag')) := by
  simp_all [Like, relabelAll, Expr.relabel_node, Node.map, Node.relabel, Function.comp_def]

theorem Like.callNode {call call' : Call Expr} (hcall : L.Like call call') :
    L.Like (Expr.node (.call call)) (.node (.call call')) := by
  simp_all [Like, relabelAll, Expr.relabel_node, Node.map, Node.relabel]

theorem Like.atTimeZone (hleft : L.Like left left') (hright : L.Like right right')
    (htag : L.Like tag tag') :
    L.Like (Expr.node (.atTimeZone left right tag)) (.node (.atTimeZone left' right' tag')) := by
  simp_all [Like, relabelAll, Expr.relabel_node, Node.map, Node.relabel]

theorem Like.arrayIndex (hleft : L.Like left left') (hright : L.Like right right')
    (htag : L.Like tag tag') :
    L.Like (Expr.node (.arrayIndex left right tag)) (.node (.arrayIndex left' right' tag')) := by
  simp_all [Like, relabelAll, Expr.relabel_node, Node.map, Node.relabel]

theorem Like.arraySlice {lower lower' upper upper' : Option Expr}
    (he : L.Like e e') (hlower : L.Like lower lower') (hupper : L.Like upper upper')
    (htag : L.Like tag tag') :
    L.Like (Expr.node (.arraySlice e lower upper tag))
      (.node (.arraySlice e' lower' upper' tag')) := by
  simp_all [Like, relabelAll, Expr.relabel_node, Node.map, Node.relabel]

theorem Like.insert {hints hints' : List (Hint Expr)} {columns columns' : List Identifier}
    {rows rows' : List (List Expr)} {query query' : Option Expr}
    (hhints : L.Like hints hints') (he : L.Like e e') (hcolumns : L.Like columns columns')
    (hrows : L.Like rows rows') (hquery : L.Like query query') (htag : L.Like tag tag') :
    L.Like (Expr.node (.insert ⟨hints, e, columns, rows, query, tag⟩))
      (.node (.insert ⟨hints', e', columns', rows', query', tag'⟩)) := by
  simp_all [Like, relabelAll, Expr.relabel_node, Node.map, Node.relabel, Insert.map, Insert.relabel,
    Function.comp_def]

theorem Like.update {hints hints' : List (Hint Expr)} {assignments assignments' : List Expr}
    {source source' condition condition' : Option Expr}
    (hhints : L.Like hints hints') (he : L.Like e e') (hset : L.Like assignments assignments')
    (hsource : L.Like source source') (hcondition : L.Like condition condition')
    (htag : L.Like tag tag') :
    L.Like (Expr.node (.update ⟨hints, e, assignments, source, condition, tag⟩))
      (.node (.update ⟨hints', e', assignments', source', condition', tag'⟩)) := by
  simp_all [Like, relabelAll, Expr.relabel_node, Node.map, Node.relabel, Update.map, Update.relabel,
    Function.comp_def]

theorem Like.delete {hints hints' : List (Hint Expr)}
    {source source' condition condition' : Option Expr}
    (hhints : L.Like hints hints') (he : L.Like e e') (hsource : L.Like source source')
    (hcondition : L.Like condition condition') (htag : L.Like tag tag') :
    L.Like (Expr.node (.delete ⟨hints, e, source, condition, tag⟩))
      (.node (.delete ⟨hints', e', source', condition', tag'⟩)) := by
  simp_all [Like, relabelAll, Expr.relabel_node, Node.map, Node.relabel, Delete.map, Delete.relabel,
    Function.comp_def]

end Nodes

end Likeness

end SqlTree

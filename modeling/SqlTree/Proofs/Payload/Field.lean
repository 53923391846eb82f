import Mathlib.Algebra.Order.Group.Multiset
import Mathlib.Data.Multiset.Bind
import Mathlib.Tactic.Abel
import SqlTree.Token.Basic
import SqlTree.Tree.Fold

/-!
# Texts that a tree keeps

The payload of a statement are its escaped names, strings, numbers and hints.  A tree has fields
for them: names, aliases, collations, variables, strings and numbers.  The payload is kept by some
fields if it can be dealt out to them such that no field gets more than one token, and that token
with its text.  A number may get a minus in front, and the parts of the name of a linked database
share one field that joins them with dots.
-/

namespace SqlTree

/-- Whether a token of the type brings a text into a statement that no keyword or plain word has. -/
def TokenType.isPayload : TokenType → Bool
  | .quotedIdentifier | .string | .nationalString | .number | .hint => true
  | _ => false

/-- The tokens of a list that bring such texts. -/
def payload (tokens : List Token) : Multiset Token :=
  tokens.filter fun token => token.type.isPayload

/-- A text of a tree that a token may be kept in. -/
inductive Field where
  /-- A text that is kept as it is. -/
  | text (value : String)
  /-- A number, which may have got a minus in front. -/
  | number (value : String)
  /-- The parts of a name with dots between them. -/
  | link (value : String)
  deriving DecidableEq

/-- A field has the texts of the tokens that it keeps. -/
def Field.Carries : Field → Multiset Token → Prop
  | .text value, tokens => tokens = 0 ∨ ∃ token, tokens = {token} ∧ value = token.text
  | .number value, tokens =>
    tokens = 0 ∨ ∃ token, tokens = {token} ∧ (value = token.text ∨ value = "-" ++ token.text)
  | .link value, tokens =>
    ∃ parts : List String, value = ".".intercalate parts ∧ tokens.map Token.text ≤ parts

/-- Whether a token with the text may be kept in the field, as far as that can be told from the
field alone. -/
def Field.hasText (text : String) : Field → Bool
  | .text value => value == text
  | .number value => value == text || value == "-" ++ text
  | .link _ => true

theorem Field.hasText_of_carries {field : Field} {tokens : Multiset Token} {token : Token}
    (hcarries : field.Carries tokens) (htoken : token ∈ tokens) :
    field.hasText token.text = true := by
  cases field with
  | text value =>
      obtain rfl | ⟨_, rfl, rfl⟩ := hcarries
      · exact absurd htoken (Multiset.notMem_zero _)
      · obtain rfl := Multiset.mem_singleton.1 htoken
        exact beq_self_eq_true _
  | number value =>
      obtain rfl | ⟨_, rfl, hvalue⟩ := hcarries
      · exact absurd htoken (Multiset.notMem_zero _)
      · obtain rfl := Multiset.mem_singleton.1 htoken
        simpa [Field.hasText] using hvalue
  | link value => rfl

/-- The tokens are dealt out to the fields: each field has its own share of them, which it
carries. -/
def Kept (fields : Multiset Field) (tokens : Multiset Token) : Prop :=
  ∃ shares : Multiset (Multiset Token), shares.join = tokens ∧ fields.Rel Field.Carries shares

namespace Kept

variable {fields more : Multiset Field} {tokens others : Multiset Token} {field : Field}

theorem zero : Kept 0 0 :=
  ⟨0, Multiset.join_zero, .zero⟩

theorem add (h : Kept fields tokens) (hmore : Kept more others) :
    Kept (fields + more) (tokens + others) := by
  obtain ⟨shares, rfl, hshares⟩ := h
  obtain ⟨shares', rfl, hshares'⟩ := hmore
  exact ⟨shares + shares', Multiset.join_add .., hshares.add hshares'⟩

/-- Each part of the fields keeps a part of the tokens. -/
theorem split (h : Kept (fields + more) tokens) :
    ∃ kept others, tokens = kept + others ∧ Kept fields kept ∧ Kept more others := by
  obtain ⟨shares, rfl, hshares⟩ := h
  obtain ⟨left, right, hleft, hright, rfl⟩ := Multiset.rel_add_left.1 hshares
  exact ⟨_, _, Multiset.join_add .., ⟨left, rfl, hleft⟩, ⟨right, rfl, hright⟩⟩

/-- One field keeps what it carries. -/
theorem single_iff : Kept {field} tokens ↔ field.Carries tokens := by
  constructor
  · rintro ⟨shares, rfl, hshares⟩
    obtain ⟨share, rest, hcarries, hrest, rfl⟩ := Multiset.rel_cons_left.1 hshares
    obtain rfl := Multiset.rel_zero_left.1 hrest
    simpa using hcarries
  · intro hcarries
    refine ⟨{tokens}, by simp, ?_⟩
    exact Multiset.rel_cons_left.2 ⟨tokens, 0, hcarries, .zero, rfl⟩

/-- Every token is in the share of some field, which has its text. -/
theorem exists_hasText (h : Kept fields tokens) {token : Token} (htoken : token ∈ tokens) :
    ∃ field ∈ fields, field.hasText token.text = true := by
  obtain ⟨shares, rfl, hshares⟩ := h
  obtain ⟨share, hshare, hmem⟩ := Multiset.mem_join.1 htoken
  obtain ⟨field, hfield, hcarries⟩ :=
    Multiset.exists_mem_of_rel_of_mem (Multiset.rel_flip.2 hshares) hshare
  exact ⟨field, hfield, Field.hasText_of_carries hcarries hmem⟩

end Kept

section Payload

variable {tokens more : List Token} {token : Token}

@[simp] theorem payload_nil : payload [] = 0 :=
  rfl

theorem mem_payload : token ∈ payload tokens ↔ token ∈ tokens ∧ token.type.isPayload = true := by
  simp [payload]

theorem payload_append : payload (tokens ++ more) = payload tokens + payload more := by
  simp [payload]

theorem payload_singleton (htype : token.type.isPayload = true) : payload [token] = {token} := by
  simp [payload, htype]

theorem payload_singleton_of_not (htype : token.type.isPayload = false) : payload [token] = 0 := by
  simp [payload, htype]

/-- A token that is no payload needs no field. -/
theorem kept_plain (htype : token.type.isPayload = false) : Kept 0 (payload [token]) := by
  rw [payload_singleton_of_not htype]
  exact .zero

/-- One token, whatever it is, is kept in a field that can carry it and can do without it. -/
theorem kept_single {field : Field} (hnone : field.Carries 0) (htoken : field.Carries {token}) :
    Kept {field} (payload [token]) := by
  cases htype : token.type.isPayload with
  | true => exact payload_singleton htype ▸ Kept.single_iff.2 htoken
  | false => exact payload_singleton_of_not htype ▸ Kept.single_iff.2 hnone

theorem kept_text (token : Token) : Kept {.text token.text} (payload [token]) :=
  kept_single (.inl rfl) (.inr ⟨token, rfl, rfl⟩)

theorem kept_number (token : Token) : Kept {.number token.text} (payload [token]) :=
  kept_single (.inl rfl) (.inr ⟨token, rfl, .inl rfl⟩)

theorem kept_negated (token : Token) : Kept {.number ("-" ++ token.text)} (payload [token]) :=
  kept_single (.inl rfl) (.inr ⟨token, rfl, .inr rfl⟩)

end Payload

/-! ## The fields of a tree -/

def each {α : Type} (fields : α → Multiset Field) (as : List α) : Multiset Field :=
  (as.map fields).sum

/-- Fields of something that need not be there. -/
def ifAny {α : Type} (fields : α → Multiset Field) (a? : Option α) : Multiset Field :=
  a?.elim 0 fields

section Sums

variable {α β : Type} {fields : α → Multiset Field} {a : α} {as bs : List α}

@[simp] theorem each_nil : each fields [] = 0 :=
  rfl

@[simp] theorem each_cons : each fields (a :: as) = fields a + each fields as := by
  simp [each]

@[simp] theorem each_append : each fields (as ++ bs) = each fields as + each fields bs := by
  simp [each]

@[simp] theorem each_reverse : each fields as.reverse = each fields as := by
  induction as with
  | nil => rfl
  | cons a as ih => simp [ih, add_comm]

@[simp] theorem each_map {f : β → α} {bs : List β} :
    each fields (bs.map f) = each (fun b => fields (f b)) bs := by
  simp [each, Function.comp_def]

@[simp] theorem ifAny_none : ifAny fields none = 0 :=
  rfl

@[simp] theorem ifAny_some : ifAny fields (some a) = fields a :=
  rfl

@[simp] theorem ifAny_map {f : β → α} {b? : Option β} :
    ifAny fields (b?.map f) = ifAny (fun b => fields (f b)) b? := by
  cases b? <;> rfl

end Sums

def Collate.fields (c : Collate) : Multiset Field :=
  {.text c.name}

def Identifier.fields (i : Identifier) : Multiset Field :=
  {.text i.value} + ifAny Collate.fields i.collate

/-- The fields of the name of a linked database. -/
def Identifier.linkFields (i : Identifier) : Multiset Field :=
  {.link i.value} + ifAny Collate.fields i.collate

section Clauses

variable {ε : Type} (f : ε → Multiset Field)

def SelectItem.fields (s : SelectItem ε) : Multiset Field :=
  f s.body + ifAny Identifier.fields s.aliasName

def WithQuery.fields (w : WithQuery ε) : Multiset Field :=
  w.name.fields + each Identifier.fields w.columns + f w.query

def Hint.fields (h : Hint ε) : Multiset Field :=
  f h.body

def Top.fields (t : Top ε) : Multiset Field :=
  f t.count

def OrderItem.fields (o : OrderItem ε) : Multiset Field :=
  f o.expr

def OrderBy.fields (o : OrderBy ε) : Multiset Field :=
  each (OrderItem.fields f) o.items

def GroupBy.fields (g : GroupBy ε) : Multiset Field :=
  each f g.items + ifAny f g.having

def ConnectBy.fields (c : ConnectBy ε) : Multiset Field :=
  ifAny f c.startWith + f c.condition

def Limit.fields (l : Limit ε) : Multiset Field :=
  ifAny f l.offset + ifAny f l.rowCount

def PartitionBy.fields (p : PartitionBy ε) : Multiset Field :=
  each f p.items

def WithinGroup.fields (w : WithinGroup ε) : Multiset Field :=
  w.orderBy.fields f

def Window.fields (w : Window ε) : Multiset Field :=
  ifAny (PartitionBy.fields f) w.partitionBy + ifAny (OrderBy.fields f) w.orderBy

def CaseItem.fields (c : CaseItem ε) : Multiset Field :=
  f c.condition + f c.result

def Call.fields (c : Call ε) : Multiset Field :=
  each Identifier.fields c.owner + c.name.fields + each f c.arguments +
    ifAny (WithinGroup.fields f) c.withinGroup + ifAny (Window.fields f) c.window

def SelectQuery.fields (q : SelectQuery ε) : Multiset Field :=
  each (WithQuery.fields f) q.withQueries + each (Hint.fields f) q.hints +
    ifAny (Top.fields f) q.top + each (SelectItem.fields f) q.columns + ifAny f q.into +
    ifAny f q.source + ifAny f q.condition + ifAny (GroupBy.fields f) q.groupBy +
    ifAny (ConnectBy.fields f) q.connectBy + ifAny (OrderBy.fields f) q.orderBy +
    ifAny (Limit.fields f) q.limit

def Table.fields (t : Table ε) : Multiset Field :=
  ifAny Identifier.fields t.database + ifAny Identifier.fields t.schema + t.name.fields +
    ifAny Identifier.linkFields t.link + ifAny Identifier.fields t.aliasName +
    each (Hint.fields f) t.hints

def Insert.fields (i : Insert ε) : Multiset Field :=
  each (Hint.fields f) i.hints + f i.table + each Identifier.fields i.columns +
    each (each f) i.rows + ifAny f i.query

def Update.fields (u : Update ε) : Multiset Field :=
  each (Hint.fields f) u.hints + f u.table + each f u.assignments + ifAny f u.source +
    ifAny f u.condition

def Delete.fields (d : Delete ε) : Multiset Field :=
  each (Hint.fields f) d.hints + f d.table + ifAny f d.source + ifAny f d.condition

def Node.fields : Node ε → Multiset Field
  | .select query aliasName _ => f query + ifAny Identifier.fields aliasName
  | .selectQuery query => query.fields f
  | .union withQueries left right _ _ =>
    each (WithQuery.fields f) withQueries + f left + f right
  | .table source => source.fields f
  | .joinTable left right _ condition _ _ => f left + f right + ifAny f condition
  | .tableFunction function aliasName _ => function.fields f + ifAny Identifier.fields aliasName
  | .pivotTable source aggregate column values aliasName _ =>
    f source + aggregate.fields f + f column + each (SelectItem.fields f) values +
      ifAny Identifier.fields aliasName
  | .identifier name => name.fields
  | .property schema owner name collate _ =>
    ifAny Identifier.fields schema + owner.fields + name.fields + ifAny Collate.fields collate
  | .allColumns owner _ => each Identifier.fields owner
  | .variable _ name _ => {.text name}
  | .number value _ => {.number value}
  | .string value _ _ => {.text value}
  | .bool _ _ | .null _ => 0
  | .interval value _ _ => f value
  | .array elements _ => each f elements
  | .binary left _ right _ => f left + f right
  | .not operand _ => f operand
  | .negate operand _ => f operand
  | .between operand low high _ _ => f operand + f low + f high
  | .membership operand targets query _ _ => f operand + each f targets + ifAny f query
  | .existence query _ => f query
  | .any query _ => f query
  | .all query _ => f query
  | .regex operand pattern _ _ _ => f operand + f pattern
  | .caseOf operand items otherwise _ =>
    ifAny f operand + each (CaseItem.fields f) items + ifAny f otherwise
  | .call function => function.fields f
  | .atTimeZone operand zone _ => f operand + f zone
  | .arrayIndex base index _ => f base + f index
  | .arraySlice base lower upper _ => f base + ifAny f lower + ifAny f upper
  | .insert statement => statement.fields f
  | .update statement => statement.fields f
  | .delete statement => statement.fields f

end Clauses

def Expr.fields (e : Expr) : Multiset Field :=
  e.fold (Node.fields id)

section Map

variable {ε α : Type} (f : α → Multiset Field) (h : ε → α)

theorem OrderBy.fields_map (o : OrderBy ε) :
    (o.map h).fields f = o.fields fun e => f (h e) := by
  simp only [OrderBy.fields, OrderBy.map, each_map]
  rfl

theorem Window.fields_map (w : Window ε) : (w.map h).fields f = w.fields fun e => f (h e) := by
  simp only [Window.fields, Window.map, ifAny_map, PartitionBy.fields, PartitionBy.map, each_map,
    OrderBy.fields_map]
  rfl

theorem Call.fields_map (c : Call ε) : (c.map h).fields f = c.fields fun e => f (h e) := by
  simp only [Call.fields, Call.map, each_map, ifAny_map, WithinGroup.fields, WithinGroup.map,
    OrderBy.fields_map, Window.fields_map]
  rfl

theorem SelectQuery.fields_map (q : SelectQuery ε) :
    (q.map h).fields f = q.fields fun e => f (h e) := by
  simp only [SelectQuery.fields, SelectQuery.map, each_map, ifAny_map, GroupBy.fields, GroupBy.map,
    ConnectBy.fields, ConnectBy.map, OrderBy.fields_map, Limit.fields, Limit.map]
  rfl

/-- The fields of a node are found in its children as they are or after changing them. -/
theorem Node.fields_map (n : Node ε) : (n.map h).fields f = n.fields fun e => f (h e) := by
  cases n
  case selectQuery q => exact q.fields_map f h
  case call c => exact c.fields_map f h
  case tableFunction c aliasName tag =>
    exact congrArg (· + ifAny Identifier.fields aliasName) (c.fields_map f h)
  all_goals
    simp only [Node.fields, Node.map, Call.fields_map, Table.fields, Table.map, Insert.fields,
      Insert.map, Update.fields, Update.map, Delete.fields, Delete.map, each_map, ifAny_map]
  all_goals rfl

end Map

@[simp] theorem Expr.fields_node (n : Node Expr) : (Expr.node n).fields = n.fields Expr.fields := by
  rw [Expr.fields, Expr.fold_node, Node.fields_map]
  rfl

end SqlTree

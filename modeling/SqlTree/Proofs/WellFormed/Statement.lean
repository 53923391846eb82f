import SqlTree.Grammar.Statement
import SqlTree.Proofs.WellFormed.Expression

/-!
# Statements are well formed

Whatever the tokens and the settings, a statement that is read is well formed.  Sources, queries
and statements give what their places want, provided the productions one nesting level further
down do so; by induction on the nesting levels all of them do.
-/

namespace SqlTree

open SqlTree.Parser

namespace Level.FormsBelow

variable {g : Level} (h : g.FormsBelow)

include h

/-! ## Row limits -/

def RangeFormed (range : RowRange) : Prop :=
  (∀ e ∈ range.offset, WellFormed .expression e) ∧ ∀ e ∈ range.rowCount, WellFormed .expression e

theorem limitOffset : Gives RangeFormed g.limitOffset := by
  refine .branch ?_ (.pure ⟨forall_mem_none, forall_mem_none⟩)
  refine h.additive.bind fun first hfirst => ?_
  refine .branch ?_ ?_
  · refine h.additive.bind fun count hcount => ?_
    exact .pure ⟨forall_mem_some hfirst, forall_mem_some hcount⟩
  · refine .branch ?_ (.pure ⟨forall_mem_none, forall_mem_some hfirst⟩)
    refine h.additive.bind fun offset hoffset => ?_
    exact .pure ⟨forall_mem_some hoffset, forall_mem_some hfirst⟩

theorem fetch (ordinal : Keyword) (other : String) (wanted : Wanted) :
    Gives (fun e? => ∀ e ∈ e?, WellFormed .expression e) (g.fetch ordinal other wanted) := by
  refine .branch ?_ (.pure forall_mem_none)
  refine .branch ?_ .refuseFor
  refine h.additive.bind fun count hcount => ?_
  refine .after fun _ => ?_
  refine .after fun _ => ?_
  exact .pure (forall_mem_some hcount)

theorem offsetFetch : Gives RangeFormed g.offsetFetch := by
  refine .branch ?_ (.pure ⟨forall_mem_none, forall_mem_none⟩)
  refine h.additive.bind fun offset hoffset => ?_
  refine .after fun _ => ?_
  refine (h.fetch _ _ _).bind fun count hcount => ?_
  exact .pure ⟨forall_mem_some hoffset, hcount⟩

theorem fetchFirst : Gives RangeFormed g.fetchFirst := by
  have hrows : Gives (fun e? => ∀ e ∈ e?, WellFormed .expression e) g.offsetRows :=
    .branch (h.additive.bind fun offset hoffset => .after fun _ => .pure (forall_mem_some hoffset))
      (.pure forall_mem_none)
  refine hrows.bind fun offset hoffset => ?_
  exact (h.fetch _ _ _).bind fun count hcount => .pure ⟨hoffset, hcount⟩

theorem limitAndOffset : Gives RangeFormed g.limitAndOffset := by
  refine .loop ⟨forall_mem_none, forall_mem_none⟩ fun range hrange => ?_
  refine .branch ?_ ?_
  · refine .branch (.pure hrange) ?_
    refine h.additive.bind fun count hcount => ?_
    exact .pure ⟨hrange.1, forall_mem_some hcount⟩
  · refine .branch ?_ (.pure hrange)
    refine h.additive.bind fun offset hoffset => ?_
    refine .after fun _ => ?_
    exact .pure ⟨forall_mem_some hoffset, hrange.2⟩

theorem rowRange (style : Option LimitStyle) : Gives RangeFormed (g.rowRange style) := by
  match style with
  | some .limitOffset => exact h.limitOffset
  | some .offsetFetch => exact h.offsetFetch
  | some .fetchFirst => exact h.fetchFirst
  | some .limitAndOffset => exact h.limitAndOffset
  | none => exact .pure ⟨forall_mem_none, forall_mem_none⟩

theorem limit :
    Gives (fun limit? => ∀ l ∈ limit?, (l.offset.isSome ∨ l.rowCount.isSome) ∧
      AllIn .expression l.held) g.limit := by
  refine (h.rowRange _).bind fun range hrange => ?_
  split
  case h_1 => exact .pure forall_mem_none
  case h_2 offset count hsome =>
      refine .pure fun l hl => ?_
      cases hl
      obtain ⟨hoffset, hcount⟩ := hrange
      refine ⟨?_, by simpa [Limit.held] using ⟨hoffset, hcount⟩⟩
      cases offset with
      | some => exact .inl rfl
      | none =>
          cases count with
          | some => exact .inr rfl
          | none => exact (hsome rfl rfl).elim

/-! ## Sources -/

theorem selectItem : Gives (fun item => AllIn .expression item.held) g.selectItem := by
  refine h.expression.bind fun body hbody => ?_
  refine .after fun _ => ?_
  refine .pure ?_
  simpa [SelectItem.held] using hbody

omit h in
theorem tableOf (g : Level) (path : NamePath) :
    Gives (fun t => t.link = none ∧ t.aliasName = none ∧ t.hints = []) (g.tableOf path) := by
  obtain ⟨last, before⟩ := path
  match before with
  | [] => exact .pure ⟨rfl, rfl, rfl⟩
  | [_] => exact .pure ⟨rfl, rfl, rfl⟩
  | [_, _] => exact .pure ⟨rfl, rfl, rfl⟩
  | _ :: _ :: _ :: _ => exact .refuse

omit h in
theorem tableName (g : Level) : Gives (WellFormed .tableName) g.tableName := by
  refine .after fun path => ?_
  refine (tableOf g path).bind fun table htable => ?_
  refine .pure ?_
  refine .ofFilled htable trivial ?_
  simp [Node.slots, Node.held, Table.held, htable.2.2]

theorem tableHints :
    Gives (fun hints => ∀ hint ∈ hints, AllIn .expression hint.held) g.tableHints := by
  refine .branch ?_ (.pure (List.forall_mem_nil _))
  refine .after fun _ => ?_
  refine .after fun _ => ?_
  refine (commaList h.unit).bind fun bodies ⟨_, hbodies⟩ => ?_
  refine .after fun _ => ?_
  refine .pure ?_
  simpa [Hint.held] using hbodies

theorem namedSource : Gives (WellFormed .source) g.namedSource := by
  refine .after fun path => ?_
  refine .branch ?_ ?_
  · refine (h.call path).bind fun function ⟨hsound, hheld⟩ => ?_
    refine .after fun _ => ?_
    refine .pure (.ofFilled trivial hsound ?_)
    simpa [Node.slots, Node.held] using hheld
  · refine .after fun table => ?_
    refine .after fun link => ?_
    refine .after fun aliasName => ?_
    refine h.tableHints.bind fun hints hhints => ?_
    refine .pure (.ofFilled trivial trivial ?_)
    exact filled_each.2 (allIn_flatMap.2 hhints)

theorem pivot {source : Expr} (hsource : WellFormed .source source) :
    Gives (WellFormed .source) (g.pivot source) := by
  refine .after fun _ => ?_
  refine .after fun _ => ?_
  refine .after fun name => ?_
  refine (h.call ⟨name, []⟩).bind fun aggregate ⟨hsound, haggregate⟩ => ?_
  refine .branch ?_ .refuseFor
  refine h.additive.bind fun column hcolumn => ?_
  refine .after fun _ => ?_
  refine .after fun _ => ?_
  refine (commaList h.selectItem).bind fun values ⟨_, hvalues⟩ => ?_
  refine .after fun _ => ?_
  refine .after fun _ => ?_
  refine .after fun _ => ?_
  refine .pure (.ofFilled trivial hsound ?_)
  simpa [Node.slots] using ⟨hsource, haggregate, hcolumn, hvalues⟩

omit h in
theorem joinTable {left right : Expr} {kind : JoinKind} {condition : Option Expr} {isComma : Bool}
    {tag : Tag} (hleft : WellFormed .source left) (hright : WellFormed .source right)
    (hcondition : ∀ e ∈ condition, WellFormed .expression e)
    (hone : condition = none ↔ kind = .cross ∨ isComma = true)
    (hcomma : isComma = true → kind = .inner) :
    WellFormed .source (.node (.joinTable left right kind condition isComma tag)) :=
  .ofFilled trivial ⟨hone, hcomma⟩ (by simpa [Node.slots] using ⟨⟨hleft, hright⟩, hcondition⟩)

omit h in
theorem joinKind : Gives (fun kind? => ∀ kind ∈ kind?, kind ≠ .cross) Level.joinKind := by
  have hkind : ∀ kind : JoinKind, kind ≠ .cross → ∀ kind' ∈ some kind, kind' ≠ .cross := by
    intro kind hne kind' hkind'
    cases hkind'
    exact hne
  refine .after fun next => ?_
  cases next with
  | none => exact .pure forall_mem_none
  | some type =>
      cases type with
      | keyword word =>
          cases word with
          | JOIN => exact .pure (hkind _ nofun)
          | INNER => exact .after fun _ => .pure (hkind _ nofun)
          | LEFT | RIGHT | FULL =>
              refine .after fun _ => ?_
              exact .after fun _ => .pure (hkind _ nofun)
          | _ => exact .pure forall_mem_none
      | _ => exact .pure forall_mem_none

theorem join {left : Expr} (hleft : WellFormed .source left) :
    Gives (fun e? => ∀ e ∈ e?, WellFormed .source e) (g.join left) := by
  refine .branch ?_ ?_
  · refine (h .source).bind fun right hright => ?_
    refine .pure (forall_mem_some ?_)
    exact joinTable hleft hright forall_mem_none (by simp) fun _ => rfl
  refine .branch ?_ ?_
  · refine .after fun _ => ?_
    refine (h .source).bind fun right hright => ?_
    refine .pure (forall_mem_some ?_)
    exact joinTable hleft hright forall_mem_none (by simp) nofun
  refine joinKind.bind fun kind? hkind => ?_
  cases kind? with
  | none => exact .pure forall_mem_none
  | some kind =>
      have hne : kind ≠ .cross := hkind kind rfl
      refine .after fun _ => ?_
      refine (h .source).bind fun right hright => ?_
      refine .after fun _ => ?_
      refine h.expression.bind fun condition hcondition => ?_
      refine .pure (forall_mem_some ?_)
      exact joinTable hleft hright (forall_mem_some hcondition) (by simp [hne]) nofun

theorem joinsFrom {n : Nat} {left : Expr} (hleft : WellFormed .source left) :
    Gives (WellFormed .source) (g.joinsFrom n left) := by
  induction n generalizing left with
  | zero => exact .throw
  | succ n ih =>
      refine (h.join hleft).bind fun joined hjoined => ?_
      cases joined with
      | none => exact .pure hleft
      | some e => exact ih (hjoined e rfl)

theorem sources : Gives (WellFormed .source) g.sources :=
  (h .source).bind fun _ hleft => h.joinsFrom hleft

theorem plainSource : Gives (WellFormed .source) g.plainSource := by
  refine .branch ?_ h.namedSource
  refine .branch ?_ ?_
  · refine .after fun _ => ?_
    refine (h .query).bind fun query hquery => ?_
    refine .after fun _ => ?_
    refine .after fun _ => ?_
    refine .pure (.ofFilled trivial trivial ?_)
    simpa [Node.slots, Production.slot] using hquery
  · refine .after fun _ => ?_
    refine h.sources.bind fun inner hinner => ?_
    exact .after fun _ => .pure hinner

theorem source : Gives (WellFormed .source) g.source := by
  refine h.plainSource.bind fun source hsource => ?_
  refine .loop hsource fun source hsource => ?_
  exact .branch (h.pivot hsource).again (.pure hsource)

/-! ## Queries -/

omit h in
theorem commentHints (g : Level) :
    Gives (fun hints => ∀ hint ∈ hints, AllIn .expression hint.held) g.commentHints := by
  refine .bind (V := fun hints => ∀ hint ∈ hints, AllIn .expression hint.held) ?_ ?_
  · refine .loop (List.forall_mem_nil _) fun hints hhints => ?_
    refine .branch ?_ (.pure hhints)
    refine .after fun token => ?_
    have hbody : WellFormed .expression (.node (.string token.text false g.tag)) :=
      leaf trivial trivial rfl
    exact .pure (List.forall_mem_cons.2 ⟨by simpa [Hint.held] using hbody, hhints⟩)
  · intro hints hhints
    exact .pure fun hint hmem => hhints hint (List.mem_reverse.1 hmem)

theorem top : Gives (fun t => AllIn .expression t.held) g.top := by
  have hcount : Gives (WellFormed .expression) g.topCount := by
    refine .branch ?_ ?_
    · refine h.expression.bind fun e he => ?_
      exact .after fun _ => .pure he
    · exact .after fun _ => .pure (leaf trivial trivial rfl)
  refine hcount.bind fun count hcount => ?_
  refine .after fun _ => ?_
  refine .after fun _ => ?_
  refine .pure ?_
  simpa [Top.held] using hcount

theorem groupBy : Gives (fun b => b.items ≠ [] ∧ AllIn .expression b.held) g.groupBy := by
  refine .after fun _ => ?_
  refine (commaList h.expression).bind fun items ⟨hne, hitems⟩ => ?_
  refine (Gives.afterKeyword h.expression).bind fun having hhaving => .pure ⟨hne, ?_⟩
  simpa [GroupBy.held] using ⟨hitems, hhaving⟩

omit h in
theorem unlessRead {α : Type} {V : α → Prop} {read : Option α} {p : Parser (Option α)}
    (hread : ∀ a ∈ read, V a) (hp : Gives (fun a? => ∀ a ∈ a?, V a) p) :
    Gives (fun a? => ∀ a ∈ a?, V a) (Level.unlessRead read p) := by
  unfold Level.unlessRead
  split
  · exact .pure hread
  · exact hp

theorem connectByIfAny :
    Gives (fun c? => ∀ c ∈ c?, AllIn .expression c.held) g.connectByIfAny := by
  have hstart : Gives (fun e? => ∀ e ∈ e?, WellFormed .expression e) g.startWith := by
    refine .branch ?_ (.pure forall_mem_none)
    refine .after fun _ => ?_
    exact h.expression.map fun e he => forall_mem_some he
  have hconnect : Gives (fun c => AllIn .expression c.held) g.connectBy := by
    refine hstart.bind fun before hbefore => ?_
    refine .after fun _ => ?_
    refine .after fun _ => ?_
    refine .after fun _ => ?_
    refine .after fun _ => ?_
    refine h.expression.bind fun condition hcondition => ?_
    refine (unlessRead hbefore hstart).bind fun start hstart => ?_
    refine .pure ?_
    simpa [ConnectBy.held] using ⟨hstart, hcondition⟩
  refine .after fun isStart => ?_
  refine .after fun isConnect => ?_
  cases isStart || isConnect with
  | true =>
      refine hconnect.map fun c hc c' hc' => ?_
      cases hc'
      exact hc
  | false => exact .pure forall_mem_none

omit h in
theorem intoTable (g : Level) :
    Gives (fun e? => ∀ e ∈ e?, WellFormed .tableName e) g.intoTable := by
  unfold Level.intoTable
  split
  · exact Gives.afterKeyword (tableName g)
  · exact .pure forall_mem_none

theorem selectQuery : Gives (WellFormed .rightOperand) g.selectQuery := by
  refine .after fun _ => ?_
  refine (commentHints g).bind fun hints hhints => ?_
  refine .after fun option => ?_
  refine (Gives.afterKeyword h.top).bind fun top htop => ?_
  refine (commaList h.selectItem).bind fun columns ⟨hne, hcolumns⟩ => ?_
  refine (intoTable g).bind fun into hinto => ?_
  refine (Gives.afterKeyword h.sources).bind fun source hsource => ?_
  refine (Gives.afterKeyword h.expression).bind fun condition hcondition => ?_
  refine h.connectByIfAny.bind fun hierarchy hhierarchy => ?_
  refine (Gives.afterKeyword h.groupBy).bind fun groupBy hgroupBy => ?_
  refine (unlessRead hhierarchy h.connectByIfAny).bind fun connectBy hconnectBy => ?_
  refine (Gives.afterKeyword h.orderBy).bind fun orderBy horderBy => ?_
  refine h.limit.bind fun limit hlimit => ?_
  refine .pure (.ofFilled rfl ?_ ?_)
  · exact ⟨hne, fun b hb => (hgroupBy b hb).1, fun o ho => (horderBy o ho).1,
      fun l hl => (hlimit l hl).1⟩
  · simpa [Node.slots, SelectQuery.slots] using
      ⟨hhints, htop, hcolumns, hinto, hsource, hcondition,
        fun b hb => (hgroupBy b hb).2, hconnectBy,
        fun o ho => (horderBy o ho).2, fun l hl => (hlimit l hl).2⟩

omit h in
theorem leftOperand_of_rightOperand {e : Expr} (he : WellFormed .rightOperand e) :
    WellFormed .leftOperand e := by
  obtain ⟨n⟩ := e
  refine he.transfer ?_
  have hadmits := he.admits_toNode
  cases n with
  | selectQuery | select => exact hadmits
  | _ => exact hadmits.elim

theorem queryOperand : Gives (WellFormed .rightOperand) g.queryOperand := by
  refine .branch ?_ h.selectQuery
  refine h.parenthesizedQuery.mono fun e he => ?_
  obtain ⟨n⟩ := e
  refine he.transfer ?_
  have hadmits := he.admits_toNode
  cases n with
  | select => exact hadmits
  | _ => exact hadmits.elim

theorem queryChain : Gives (WellFormed .leftOperand) g.queryChain := by
  refine h.queryOperand.bind fun first hfirst => ?_
  refine .loop (leftOperand_of_rightOperand hfirst) fun left hleft => ?_
  refine .after fun op => ?_
  cases op with
  | none => exact .pure hleft
  | some op =>
      refine h.queryOperand.bind fun right hright => ?_
      refine .pure (.ofFilled rfl trivial ?_)
      simpa [Node.slots] using ⟨hleft, hright⟩

omit h in
/-- Without parentheses of its own, a chain is a query. -/
theorem query_unwrap {chain : Expr} (hchain : WellFormed .leftOperand chain) :
    WellFormed .query (unwrap chain) := by
  obtain ⟨n⟩ := chain
  have hadmits := hchain.admits_toNode
  cases n with
  | select query aliasName tag =>
      obtain rfl : aliasName = none := hadmits
      have hfilled : Filled (Slot.query.each [query]) := hchain.filled
      exact (allIn_cons.1 (filled_each.1 hfilled)).1
  | selectQuery | union => exact hchain.transfer trivial
  | _ => exact hadmits.elim

omit h in
/-- A query takes named queries in front of those that it has. -/
theorem query_withQueries {ws : List (WithQuery Expr)} {e e' : Expr}
    (hws : AllIn .query (ws.flatMap WithQuery.held)) (he : WellFormed .query e)
    (hwith : e.withQueries ws = .ok e') : WellFormed .query e' := by
  cases Expr.named_of_withQueries hwith with
  | selectQuery =>
      have hfilled := he.filled
      obtain @⟨_, _, -, hsound, -⟩ := he
      refine .ofFilled trivial ⟨hsound.1, hsound.2, hsound.3, hsound.4⟩ ?_
      simp only [Node.slots, SelectQuery.slots, List.flatMap_append, filled_append, filled_each,
        allIn_append] at hfilled ⊢
      exact hfilled.imp_left fun hfilled => by simpa [hws] using hfilled
  | union =>
      have hfilled := he.filled
      refine .ofFilled trivial trivial ?_
      simp only [Node.slots, List.flatMap_append, filled_append, filled_each,
        allIn_append] at hfilled ⊢
      exact ⟨⟨⟨hws, hfilled.1.1⟩, hfilled.1.2⟩, hfilled.2⟩
  | select => exact he.admits_toNode.elim

theorem withQuery : Gives (fun w => AllIn .query w.held) g.withQuery := by
  refine .after fun name => ?_
  refine .after fun columns => ?_
  refine .after fun _ => ?_
  refine .after fun _ => ?_
  refine (h .query).bind fun query hquery => ?_
  refine .after fun _ => ?_
  refine .pure ?_
  simpa [WithQuery.held, Production.slot] using hquery

theorem query : Gives (WellFormed .query) g.query := by
  refine (Gives.afterKeyword (commaList h.withQuery)).bind fun ws hws => ?_
  refine h.queryChain.bind fun chain hchain => ?_
  have hquery := query_unwrap hchain
  rcases ws with _ | _ | ⟨w, ws⟩
  · exact .pure hquery
  · exact .pure hquery
  · have hlist := allIn_flatMap.2 (hws (w :: ws) rfl).2
    dsimp only
    cases hwith : Expr.withQueries (w :: ws) (unwrap chain) with
    | ok e => exact .pure (query_withQueries hlist hquery hwith)
    | error e => exact .throw

/-! ## Statements -/

theorem insert : Gives (WellFormed .statement) g.insert := by
  refine .after fun _ => ?_
  refine (commentHints g).bind fun hints hhints => ?_
  refine .after fun _ => ?_
  refine (tableName g).bind fun table htable => ?_
  refine .after fun columns => ?_
  have hrow : Gives (fun row => row ≠ [] ∧ AllIn .expression row) g.valuesRow := by
    refine .after fun _ => ?_
    refine (commaList h.expression).bind fun row hrow => ?_
    exact .after fun _ => .pure hrow
  refine .branch ?_ ?_
  · refine (commaList hrow).bind fun rows ⟨hne, hrows⟩ => ?_
    refine .pure (.ofFilled trivial ?_ ?_)
    · exact .inl ⟨hne, fun row hmem => (hrows row hmem).1, rfl⟩
    · simpa [Node.slots, Insert.slots] using ⟨hhints, htable, fun row hmem => (hrows row hmem).2⟩
  · refine .branch ?_ .refuseFor
    refine (h .query).bind fun query hquery => ?_
    refine .pure (.ofFilled trivial (.inr ⟨rfl, rfl⟩) ?_)
    simpa [Node.slots, Insert.slots] using ⟨hhints, htable, .subquery hquery⟩

theorem assignment : Gives (WellFormed .assignment) g.assignment := by
  refine h.unit.bind fun target htarget => ?_
  refine .after fun _ => ?_
  refine h.expression.bind fun value hvalue => ?_
  exact .pure (.ofFilled rfl trivial (by simpa [Node.slots] using ⟨htarget, hvalue⟩))

theorem update : Gives (WellFormed .statement) g.update := by
  refine .after fun _ => ?_
  refine (commentHints g).bind fun hints hhints => ?_
  refine (h .source).bind fun table htable => ?_
  refine .after fun _ => ?_
  refine (commaList h.assignment).bind fun assignments ⟨hne, hassignments⟩ => ?_
  refine (Gives.afterKeyword h.sources).bind fun source hsource => ?_
  refine (Gives.afterKeyword h.expression).bind fun condition hcondition => ?_
  refine .pure (.ofFilled trivial hne ?_)
  simpa [Node.slots, Update.slots] using ⟨hhints, htable, hassignments, hsource, hcondition⟩

theorem delete : Gives (WellFormed .statement) g.delete := by
  refine .after fun _ => ?_
  refine (commentHints g).bind fun hints hhints => ?_
  refine .after fun isFrom => ?_
  refine (h .source).bind fun table htable => ?_
  have hfrom : Gives (fun e? => ∀ e ∈ e?, WellFormed .source e) (g.fromUnless isFrom) := by
    cases isFrom with
    | true => exact .pure forall_mem_none
    | false => exact Gives.afterKeyword h.sources
  refine hfrom.bind fun source hsource => ?_
  refine (Gives.afterKeyword h.expression).bind fun condition hcondition => ?_
  refine .pure (.ofFilled trivial trivial ?_)
  simpa [Node.slots, Delete.slots] using ⟨hhints, htable, hsource, hcondition⟩

theorem statement : Gives (WellFormed .statement) g.statement := by
  have hbody : Gives (WellFormed .statement) g.statementBody := by
    have hquery : Gives (WellFormed .statement) (do return g.subquery (← g.below .query)) :=
      (h .query).bind fun query hquery =>
        .pure (.ofFilled rfl trivial (by simpa [Node.slots, Production.slot] using hquery))
    refine .after fun next => ?_
    cases next with
    | none => exact .throw
    | some type =>
        cases type with
        | lparen => exact hquery
        | keyword word =>
            cases word with
            | SELECT | WITH => exact hquery
            | INSERT => exact h.insert
            | UPDATE => exact h.update
            | DELETE => exact h.delete
            | _ => exact .refuseFound
        | _ => exact .refuseFound
  refine hbody.bind fun e he => ?_
  refine .after fun _ => ?_
  exact .branch (.pure he) .refuseFound

theorem rule (production : Production) :
    Gives (WellFormed production.slot) (g.rule production) := by
  cases production with
  | query => exact h.query
  | source => exact h.source
  | negation => exact h.negation
  | operand => exact h.operand
  | intervalValue => exact h.unit

end Level.FormsBelow

/-! ## The main result -/

/-- What holds one nesting level further down holds on a level. -/
theorem Level.gives_produce (settings : Settings) (levels : Nat) (production : Production) :
    Gives (WellFormed production.slot) (Level.produce settings levels production) := by
  induction levels generalizing production with
  | zero => exact .throw
  | succ levels ih =>
      have hbelow : Level.FormsBelow ⟨settings, Level.produce settings levels⟩ := ih
      exact .nested (hbelow.rule production)

/-- Every statement that is read is well formed, with any settings and from any tokens. -/
theorem Settings.statement_wellFormed {settings : Settings} {c d : Cursor} {e : Expr}
    (hread : settings.statement c = .ok e d) : WellFormed .statement e := by
  have hbelow : Level.FormsBelow (Level.atDepth settings c.depth) :=
    Level.gives_produce settings (settings.maxDepth - c.depth)
  exact hbelow.statement c e d trivial hread

/-- The tokens of `SELECT * FROM a, b LIMIT 1`. -/
def commaJoined : List Token :=
  [.unplaced (.keyword .SELECT) "SELECT", .unplaced .star "*", .unplaced (.keyword .FROM) "FROM",
    .unplaced .identifier "a", .unplaced .comma ",", .unplaced .identifier "b",
    .unplaced (.keyword .LIMIT) "LIMIT", .unplaced .number "1"]

theorem Settings.statement_wellFormed_commaJoined :
    ∃ e d, Dialect.mySql.settings.statement (Cursor.start commaJoined) = .ok e d ∧
      WellFormed .statement e := by
  obtain ⟨e, d, hread⟩ : ∃ e d,
      Dialect.mySql.settings.statement (Cursor.start commaJoined) = .ok e d := ⟨_, _, rfl⟩
  exact ⟨e, d, hread, Settings.statement_wellFormed hread⟩

end SqlTree

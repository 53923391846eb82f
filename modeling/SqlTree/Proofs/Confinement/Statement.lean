import SqlTree.Parsed
import SqlTree.Proofs.Confinement.Expression

/-!
# Statements keep to their dialect

Whatever a dialect reads has only constructs of this dialect, at any depth of the tree.  Sources,
queries and statements keep to the dialect, provided the productions one nesting level further
down do so; by induction on the nesting levels all of them do.  Most constructs are told by a
token that only some dialects issue; targets of rows, links and hints of tables are read only
where the level reads a certain dialect.
-/

namespace SqlTree

open SqlTree.Parser

namespace Level.Confined

open Dialect (Gives Keeps Confines)

variable {d : Dialect} {g : Level} (h : g.Confined d)

include h

/-! ## Row limits -/

/-- The two numbers of a row range keep to the dialect. -/
def RangeConfined (d : Dialect) (range : RowRange) : Prop :=
  (∀ e ∈ range.offset, d.Confines e) ∧ ∀ e ∈ range.rowCount, d.Confines e

theorem limitOffset : d.Gives (RangeConfined d) g.limitOffset := by
  refine .branch .accept ?_ (.pure ⟨forall_mem_none, forall_mem_none⟩)
  refine h.additive.bind fun first hfirst => ?_
  refine .branch .accept ?_ ?_
  · refine h.additive.bind fun count hcount => ?_
    exact .pure ⟨forall_mem_some hfirst, forall_mem_some hcount⟩
  · refine .branch .acceptWord ?_ (.pure ⟨forall_mem_none, forall_mem_some hfirst⟩)
    refine h.additive.bind fun offset hoffset => ?_
    exact .pure ⟨forall_mem_some hoffset, forall_mem_some hfirst⟩

theorem fetch (ordinal : Keyword) (other : String) (wanted : Wanted) :
    d.Gives (fun e? => ∀ e ∈ e?, d.Confines e) (g.fetch ordinal other wanted) := by
  refine .branch .accept ?_ .pureNone
  refine .branch (.ofKept h.levels.acceptEither) ?_ .refuseFor
  refine h.additive.bind fun count hcount => ?_
  refine .after (.ofKept h.levels.rowsWord) fun _ => ?_
  exact .after .expect fun _ => .pureSome hcount

theorem offsetFetch : d.Gives (RangeConfined d) g.offsetFetch := by
  refine .branch .accept ?_ (.pure ⟨forall_mem_none, forall_mem_none⟩)
  refine h.additive.bind fun offset hoffset => ?_
  refine .after (.ofKept h.levels.rowsWord) fun _ => ?_
  refine (h.fetch _ _ _).bind fun count hcount => ?_
  exact .pure ⟨forall_mem_some hoffset, hcount⟩

theorem offsetRows : d.Gives (fun e? => ∀ e ∈ e?, d.Confines e) g.offsetRows := by
  refine .branch .acceptWord ?_ .pureNone
  refine h.additive.bind fun offset hoffset => ?_
  exact .after (.ofKept h.levels.rowsWord) fun _ => .pureSome hoffset

theorem fetchFirst : d.Gives (RangeConfined d) g.fetchFirst := by
  refine h.offsetRows.bind fun _ hoffset => ?_
  exact (h.fetch _ _ _).bind fun _ hcount => .pure ⟨hoffset, hcount⟩

omit h in
theorem acceptUnlessRead (read : Option Expr) (word : Keyword) :
    d.Keeps (Level.acceptUnlessRead read word) := by
  unfold Level.acceptUnlessRead
  split
  · exact .accept
  · exact .pure trivial

theorem limitAndOffset : d.Gives (RangeConfined d) g.limitAndOffset := by
  refine .loop ⟨forall_mem_none, forall_mem_none⟩ fun range hrange => ?_
  refine .branch (acceptUnlessRead _ _) ?_ ?_
  · refine .branch .accept (.pure hrange) ?_
    refine h.additive.bind fun count hcount => ?_
    exact .pure ⟨hrange.1, forall_mem_some hcount⟩
  · refine .branch (acceptUnlessRead _ _) ?_ (.pure hrange)
    refine h.additive.bind fun offset hoffset => ?_
    refine .after (.ofKept h.levels.rowsWordIfAny) fun _ => ?_
    exact .pure ⟨forall_mem_some hoffset, hrange.2⟩

theorem rowRange (style : Option LimitStyle) : d.Gives (RangeConfined d) (g.rowRange style) := by
  match style with
  | some .limitOffset => exact h.limitOffset
  | some .offsetFetch => exact h.offsetFetch
  | some .fetchFirst => exact h.fetchFirst
  | some .limitAndOffset => exact h.limitAndOffset
  | none => exact .pure ⟨forall_mem_none, forall_mem_none⟩

theorem limit : d.Gives (fun limit? => ∀ l ∈ limit?, d.ConfinesAll l.held) g.limit := by
  refine (h.rowRange _).bind fun range ⟨hoffset, hcount⟩ => ?_
  split
  case h_1 => exact .pureNone
  case h_2 => exact .pureSome (by simpa [Limit.held] using ⟨hoffset, hcount⟩)

/-! ## Sources -/

theorem selectItem : d.Gives (fun item => d.ConfinesAll item.held) g.selectItem := by
  refine h.expression.bind fun body hbody => ?_
  refine .after (.ofKept h.levels.aliasName) fun _ => ?_
  refine .pure ?_
  simpa [SelectItem.held] using hbody

omit h in
theorem tableOf (path : NamePath) :
    d.Gives (fun t => t.link = none ∧ t.hints = []) (g.tableOf path) := by
  obtain ⟨last, before⟩ := path
  match before with
  | [] => exact .pure ⟨rfl, rfl⟩
  | [_] => exact .pure ⟨rfl, rfl⟩
  | [_, _] => exact .pure ⟨rfl, rfl⟩
  | _ :: _ :: _ :: _ => exact .refuse

theorem tableName : d.Gives d.Confines g.tableName := by
  refine .after (.ofKept h.levels.tablePath) fun path => ?_
  refine (tableOf path).bind fun table htable => ?_
  obtain ⟨hlink, hhints⟩ := htable
  refine .pure (.plain ?_ ?_)
  · simp [Node.specialities, Table.specialities, hlink, hhints, Speciality.each]
  · simp [Node.held, Table.held, hhints]

/-- What is read only where the level reads a certain dialect is a construct of this dialect. -/
theorem mem_of_readsDialect {d' : Dialect} {dialects : List Dialect}
    (hreads : g.readsDialect d' = true) (hmem : d' ∈ dialects) : d ∈ dialects := by
  rw [Level.readsDialect, h.dialect] at hreads
  cases eq_of_beq hreads
  exact hmem

theorem link : d.Gives (fun link => ∀ name ∈ link, d ∈ Speciality.link.dialects) g.link := by
  refine .of_keeps (.ofKept h.levels.link) ?_
  unfold Level.link
  split
  case isTrue hreads =>
      -- every dialect issues the sign of a link, so it is the level that tells the dialect
      exact fun _ _ _ _ _ _ _ => h.mem_of_readsDialect hreads List.mem_cons_self
  case isFalse => exact .pure forall_mem_none

theorem tableHints :
    d.Gives (fun hints => ∀ hint ∈ hints, d ∈ Speciality.tableHint.dialects ∧
      d.ConfinesAll hint.held)
      g.tableHints := by
  refine .branchOn .test (fun hfound => ?_) (.pure (List.forall_mem_nil _))
  obtain ⟨c, hstarts⟩ := hfound rfl
  have hreads : g.readsDialect .sqlServer = true :=
    (Bool.and_eq_true_iff.1 (Bool.and_eq_true_iff.1 hstarts).1).1
  have hmem : d ∈ Speciality.tableHint.dialects := h.mem_of_readsDialect hreads List.mem_cons_self
  refine .after .take fun _ => ?_
  refine .after .take fun _ => ?_
  refine (commaList h.unit).bind fun bodies hbodies => ?_
  exact .after .expect fun _ => .pure (by simpa [Hint.held, hmem] using hbodies)

theorem namedSource : d.Gives d.Confines g.namedSource := by
  refine .after (.ofKept h.levels.tablePath) fun path => ?_
  refine .branch .isNext ?_ ?_
  · refine (h.call path).bind fun function hfunction => ?_
    refine .after (.ofKept h.levels.aliasName) fun _ => ?_
    exact .pure (Dialect.confines_node.2 hfunction)
  · refine (tableOf path).keeps.bind fun table _ => ?_
    refine h.link.bind fun link hlink => ?_
    refine .after (.ofKept h.levels.aliasName) fun aliasName => ?_
    refine h.tableHints.bind fun hints hhints => ?_
    refine .pure (Dialect.confines_node.2 ?_)
    obtain ⟨hown, hheld⟩ := forall₂_and.1 hhints
    refine ⟨?_, AllOf.flatMap_iff.2 hheld⟩
    simpa [Node.specialities, Table.specialities] using ⟨hlink, hown⟩

theorem pivot {source : Expr} (hsource : d.Confines source) :
    d.Gives d.Confines (g.pivot source) := by
  refine Gives.expect.bind fun _ hissues => ?_
  refine .after .expect fun _ => ?_
  refine .after (.ofKept h.levels.namePart) fun name => ?_
  refine (h.call ⟨name, []⟩).bind fun aggregate ⟨hown, haggregate⟩ => ?_
  refine .branch .acceptWord ?_ .refuseFor
  refine h.additive.bind fun column hcolumn => ?_
  refine .after .expect fun _ => ?_
  refine .after .expect fun _ => ?_
  refine (commaList h.selectItem).bind fun values hvalues => ?_
  refine .after .expect fun _ => ?_
  refine .after .expect fun _ => ?_
  refine .after (.ofKept h.levels.aliasName) fun _ => ?_
  refine .pure (Dialect.confines_node.2 ⟨?_, ?_⟩)
  · exact AllOf.cons_iff.2 ⟨Speciality.of_issues hissues rfl, hown⟩
  · simpa [Node.held] using ⟨hsource, haggregate, hcolumn, hvalues⟩

omit h in
theorem joinTable {left right : Expr} {kind : JoinKind} {condition : Option Expr} {isComma : Bool}
    (hleft : d.Confines left) (hright : d.Confines right)
    (hcondition : ∀ e ∈ condition, d.Confines e) :
    d.Confines (.node (.joinTable left right kind condition isComma g.tag)) :=
  .plain rfl (by simpa [Node.held] using ⟨hleft, hright, hcondition⟩)

theorem join {left : Expr} (hleft : d.Confines left) :
    d.Gives (fun e? => ∀ e ∈ e?, d.Confines e) (g.join left) := by
  refine .branch .accept ?_ ?_
  · refine (h.below .source).bind fun _ hright => ?_
    exact .pureSome (joinTable hleft hright forall_mem_none)
  refine .branch .accept ?_ ?_
  · refine .after .expect fun _ => ?_
    refine (h.below .source).bind fun _ hright => ?_
    exact .pureSome (joinTable hleft hright forall_mem_none)
  refine .after (.ofKept h.levels.joinKind) fun kind? => ?_
  cases kind? with
  | none => exact .pureNone
  | some kind =>
      refine .after .expect fun _ => ?_
      refine (h.below .source).bind fun right hright => ?_
      refine .after .expect fun _ => ?_
      refine h.expression.bind fun condition hcondition => ?_
      exact .pureSome (joinTable hleft hright (forall_mem_some hcondition))

theorem joinsFrom {n : Nat} {left : Expr} (hleft : d.Confines left) :
    d.Gives d.Confines (g.joinsFrom n left) := by
  induction n generalizing left with
  | zero => exact .throw
  | succ n ih =>
      refine (h.join hleft).bind fun joined hjoined => ?_
      cases joined with
      | none => exact .pure hleft
      | some e => exact ih (hjoined e rfl)

theorem sources : d.Gives d.Confines g.sources :=
  (h.below .source).bind fun _ hleft => h.joinsFrom hleft

theorem plainSource : d.Gives d.Confines g.plainSource := by
  refine .branch .isNext ?_ h.namedSource
  refine .branch .test ?_ ?_
  · refine .after .take fun _ => ?_
    refine (h.below .query).bind fun query hquery => ?_
    refine .after .expect fun _ => ?_
    refine .after (.ofKept h.levels.aliasName) fun _ => ?_
    refine .pure (.plain rfl ?_)
    simpa [Node.held] using hquery
  · refine .after .take fun _ => ?_
    refine h.sources.bind fun inner hinner => ?_
    exact .after .expect fun _ => .pure hinner

theorem source : d.Gives d.Confines g.source := by
  refine h.plainSource.bind fun source hsource => ?_
  refine .loop hsource fun source hsource => ?_
  exact .branch .isNext (h.pivot hsource).again (.pure hsource)

/-! ## Queries -/

omit h in
theorem commentHints :
    d.Gives (fun hints => ∀ hint ∈ hints,
      d ∈ Speciality.statementHint.dialects ∧ d.ConfinesAll hint.held) g.commentHints := by
  refine .bind (V := fun hints => ∀ hint ∈ hints,
    d ∈ Speciality.statementHint.dialects ∧ d.ConfinesAll hint.held) ?_ ?_
  · refine .loop (List.forall_mem_nil _) fun hints hhints => ?_
    refine .branchOn .isNext (fun hissues => ?_) (.pure hhints)
    refine .after .take fun token => ?_
    have hbody : d.Confines (.node (.string token.text false g.tag)) := leaf rfl rfl
    refine .pure (List.forall_mem_cons.2 ⟨⟨?_, ?_⟩, hhints⟩)
    · exact Speciality.of_issues (hissues rfl) rfl
    · simpa [Hint.held] using hbody
  · intro hints hhints
    exact .pure fun hint hmem => hhints hint (List.mem_reverse.1 hmem)

omit h in
theorem rowOption :
    d.Gives (fun option => ∀ o ∈ option, d.Has o.specialities) Level.rowOption := by
  refine .branch .accept (.pureSome AllOf.nil) ?_
  refine .branch .accept (.pureSome AllOf.nil) ?_
  refine .acceptThen (fun hissues => .pureSome ?_) .pureNone
  simpa [RowOption.specialities] using Speciality.of_issues hissues rfl

theorem top : d.Gives (fun t => d.ConfinesAll t.held) g.top := by
  have hcount : d.Gives d.Confines g.topCount := by
    refine .branch .accept ?_ ?_
    · refine h.expression.bind fun e he => ?_
      exact .after .expect fun _ => .pure he
    · refine .after .expect fun _ => ?_
      exact .pure (leaf rfl rfl)
  refine hcount.bind fun count hcount => ?_
  refine .after .acceptWord fun _ => ?_
  refine .after (.ofKept h.levels.acceptWithTies) fun _ => ?_
  refine .pure ?_
  simpa [Top.held] using hcount

theorem groupBy : d.Gives (fun b => d.ConfinesAll b.held) g.groupBy := by
  refine .after .expect fun _ => ?_
  refine (commaList h.expression).bind fun items hitems => ?_
  refine (Gives.afterKeyword fun _ => h.expression).bind fun having hhaving => .pure ?_
  simpa [GroupBy.held] using ⟨hitems, hhaving⟩

omit h in
theorem unlessRead {α : Type} {V : α → Prop} {read : Option α} {p : Parser (Option α)}
    (hread : ∀ a ∈ read, V a) (hp : d.Gives (fun a? => ∀ a ∈ a?, V a) p) :
    d.Gives (fun a? => ∀ a ∈ a?, V a) (Level.unlessRead read p) := by
  unfold Level.unlessRead
  split
  · exact .pure hread
  · exact hp

theorem startWith : d.Gives (fun e? => ∀ e ∈ e?, d.Confines e) g.startWith := by
  refine .branch .accept ?_ .pureNone
  exact .after .expect fun _ => h.expression.mapSome

theorem connectBy :
    d.Gives (fun c => d ∈ Speciality.connectBy.dialects ∧ d.ConfinesAll c.held) g.connectBy := by
  refine h.startWith.bind fun before hbefore => ?_
  refine Gives.expect.bind fun _ hissues => ?_
  refine .after .expect fun _ => ?_
  refine .after .accept fun _ => ?_
  refine .after .accept fun _ => ?_
  refine h.expression.bind fun condition hcondition => ?_
  refine (unlessRead hbefore h.startWith).bind fun start hstart => .pure ⟨?_, ?_⟩
  · exact Speciality.of_issues hissues rfl
  · simpa [ConnectBy.held] using ⟨hstart, hcondition⟩

theorem connectByIfAny :
    d.Gives (fun c? => ∀ c ∈ c?, d ∈ Speciality.connectBy.dialects ∧ d.ConfinesAll c.held)
      g.connectByIfAny := by
  refine .after .isNext fun isStart => ?_
  refine .after .isNext fun isConnect => ?_
  cases isStart || isConnect with
  | true => exact h.connectBy.mapSome
  | false => exact .pureNone

theorem intoTable :
    d.Gives (fun e? => ∀ e ∈ e?, d ∈ Speciality.into.dialects ∧ d.Confines e) g.intoTable := by
  unfold Level.intoTable
  split
  case isTrue hreads =>
      refine .afterKeyword fun _ => ?_
      refine h.tableName.mono fun e he => ⟨?_, he⟩
      exact h.mem_of_readsDialect hreads List.mem_cons_self
  case isFalse => exact .pureNone

theorem selectQuery : d.Gives d.Confines g.selectQuery := by
  refine .after .expect fun _ => ?_
  refine commentHints.bind fun hints hhints => ?_
  refine rowOption.bind fun option hoption => ?_
  have htop : d.Gives (fun t? => ∀ t ∈ t?, d ∈ Speciality.top.dialects ∧ d.ConfinesAll t.held)
      (afterKeyword .TOP g.top) :=
    .afterKeyword fun hissues => h.top.mono fun t ht => ⟨Speciality.of_issues hissues rfl, ht⟩
  refine htop.bind fun top htop => ?_
  refine (commaList h.selectItem).bind fun columns hcolumns => ?_
  refine h.intoTable.bind fun into hinto => ?_
  refine (Gives.afterKeyword fun _ => h.sources).bind fun source hsource => ?_
  refine (Gives.afterKeyword fun _ => h.expression).bind fun condition hcondition => ?_
  refine h.connectByIfAny.bind fun hierarchy hhierarchy => ?_
  refine (Gives.afterKeyword fun _ => h.groupBy).bind fun groupBy hgroupBy => ?_
  refine (unlessRead hhierarchy h.connectByIfAny).bind fun connectBy hconnectBy => ?_
  refine (Gives.afterKeyword fun _ => h.orderBy).bind fun orderBy horderBy => ?_
  refine h.limit.bind fun limit hlimit => ?_
  refine .pure (Dialect.confines_node.2 ?_)
  obtain ⟨hhints, hhintsHeld⟩ := forall₂_and.1 hhints
  obtain ⟨htop, htopHeld⟩ := forall₂_and.1 htop
  obtain ⟨hinto, hintoHeld⟩ := forall₂_and.1 hinto
  obtain ⟨hconnectBy, hconnectByHeld⟩ := forall₂_and.1 hconnectBy
  obtain ⟨horderBy, horderByHeld⟩ := forall₂_and.1 horderBy
  refine ⟨?_, ?_⟩
  · simpa [Node.specialities, SelectQuery.specialities, and_assoc] using
      ⟨hhints, hoption, htop, hinto, hconnectBy, horderBy⟩
  · simpa [Node.held, SelectQuery.held, and_assoc] using
      ⟨hhintsHeld, htopHeld, hcolumns, hintoHeld, hsource, hcondition, hgroupBy, hconnectByHeld,
        horderByHeld, hlimit⟩

omit h in
theorem setOp : d.Gives (fun op? => ∀ op ∈ op?, d.Has op.specialities) Level.setOp := by
  refine .branch .accept ?_ ?_
  · refine .branch .accept (.pureSome AllOf.nil) ?_
    exact .after .accept fun _ => .pureSome AllOf.nil
  refine .branch .accept ?_ ?_
  · refine .after .accept fun all => ?_
    exact .pureSome (by cases all <;> exact AllOf.nil)
  refine .branch .accept ?_ ?_
  · refine .after .accept fun all => ?_
    exact .pureSome (by cases all <;> exact AllOf.nil)
  refine .acceptThen (fun hissues => .pureSome ?_) .pureNone
  simpa [SetOp.specialities] using Speciality.of_issues hissues rfl

theorem queryOperand : d.Gives d.Confines g.queryOperand :=
  .branch .isNext h.parenthesizedQuery h.selectQuery

theorem queryChain : d.Gives d.Confines g.queryChain := by
  refine h.queryOperand.bind fun first hfirst => ?_
  refine .loop hfirst fun left hleft => ?_
  refine setOp.bind fun op? hop => ?_
  cases op? with
  | none => exact .pure hleft
  | some op =>
      refine h.queryOperand.bind fun right hright => ?_
      refine .pure (Dialect.confines_node.2 ⟨?_, ?_⟩)
      · exact hop op rfl
      · simpa [Node.held] using ⟨hleft, hright⟩

omit h in
theorem confines_unwrap {chain : Expr} (hchain : d.Confines chain) : d.Confines (unwrap chain) := by
  unfold unwrap
  split
  · simpa [Node.held] using (Dialect.confines_node.1 hchain).2
  · exact hchain

theorem withQuery : d.Gives (fun w => d.ConfinesAll w.held) g.withQuery := by
  refine .after (.ofKept h.levels.namePart) fun name => ?_
  refine .after (.ofKept h.levels.withColumns) fun columns => ?_
  refine .after .expect fun _ => ?_
  refine .after .expect fun _ => ?_
  refine (h.below .query).bind fun query hquery => ?_
  exact .after .expect fun _ => .pure (by simpa [WithQuery.held] using hquery)

omit h in
/-- A query takes named queries in front of those that it has. -/
theorem confines_withQueries {ws : List (WithQuery Expr)} {e e' : Expr}
    (hws : d.ConfinesAll (ws.flatMap WithQuery.held)) (he : d.Confines e)
    (hwith : e.withQueries ws = .ok e') : d.Confines e' := by
  replace hwith := Expr.named_of_withQueries hwith
  induction hwith with
  | selectQuery =>
      obtain ⟨hown, hheld⟩ := Dialect.confines_node.1 he
      refine Dialect.confines_node.2 ⟨hown, ?_⟩
      simp only [Node.held, SelectQuery.held, List.flatMap_append,
        AllOf.append_iff] at hheld ⊢
      simpa [hws] using hheld
  | union =>
      obtain ⟨hown, hheld⟩ := Dialect.confines_node.1 he
      refine Dialect.confines_node.2 ⟨hown, ?_⟩
      simp only [Node.held, List.flatMap_append, AllOf.append_iff] at hheld ⊢
      exact ⟨⟨hws, hheld.1⟩, hheld.2⟩
  | @select query query' _ _ _ ih =>
      have hinner : d.Confines query := by simpa [Node.held] using (Dialect.confines_node.1 he).2
      exact .plain rfl (by simpa [Node.held] using ih hinner)

theorem query : d.Gives d.Confines g.query := by
  refine (Gives.afterKeyword fun _ => commaList h.withQuery).bind fun ws hws => ?_
  refine h.queryChain.bind fun chain hchain => ?_
  have hquery := confines_unwrap hchain
  rcases ws with _ | _ | ⟨w, ws⟩
  · exact .pure hquery
  · exact .pure hquery
  · have hlist := AllOf.flatMap_iff.2 (hws (w :: ws) rfl)
    dsimp only
    cases hwith : Expr.withQueries (w :: ws) (unwrap chain) with
    | ok e => exact .pure (confines_withQueries hlist hquery hwith)
    | error e => exact .throw

/-! ## Statements -/

theorem insert : d.Gives d.Confines g.insert := by
  refine .after .expect fun _ => ?_
  refine commentHints.bind fun hints hhints => ?_
  refine .after .accept fun _ => ?_
  refine h.tableName.bind fun table htable => ?_
  refine .after (.ofKept h.levels.insertColumns) fun columns => ?_
  obtain ⟨hown, hheld⟩ := forall₂_and.1 hhints
  have hrow : d.Gives d.ConfinesAll g.valuesRow := by
    refine .after .expect fun _ => ?_
    refine (commaList h.expression).bind fun row hrow => ?_
    exact .after .expect fun _ => .pure hrow
  refine .branch .accept ?_ ?_
  · refine (commaList hrow).bind fun rows hrows => ?_
    refine .pure (Dialect.confines_node.2 ⟨?_, ?_⟩)
    · exact Dialect.has_each.2 hown
    · simpa [Node.held, Insert.held] using ⟨hheld, htable, hrows⟩
  · refine .branch .test ?_ .refuseFor
    refine (h.below .query).bind fun query hquery => ?_
    refine .pure (Dialect.confines_node.2 ⟨?_, ?_⟩)
    · exact Dialect.has_each.2 hown
    · simpa [Node.held, Insert.held] using ⟨hheld, htable, subquery hquery⟩

theorem assignment : d.Gives d.Confines g.assignment := by
  refine h.unit.bind fun target htarget => ?_
  refine .after .expect fun _ => ?_
  refine h.expression.bind fun value hvalue => ?_
  exact .pure (binary AllOf.nil htarget hvalue)

theorem update : d.Gives d.Confines g.update := by
  refine .after .expect fun _ => ?_
  refine commentHints.bind fun hints hhints => ?_
  refine (h.below .source).bind fun table htable => ?_
  refine .after .expect fun _ => ?_
  refine (commaList h.assignment).bind fun assignments hassignments => ?_
  refine (Gives.afterKeyword fun _ => h.sources).bind fun source hsource => ?_
  refine (Gives.afterKeyword fun _ => h.expression).bind fun condition hcondition => ?_
  obtain ⟨hown, hheld⟩ := forall₂_and.1 hhints
  refine .pure (Dialect.confines_node.2 ⟨?_, ?_⟩)
  · exact Dialect.has_each.2 hown
  · simpa [Node.held, Update.held] using ⟨hheld, htable, hassignments, hsource, hcondition⟩

theorem delete : d.Gives d.Confines g.delete := by
  refine .after .expect fun _ => ?_
  refine commentHints.bind fun hints hhints => ?_
  refine .after .accept fun isFrom => ?_
  refine (h.below .source).bind fun table htable => ?_
  have hfrom : d.Gives (fun e? => ∀ e ∈ e?, d.Confines e) (g.fromUnless isFrom) := by
    cases isFrom with
    | true => exact .pureNone
    | false => exact .afterKeyword fun _ => h.sources
  refine hfrom.bind fun source hsource => ?_
  refine (Gives.afterKeyword fun _ => h.expression).bind fun condition hcondition => ?_
  obtain ⟨hown, hheld⟩ := forall₂_and.1 hhints
  refine .pure (Dialect.confines_node.2 ⟨?_, ?_⟩)
  · exact Dialect.has_each.2 hown
  · simpa [Node.held, Delete.held] using ⟨hheld, htable, hsource, hcondition⟩

theorem statement : d.Gives d.Confines g.statement := by
  have hbody : d.Gives d.Confines g.statementBody := by
    have hquery : d.Gives d.Confines (do return g.subquery (← g.below .query)) :=
      (h.below .query).bind fun query hquery => .pure (subquery hquery)
    refine .after Gives.peekType.keeps fun next => ?_
    cases next with
    | none => exact .throw
    | some type =>
        cases type with
        | lparen => exact hquery
        | keyword word =>
            cases word with
            | SELECT | WITH => exact hquery
            | INSERT => exact h.insert
            | UPDATE => exact h.update
            | DELETE => exact h.delete
            | _ => exact .refuseFound
        | _ => exact .refuseFound
  refine hbody.bind fun e he => ?_
  refine .after .accept fun _ => ?_
  exact .branch .test (.pure he) .refuseFound

theorem rule (production : Production) : d.Gives d.Confines (g.rule production) := by
  cases production with
  | query => exact h.query
  | source => exact h.source
  | negation => exact h.negation
  | operand => exact h.operand
  | intervalValue => exact h.unit

end Level.Confined

/-! ## The main result -/

/-- Settings that stamp a dialect keep to this dialect on every nesting level. -/
theorem Level.confined_produce {d : Dialect} {settings : Settings}
    (hdialect : settings.tag = ⟨some d⟩)
    (levels : Nat) : Level.Confined d ⟨settings, Level.produce settings levels⟩ := by
  refine ⟨Likeness.levels_diagonal settings levels, congrArg Tag.dialect hdialect, ?_⟩
  induction levels with
  | zero => exact fun _ => .throw
  | succ levels ih =>
      have hbelow : Level.Confined d ⟨settings, Level.produce settings levels⟩ :=
        ⟨Likeness.levels_diagonal settings levels, congrArg Tag.dialect hdialect, ih⟩
      exact fun production => .nested (hbelow.rule production)

namespace Dialect

/-- A statement that is read in a dialect has at no depth a construct that the dialect does not
have. -/
theorem parse_confined {d : Dialect} {text : String} {parsed : Parsed}
    (hparse : d.parse text = .ok parsed) :
    ∀ node ∈ parsed.statement.everyNode, ∀ s ∈ node.toNode.specialities, d ∈ s.dialects := by
  obtain ⟨normalized, c, hnormalize, hread⟩ := exists_of_parse hparse
  have hlevel : (Level.atDepth d.settings 0).Confined d := Level.confined_produce rfl _
  have hissues : d.IssuesAhead (Cursor.start normalized.tokens) := d.issues_normalize hnormalize
  have hconfines : d.Confines parsed.statement := (hlevel.statement _ _ _ hissues hread).1
  exact List.forall_mem_flatMap.1 hconfines

/-- A query with a hint, an option, a link, a hierarchy, a pivot and an interval. -/
def oracleOnly : String :=
  "SELECT /*+ h */ UNIQUE INTERVAL '1' DAY FROM t@l PIVOT (f(a) FOR b IN (1)) CONNECT BY c " ++
    "ORDER SIBLINGS BY e MINUS SELECT 1 FROM t"

theorem parse_confined_oracleOnly :
    ∃ parsed, oracle.parse oracleOnly = .ok parsed ∧
      parsed.statement.specialities =
        [.minus, .statementHint, .unique, .connectBy, .siblings, .interval, .pivot, .link] ∧
      ∀ node ∈ parsed.statement.everyNode, ∀ s ∈ node.toNode.specialities, oracle ∈ s.dialects := by
  have hreads : (match oracle.parse oracleOnly with
    | .ok parsed => decide (parsed.statement.specialities =
        [.minus, .statementHint, .unique, .connectBy, .siblings, .interval, .pivot, .link])
    | .error _ => false) = true := by
    decide +kernel
  cases hparse : oracle.parse oracleOnly with
  | error e =>
      rw [hparse] at hreads
      cases hreads
  | ok parsed =>
      rw [hparse] at hreads
      exact ⟨parsed, rfl, of_decide_eq_true hreads, parse_confined hparse⟩

end Dialect

end SqlTree

import SqlTree.Proofs.Refusing.Expression
import SqlTree.Proofs.WellFormed.Statement

/-!
# Queries and statements are accountable

The remaining rules, and the productions tied together.  Named queries can always be put in front
of what they are read before, since that is well formed; so no promise is broken there.  Main
statement: however a statement that has tokens is refused, the error is met where the reading then
stands (`Settings.metAt_of_statement`).
-/

namespace SqlTree

open SqlTree.Parser SqlTree.Parser.Accountable

/-- Queries can be named in front of a query. -/
theorem Expr.exists_withQueries (ws : List (WithQuery Expr)) {e : Expr} (he : WellFormed .query e) :
    ∃ e', e.withQueries ws = .ok e' := by
  obtain ⟨n⟩ := e
  have hadmits := he.admits_toNode
  cases n with
  | selectQuery | union => exact ⟨_, rfl⟩
  | _ => exact hadmits.elim

namespace Level.AccountableBelow

variable {g : Level} (h : g.AccountableBelow)

include h

/-! ## Row limits -/

omit h in
theorem rowsWord : Accountable Level.rowsWord := by
  refine .branch .accept .pure ?_
  exact .branch .acceptWord .pure .refuseFor

theorem limitOffset : Accountable g.limitOffset := by
  refine .branch .accept ?_ .pure
  refine h.additive.bind fun _ => ?_
  refine .branch .accept h.additive.returns ?_
  exact .branch .acceptWord h.additive.returns .pure

theorem fetch (ordinal : Keyword) (other : String) (wanted : Wanted) :
    Accountable (g.fetch ordinal other wanted) := by
  have heither : Accountable (Level.acceptEither ordinal other) := .branch .accept .pure .acceptWord
  refine .branch .accept ?_ .pure
  refine .branch heither ?_ .refuseFor
  refine h.additive.bind fun _ => ?_
  exact rowsWord.bind fun _ => .returns .expect

theorem offsetFetch : Accountable g.offsetFetch := by
  refine .branch .accept ?_ .pure
  refine h.additive.bind fun _ => ?_
  refine rowsWord.bind fun _ => ?_
  exact (h.fetch .NEXT "FIRST" .nextOrFirst).returns

theorem fetchFirst : Accountable g.fetchFirst := by
  have hrows : Accountable g.offsetRows := by
    refine .branch .acceptWord ?_ .pure
    exact h.additive.bind fun _ => rowsWord.returns
  refine hrows.bind fun _ => ?_
  exact (h.fetch .FIRST "NEXT" .firstOrNext).returns

omit h in
theorem rowsWordIfAny : Accountable Level.rowsWordIfAny :=
  .branch .acceptWord .pure (.returns .acceptWord)

omit h in
theorem acceptUnlessRead (read : Option Expr) (word : Keyword) :
    Accountable (Level.acceptUnlessRead read word) := by
  unfold Level.acceptUnlessRead
  split
  case isTrue => exact .accept
  case isFalse => exact .pure

theorem limitOrOffset (range : RowRange) : Accountable (g.limitOrOffset range) := by
  refine .branch (acceptUnlessRead _ _) ?_ ?_
  · exact .branch .accept .pure h.additive.returns
  · refine .branch (acceptUnlessRead _ _) ?_ .pure
    exact h.additive.bind fun _ => rowsWordIfAny.returns

theorem rowRange (style : Option LimitStyle) : Accountable (g.rowRange style) := by
  match style with
  | some .limitOffset => exact h.limitOffset
  | some .offsetFetch => exact h.offsetFetch
  | some .fetchFirst => exact h.fetchFirst
  | some .limitAndOffset => exact .loop h.limitOrOffset
  | none => exact .pure

theorem limit : Accountable g.limit := by
  refine (h.rowRange _).bind fun range => ?_
  split <;> exact .pure

/-! ## Sources -/

theorem selectItem : Accountable g.selectItem := by
  refine h.expression.bind fun _ => ?_
  exact (aliasName g).returns

omit h in
theorem tableOf (g : Level) (path : NamePath) : Accountable (g.tableOf path) := by
  obtain ⟨last, before⟩ := path
  match before with
  | [] => exact .pure
  | [_] => exact .pure
  | [_, _] => exact .pure
  | _ :: _ :: _ :: _ => exact .refuse fun _ => trivial

omit h in
theorem tablePath (g : Level) : Accountable g.tablePath :=
  .branch .test (namePath g) .refuseFor

omit h in
theorem tableName (g : Level) : Accountable g.tableName := by
  refine (tablePath g).bind fun path => ?_
  exact (tableOf g path).returns

omit h in
theorem link (g : Level) : Accountable g.link := by
  unfold Level.link
  split
  case isTrue =>
    refine .branch .accept ?_ .pure
    refine (namePart g).bind fun _ => ?_
    refine .map (.loop fun _ => ?_)
    exact .branch .accept (namePart g).returns .pure
  case isFalse => exact .pure

theorem tableHints : Accountable g.tableHints := by
  refine .branch .test ?_ .pure
  refine .bind .take fun _ => ?_
  refine .bind .take fun _ => ?_
  exact .bind (.commaList h.unit) fun _ => .returns .expect

theorem namedSource : Accountable g.namedSource := by
  refine (tablePath g).bind fun path => ?_
  refine .branch .isNext ?_ ?_
  · refine (h.call path).bind fun _ => ?_
    exact (aliasName g).returns
  · refine (tableOf g path).bind fun _ => ?_
    refine (link g).bind fun _ => ?_
    exact (aliasName g).bind fun _ => h.tableHints.returns

theorem pivot (source : Expr) : Accountable (g.pivot source) := by
  refine .bind .expect fun _ => ?_
  refine .bind .expect fun _ => ?_
  refine (namePart g).bind fun name => ?_
  refine (h.call ⟨name, []⟩).bind fun _ => ?_
  refine .branch .acceptWord ?_ .refuseFor
  refine h.additive.bind fun _ => ?_
  refine .bind .expect fun _ => ?_
  refine .bind .expect fun _ => ?_
  refine .bind (.commaList h.selectItem) fun _ => ?_
  refine .bind .expect fun _ => ?_
  refine .bind .expect fun _ => ?_
  exact (aliasName g).returns

omit h in
theorem joinKind : Accountable Level.joinKind := by
  refine .bind .peekType fun next => ?_
  cases next with
  | none => exact .pure
  | some type =>
      cases type with
      | keyword word =>
          cases word with
          | INNER => exact .returns .take
          | LEFT | RIGHT | FULL => exact .bind .take fun _ => .returns .accept
          | _ => exact .pure
      | _ => exact .pure

theorem join (left : Expr) : Accountable (g.join left) := by
  refine .branch .accept (h .source).returns ?_
  refine .branch .accept ?_ ?_
  · exact .bind .expect fun _ => (h .source).returns
  · refine joinKind.bind fun kind => ?_
    cases kind with
    | none => exact .pure
    | some kind =>
        refine .bind .expect fun _ => ?_
        refine (h .source).bind fun _ => ?_
        exact .bind .expect fun _ => h.expression.returns

theorem sources : Accountable g.sources := by
  have hjoins : ∀ n left, Accountable (g.joinsFrom n left) := by
    intro n
    induction n with
    | zero => exact fun _ => .throw fun _ => trivial
    | succ n ih =>
        intro left
        refine (h.join left).bind fun joined => ?_
        cases joined with
        | none => exact .pure
        | some joined => exact ih joined
  exact (h .source).bind (hjoins _)

theorem plainSource : Accountable g.plainSource := by
  refine .branch .isNext ?_ h.namedSource
  refine .branch .test ?_ ?_
  · refine .bind .take fun _ => ?_
    refine (h .query).bind fun _ => ?_
    refine .bind .expect fun _ => ?_
    exact (aliasName g).returns
  · refine .bind .take fun _ => ?_
    exact h.sources.bind fun _ => .returns .expect

theorem source : Accountable g.source := by
  refine h.plainSource.bind fun _ => ?_
  refine .loop fun source => ?_
  exact .branch .isNext (h.pivot source).returns .pure

/-! ## Queries -/

omit h in
theorem commentHints (g : Level) : Accountable g.commentHints := by
  refine .returns (.loop fun _ => ?_)
  exact .branch .isNext (.bind .take fun _ => .pure) .pure

omit h in
theorem rowOption : Accountable Level.rowOption := by
  refine .branch .accept .pure ?_
  refine .branch .accept .pure ?_
  exact .branch .accept .pure .pure

theorem top : Accountable g.top := by
  have hcount : Accountable g.topCount := by
    refine .branch .accept ?_ (.returns .expect)
    exact h.expression.bind fun _ => .returns .expect
  have hties : Accountable Level.acceptWithTies := by
    refine .branch .test ?_ .pure
    exact .bind .take fun _ => .returns .take
  refine hcount.bind fun _ => ?_
  exact .bind .acceptWord fun _ => hties.returns

theorem groupBy : Accountable g.groupBy := by
  refine .bind .expect fun _ => ?_
  refine .bind (.commaList h.expression) fun _ => ?_
  exact .returns (.afterKeyword h.expression)

theorem startWith : Accountable g.startWith := by
  refine .branch .accept ?_ .pure
  exact .bind .expect fun _ => h.expression.map

omit h in
theorem unlessRead {α : Type} (read : Option α) {p : Parser (Option α)} (hp : Accountable p) :
    Accountable (Level.unlessRead read p) := by
  unfold Level.unlessRead
  split
  case isTrue => exact .pure
  case isFalse => exact hp

theorem connectByIfAny : Accountable g.connectByIfAny := by
  refine .bind .isNext fun isStart => ?_
  refine .bind .isNext fun isConnect => ?_
  cases isStart || isConnect with
  | false => exact .pure
  | true =>
      refine .map ?_
      refine h.startWith.bind fun before => ?_
      refine .bind .expect fun _ => ?_
      refine .bind .expect fun _ => ?_
      refine .bind .accept fun _ => ?_
      refine .bind .accept fun _ => ?_
      refine h.expression.bind fun _ => ?_
      exact (unlessRead before h.startWith).returns

omit h in
theorem intoTable (g : Level) : Accountable g.intoTable := by
  unfold Level.intoTable
  split
  case isTrue => exact .afterKeyword (tableName g)
  case isFalse => exact .pure

theorem selectQuery : Accountable g.selectQuery := by
  refine .bind .expect fun _ => ?_
  refine (commentHints g).bind fun _ => ?_
  refine rowOption.bind fun _ => ?_
  refine .bind (.afterKeyword h.top) fun _ => ?_
  refine .bind (.commaList h.selectItem) fun _ => ?_
  refine (intoTable g).bind fun _ => ?_
  refine .bind (.afterKeyword h.sources) fun _ => ?_
  refine .bind (.afterKeyword h.expression) fun _ => ?_
  refine h.connectByIfAny.bind fun hierarchy => ?_
  refine .bind (.afterKeyword h.groupBy) fun _ => ?_
  refine (unlessRead hierarchy h.connectByIfAny).bind fun _ => ?_
  exact .bind (.afterKeyword h.orderBy) fun _ => h.limit.returns

theorem queryOperand : Accountable g.queryOperand :=
  .branch .isNext h.parenthesizedQuery h.selectQuery

omit h in
theorem setOp : Accountable Level.setOp := by
  refine .branch .accept ?_ ?_
  · exact .branch .accept .pure (.returns .accept)
  refine .branch .accept (.returns .accept) ?_
  refine .branch .accept (.returns .accept) ?_
  exact .branch .accept .pure .pure

theorem queryChain : Accountable g.queryChain := by
  refine h.queryOperand.bind fun _ => ?_
  refine .loop fun left => ?_
  refine setOp.bind fun op => ?_
  cases op with
  | none => exact .pure
  | some op => exact h.queryOperand.returns

theorem withQuery : Accountable g.withQuery := by
  have hcolumns : Accountable g.withColumns := by
    refine .branch .accept ?_ .pure
    exact .bind (.commaList (namePart g)) fun _ => .returns .expect
  refine (namePart g).bind fun _ => ?_
  refine hcolumns.bind fun _ => ?_
  refine .bind .expect fun _ => ?_
  refine .bind .expect fun _ => ?_
  exact (h .query).bind fun _ => .returns .expect

/-- The chain is a query to which the named queries before it can be given, so nothing is thrown. -/
theorem query (hforms : g.FormsBelow) : Accountable g.query := by
  refine .bind (.afterKeyword (.commaList h.withQuery)) fun ws c e d => ?_
  refine bindAt (h.queryChain c) fun chain c' hread => ?_
  have hquery := FormsBelow.query_unwrap (hforms.queryChain c chain c' trivial hread)
  match ws with
  | none => exact Accountable.pure c'
  | some [] => exact Accountable.pure c'
  | some (w :: ws) =>
      obtain ⟨query, hwith⟩ := Expr.exists_withQueries (w :: ws) hquery
      simp only [hwith]
      exact Accountable.pure c'

/-! ## Statements -/

theorem insert : Accountable g.insert := by
  have hnames : Accountable g.insertColumns := by
    refine .branch .test ?_ .pure
    refine .bind .take fun _ => ?_
    exact .bind (.commaList (namePart g)) fun _ => .returns .expect
  have hrow : Accountable g.valuesRow := by
    refine .bind .expect fun _ => ?_
    exact .bind (.commaList h.expression) fun _ => .returns .expect
  refine .bind .expect fun _ => ?_
  refine (commentHints g).bind fun _ => ?_
  refine .bind .accept fun _ => ?_
  refine (tableName g).bind fun _ => ?_
  refine hnames.bind fun _ => ?_
  refine .branch .accept (.returns (.commaList hrow)) ?_
  exact .branch .test (h .query).returns .refuseFor

theorem update : Accountable g.update := by
  have hassignment : Accountable g.assignment := by
    refine h.unit.bind fun _ => ?_
    exact .bind .expect fun _ => h.expression.returns
  refine .bind .expect fun _ => ?_
  refine (commentHints g).bind fun _ => ?_
  refine (h .source).bind fun _ => ?_
  refine .bind .expect fun _ => ?_
  refine .bind (.commaList hassignment) fun _ => ?_
  refine .bind (.afterKeyword h.sources) fun _ => ?_
  exact .returns (.afterKeyword h.expression)

theorem delete : Accountable g.delete := by
  have hfrom : ∀ isFrom, Accountable (g.fromUnless isFrom) := by
    intro isFrom
    cases isFrom with
    | true => exact .pure
    | false => exact .afterKeyword h.sources
  refine .bind .expect fun _ => ?_
  refine (commentHints g).bind fun _ => ?_
  refine .bind .accept fun isFrom => ?_
  refine (h .source).bind fun _ => ?_
  refine (hfrom isFrom).bind fun _ => ?_
  exact .returns (.afterKeyword h.expression)

/-- Where there is something to read, that there is nothing to read is no error. -/
theorem statementBody {c : Cursor} (hahead : c.ahead ≠ []) :
    ∀ e d, g.statementBody c = .error e d → e.MetAt d := by
  have hquery : Accountable (do return g.subquery (← g.below .query)) :=
    (h .query).returns
  intro e d
  refine bindAt (Accountable.peekType c) fun next c' hpeek => ?_
  have hsome : next ≠ none := by
    obtain ⟨token, tokens, htokens⟩ := List.exists_cons_of_ne_nil hahead
    rw [Parser.peekType, Cursor.nextType_of_ahead htokens] at hpeek
    cases hpeek
    exact Option.some_ne_none _
  refine (?_ : Accountable _) c'
  cases next with
  | none => exact (hsome rfl).elim
  | some type =>
      cases type with
      | lparen => exact hquery
      | keyword word =>
          cases word with
          | SELECT | WITH => exact hquery
          | INSERT => exact h.insert
          | UPDATE => exact h.update
          | DELETE => exact h.delete
          | _ => exact .refuseFound fun _ => rfl
      | _ => exact .refuseFound fun _ => rfl

theorem statement {c : Cursor} (hahead : c.ahead ≠ []) :
    ∀ e d, g.statement c = .error e d → e.MetAt d := by
  have hafter : Accountable (refuseFound .afterStatement : Parser Expr) :=
    .refuseFound fun _ => rfl
  intro e d
  refine bindAt (h.statementBody hahead) fun body c' _ => ?_
  exact Accountable.bind .accept (fun _ => .branch .test .pure hafter) c'

/-! ## Productions -/

theorem rule (hforms : g.FormsBelow) (production : Production) :
    Accountable (g.rule production) := by
  cases production with
  | query => exact h.query hforms
  | source => exact h.source
  | negation => exact h.negation
  | operand => exact h.operand
  | intervalValue => exact h.unit

end Level.AccountableBelow

/-- What holds one nesting level further down holds on a level. -/
theorem Level.accountable_produce (settings : Settings) (levels : Nat) (production : Production) :
    Accountable (Level.produce settings levels production) := by
  induction levels generalizing production with
  | zero => exact .throw fun _ => trivial
  | succ levels ih =>
      have hbelow : Level.AccountableBelow ⟨settings, Level.produce settings levels⟩ := ih
      exact .nested (hbelow.rule (Level.gives_produce settings levels) production)

/-- Whenever tokens are refused as a statement, the error is met where the reading then stands. -/
theorem Settings.metAt_of_statement {settings : Settings} {c d : Cursor} {e : Error}
    (hahead : c.ahead ≠ []) (hfails : settings.statement c = .error e d) : e.MetAt d := by
  have hbelow : Level.AccountableBelow (Level.atDepth settings c.depth) :=
    Level.accountable_produce settings (settings.maxDepth - c.depth)
  exact hbelow.statement hahead e d hfails

end SqlTree

import SqlTree.Proofs.Spending.Unit
import SqlTree.Session
import SqlTree.Tree.Fold

/-!
# What queries and statements spend

The remaining rules, and the productions tied together: on a level that keeps to an allowance each
rule does, and the level above it keeps to one that is larger by a token.  Hence caps above the
number of tokens are never met, and what is read never breaks a promise of a caller.
-/

namespace SqlTree

open SqlTree.Parser

/-- Where no queries can be named, that is what the error says. -/
theorem Expr.exists_kind_of_withQueries {ws : List (WithQuery Expr)} {e : Expr} {error : Error}
    (herror : e.withQueries ws = .error error) : ∃ kind, error = .internal (.withOn kind) := by
  induction e using Expr.induction with
  | step n ih =>
      cases n
      case select query aliasName tag =>
        rw [Expr.withQueries] at herror
        cases hquery : query.withQueries ws with
        | ok a =>
            rw [hquery] at herror
            cases herror
        | error inner =>
            rw [hquery] at herror
            cases herror
            exact ih query (List.mem_singleton.2 rfl) hquery
      case selectQuery | union => cases herror
      all_goals
        cases herror
        exact ⟨_, rfl⟩

namespace Level.KeepsTo

variable {g : Level} {a : Allowance} {φ : Cursor → Prop} {k : Nat}

/-! ## Row limits -/

theorem rowsWord : Spends a φ k (k + 1) Level.rowsWord := by
  refine .acceptThen .pure ?_
  exact .acceptWordThen .pure .refuseFor

theorem limitOffset (h : g.KeepsTo a) : Spends a φ k k g.limitOffset := by
  refine .acceptThen ?_ .pure
  refine h.additive.bind fun _ => ?_
  refine .acceptThen h.additive.returns ?_
  exact .acceptWordThen h.additive.returns .pure

theorem acceptEither {word : Keyword} {other : String} :
    Spends a φ k k (Level.acceptEither word other) :=
  .acceptThen .pure .acceptWord

theorem fetch (h : g.KeepsTo a) {ordinal : Keyword} {other : String} {wanted : Wanted} :
    Spends a φ k k (g.fetch ordinal other wanted) := by
  refine .acceptThen ?_ .pure
  refine .branch acceptEither ?_ .refuseFor
  refine h.additive.bind fun _ => ?_
  exact rowsWord.bind fun _ => Spends.expect.returns

theorem offsetFetch (h : g.KeepsTo a) : Spends a φ k k g.offsetFetch := by
  refine .acceptThen ?_ .pure
  refine h.additive.bind fun _ => ?_
  exact rowsWord.bind fun _ => h.fetch.returns

theorem offsetRows (h : g.KeepsTo a) : Spends a φ k k g.offsetRows := by
  refine .acceptWordThen ?_ .pure
  exact h.additive.bind fun _ => rowsWord.returns

theorem fetchFirst (h : g.KeepsTo a) : Spends a φ k k g.fetchFirst :=
  h.offsetRows.bind fun _ => h.fetch.returns

theorem rowsWordIfAny : Spends a φ k k Level.rowsWordIfAny :=
  .acceptWordThen .pure Spends.acceptWord.returns

theorem acceptUnlessReadThen {α : Type} {read : Option Expr} {word : Keyword} {f g : Parser α}
    (hf : Spends a (fun _ => True) (k + 1) k f) (hg : Spends a φ k k g) :
    Spends a φ k k (Level.acceptUnlessRead read word >>= fun b => if b = true then f else g) := by
  unfold Level.acceptUnlessRead
  split
  case isTrue => exact .acceptThen hf hg
  case isFalse => exact hg

theorem limitOrOffset (h : g.KeepsTo a) {range : RowRange} :
    Spends a φ k k (g.limitOrOffset range) := by
  refine acceptUnlessReadThen (.acceptThen .pure ?_) (acceptUnlessReadThen ?_ .pure)
  · exact h.additive.returns
  · exact h.additive.bind fun _ => rowsWordIfAny.returns

theorem rowRange (h : g.KeepsTo a) {style : Option LimitStyle} :
    Spends a φ k k (g.rowRange style) := by
  match style with
  | some .limitOffset => exact h.limitOffset
  | some .offsetFetch => exact h.offsetFetch
  | some .fetchFirst => exact h.fetchFirst
  | some .limitAndOffset => exact .loop fun _ => h.limitOrOffset
  | none => exact .pure

theorem limit (h : g.KeepsTo a) : Spends a φ k k g.limit := by
  refine h.rowRange.bind fun ⟨offset, rowCount⟩ => ?_
  cases offset with
  | some offset => exact .pure
  | none =>
      cases rowCount with
      | some rowCount => exact .pure
      | none => exact .pure

/-! ## Sources -/

theorem selectItem (h : g.KeepsTo a) [AtMost 1 k] :
    Spends a φ k (k + 1) g.selectItem :=
  h.expression.bind fun _ => aliasName.returns

theorem tableOf {path : NamePath} : Spends a φ k k (g.tableOf path) := by
  obtain ⟨last, before⟩ := path
  match before with
  | [] => exact .pure
  | [_] => exact .pure
  | [_, _] => exact .pure
  | _ :: _ :: _ :: _ => exact .refuse

theorem tablePath : Spends a φ k (k + 1) g.tablePath :=
  .testThen namePath .refuseFor

theorem tableName : Spends a φ k (k + 1) g.tableName :=
  tablePath.bind fun _ => tableOf.returns

theorem link : Spends a φ k k g.link := by
  unfold Level.link
  split
  case isTrue =>
    refine .acceptThen ?_ .pure
    refine namePart.bind fun _ => ?_
    refine Spends.map (.less (m := k + 2) (.loop fun _ => ?_))
    exact .acceptThen namePart.returns .pure
  case isFalse => exact .pure

theorem tableHints (h : g.KeepsTo a) : Spends a φ k k g.tableHints := by
  refine .testThen (.takeTwo (fun c hc => ?_) ?_) .pure
  · obtain ⟨behind, _ | ⟨first, _ | ⟨second, ahead⟩⟩, depth⟩ := c
    · exact absurd hc.2 (by simp [Level.startsHints, Cursor.nextType])
    · exact absurd hc.2 (by simp [Level.startsHints, Cursor.secondType])
    · simp
  · exact (h.commaList h.unit).bind fun _ => Spends.expect.returns

theorem namedSource (h : g.KeepsTo a) : Spends a φ k (k + 1) g.namedSource := by
  refine tablePath.bind fun _ => .isNextThen ?_ ?_
  · exact h.call.anywhere.bind fun _ => aliasName.returns
  · refine tableOf.bind fun _ => ?_
    refine link.bind fun _ => ?_
    exact aliasName.bind fun _ => h.tableHints.returns

theorem pivot (h : g.KeepsTo a) {source : Expr} : Spends a φ k (k + 1) (g.pivot source) := by
  refine Spends.expect.bind fun _ => ?_
  refine Spends.expect.bind fun _ => ?_
  refine namePart.bind fun _ => ?_
  refine h.call.bind fun _ => ?_
  refine .acceptWordThen ?_ .refuseFor
  refine h.additive.bind fun _ => ?_
  refine Spends.expect.bind fun _ => ?_
  refine Spends.expect.bind fun _ => ?_
  refine (h.commaList h.selectItem).bind fun _ => ?_
  refine Spends.expect.bind fun _ => ?_
  exact Spends.expect.bind fun _ => aliasName.returns

theorem joinKind : Spends a φ k k Level.joinKind := by
  refine .peekType fun next => ?_
  cases next with
  | none => exact .pure
  | some type =>
      cases type with
      | keyword word =>
          cases word with
          | INNER => exact .takeOf fun _ => .pure
          | LEFT | RIGHT | FULL => exact .takeOf fun _ => Spends.accept.returns
          | _ => exact .pure
      | _ => exact .pure

/-- Either nothing is joined, or a token is spent. -/
theorem join (h : g.KeepsTo a) {left : Expr} {c : Cursor} (hdepth : c.depth = a.depth)
    [AtMost 1 k] :
    (∃ d tokens, c.Passes tokens d ∧ g.join left c = .ok none d) ∨
      Ends a c k (k + 1) (g.join left c) := by
  have hright : ∀ {m : Nat} {joined : Expr → Expr},
      Spends a (fun _ => True) (k + 1 + m) (k + 1) (g.below .source >>= fun right =>
        pure (some (joined right))) :=
    (h.below .source).returns
  by_cases hcomma : c.nextType = some .comma
  · obtain ⟨token, rest, hahead, -⟩ := Cursor.exists_ahead_of_nextType hcomma
    rw [Level.join, branch_of_true (accept_of_next hcomma)]
    exact .inr ((hright (m := 0)).step hahead hdepth)
  rw [Level.join, branch_of_false (accept_of_not_next hcomma)]
  by_cases hcross : c.nextType = some (.keyword .CROSS)
  · obtain ⟨token, rest, hahead, -⟩ := Cursor.exists_ahead_of_nextType hcross
    rw [acceptKeyword, branch_of_true (accept_of_next hcross)]
    exact .inr ((Spends.expect.bind fun _ => hright (m := 1)).step hahead hdepth)
  rw [acceptKeyword, branch_of_false (accept_of_not_next hcross)]
  have hkind := (joinKind (a := a) (k := k)).ends hdepth
  cases hjoin : Level.joinKind c with
  | error e d =>
      rw [bind_of_error hjoin]
      rw [hjoin] at hkind
      cases hkind with
      | error hpasses hwithin => exact .inr (.error hpasses hwithin)
  | ok kind d =>
      rw [bind_of_ok hjoin]
      rw [hjoin] at hkind
      cases hkind with
      | ok hpasses hspent =>
          cases kind with
          | none => exact .inl ⟨d, _, hpasses, rfl⟩
          | some kind =>
              refine .inr (Ends.further hpasses (Ends.later ?_ hspent))
              refine Spends.ends (Spends.expect.bind fun _ => ?_) (hpasses.depth.trans hdepth)
              refine (h.below .source).bind fun _ => ?_
              exact Spends.expect.bind fun _ => h.expression.returns

/-- Joins pay for themselves. -/
theorem joinsFrom (h : g.KeepsTo a) {n i : Nat} {left : Expr} {c : Cursor} [AtMost 1 i]
    (hdepth : c.depth = a.depth) (hroom : c.ahead.length + i ≤ a.items → c.ahead.length < n) :
    Ends a c i i (g.joinsFrom n left c) := by
  induction n generalizing c i left with
  | zero =>
      refine .error (.refl c) ⟨fun _ => nofun, fun _ _ => nofun, fun hle => ?_⟩
      exact absurd (hroom hle) (Nat.not_lt_zero _)
  | succ n ih =>
      unfold Level.joinsFrom
      obtain ⟨d, tokens, hpasses, hjoin⟩ | hends :=
        show _ ∨ Ends a c i (i + 1) (g.join left c) from h.join hdepth
      · rw [bind_of_ok hjoin]
        exact .ok hpasses (by omega)
      · refine Ends.bind hends fun joined d tokens hpasses hspent => ?_
        have hlength := hpasses.length_ahead
        cases joined with
        | none => exact .ok (.refl d) (by simp)
        | some joined =>
            refine Ends.less (ih (hpasses.depth.trans hdepth) fun hle => ?_) (by omega)
            have := hroom (by omega)
            omega

theorem sources (h : g.KeepsTo a) [AtMost 1 k] : Spends a φ k (k + 1) g.sources := by
  refine (h.below .source).anywhere.bind fun _ c _ hdepth => ?_
  refine h.joinsFrom hdepth fun hle => ?_
  have := h.items
  have : 1 ≤ k := AtMost.le
  omega

theorem plainSource (h : g.KeepsTo a) : Spends a φ k (k + 1) g.plainSource := by
  refine .isNextThen ?_ h.namedSource
  refine .testThen ?_ ?_
  · refine .mono ?_ fun _ => And.left
    refine .takeOf fun _ => ?_
    refine (h.below .query).bind fun _ => ?_
    exact Spends.expect.bind fun _ => aliasName.returns
  · refine .takeOf fun _ => ?_
    exact h.sources.bind fun _ => Spends.expect.returns

theorem source (h : g.KeepsTo a) : Spends a φ k (k + 1) g.source := by
  refine h.plainSource.bind fun _ => ?_
  refine .loop fun _ => ?_
  exact .isNextThen h.pivot.anywhere.returns .pure

/-! ## Queries -/

theorem commentHints : Spends a φ k k g.commentHints := by
  refine Spends.returns (.loop fun _ => ?_)
  exact .isNextThen (.takeOf fun _ => .pure) .pure

theorem rowOption : Spends a φ k k Level.rowOption := by
  refine .acceptThen .pure ?_
  refine .acceptThen .pure ?_
  exact .acceptThen .pure .pure

theorem acceptWithTies : Spends a φ k k Level.acceptWithTies := by
  refine .testThen (.takeTwo (fun c hc => ?_) .pure) .pure
  obtain ⟨behind, _ | ⟨first, _ | ⟨second, ahead⟩⟩, depth⟩ := c
  · cases hc.2
  · cases hc.2
  · simp

theorem topCount (h : g.KeepsTo a) : Spends a φ k (k + 1) g.topCount := by
  refine .acceptThen ?_ Spends.expect.returns
  exact h.expression.bind fun _ => Spends.expect.returns

theorem top (h : g.KeepsTo a) : Spends a φ k (k + 1) g.top := by
  refine h.topCount.bind fun _ => ?_
  exact Spends.acceptWord.bind fun _ => acceptWithTies.returns

theorem groupBy (h : g.KeepsTo a) [AtMost 1 k] : Spends a φ k (k + 1) g.groupBy := by
  refine Spends.expect.bind fun _ => ?_
  refine (h.commaList h.expression).bind fun _ => ?_
  exact (Spends.afterKeyword h.expression).returns

theorem startWith (h : g.KeepsTo a) : Spends a φ k k g.startWith := by
  refine .acceptThen ?_ .pure
  exact Spends.expect.bind fun _ => h.expression.map.less

theorem unlessRead {α : Type} {read : Option α} {p : Parser (Option α)} (hp : Spends a φ k k p) :
    Spends a φ k k (Level.unlessRead read p) := by
  unfold Level.unlessRead
  split
  case isTrue => exact .pure
  case isFalse => exact hp

theorem connectBy (h : g.KeepsTo a) : Spends a φ k (k + 1) g.connectBy := by
  refine h.startWith.bind fun _ => ?_
  refine Spends.expect.bind fun _ => ?_
  refine Spends.expect.bind fun _ => ?_
  refine Spends.accept.bind fun _ => ?_
  refine Spends.accept.bind fun _ => ?_
  refine h.expression.bind fun _ => ?_
  exact (unlessRead h.startWith).returns

theorem connectByIfAny (h : g.KeepsTo a) : Spends a φ k k g.connectByIfAny := by
  refine Spends.isNext.bind fun isStart => ?_
  refine Spends.isNext.bind fun isConnect => ?_
  cases isStart || isConnect with
  | true => exact h.connectBy.map.less
  | false => exact .pure

theorem intoTable : Spends a φ k k g.intoTable := by
  unfold Level.intoTable
  split
  case isTrue => exact .afterKeyword tableName
  case isFalse => exact .pure

/-- The lists right behind the first keyword of a query need room for one more item. -/
theorem selectQuery (h : g.KeepsTo a) (hitems : a.items ≤ g.settings.maxIterations) :
    Spends a φ k (k + 1) g.selectQuery := by
  have hcolumns : Spends a (fun _ => True) (k + 1) (k + 1 + 1)
      (g.commaList .selectList g.selectItem) := .commaList h.selectItem (by omega)
  refine Spends.expect.bind fun _ => ?_
  refine commentHints.bind fun _ => ?_
  refine rowOption.bind fun _ => ?_
  refine (Spends.afterKeyword h.top).bind fun _ => ?_
  refine hcolumns.bind fun _ => ?_
  refine intoTable.bind fun _ => ?_
  refine (Spends.afterKeyword h.sources).bind fun _ => ?_
  refine (Spends.afterKeyword h.expression).bind fun _ => ?_
  refine h.connectByIfAny.bind fun _ => ?_
  refine (Spends.afterKeyword h.groupBy).bind fun _ => ?_
  refine (unlessRead h.connectByIfAny).bind fun _ => ?_
  exact (Spends.afterKeyword h.orderBy).bind fun _ => h.limit.returns

theorem queryOperand (h : g.KeepsTo a) (hitems : a.items ≤ g.settings.maxIterations) :
    Spends a φ k (k + 1) g.queryOperand :=
  .isNextThen h.parenthesizedQuery.anywhere (h.selectQuery hitems)

theorem setOp : Spends a φ k k Level.setOp := by
  refine .acceptThen (.acceptThen .pure Spends.accept.returns) ?_
  refine .acceptThen Spends.accept.returns ?_
  refine .acceptThen Spends.accept.returns ?_
  exact .acceptThen .pure .pure

theorem unionTurn (h : g.KeepsTo a) (hitems : a.items ≤ g.settings.maxIterations) {left : Expr} :
    Spends a φ k k (g.unionTurn left) := by
  refine setOp.bind fun op => ?_
  cases op with
  | none => exact .pure
  | some op => exact (h.queryOperand hitems).returns

theorem queryChain (h : g.KeepsTo a) (hitems : a.items ≤ g.settings.maxIterations) :
    Spends a φ k (k + 1) g.queryChain := by
  refine (h.queryOperand hitems).bind fun _ => ?_
  exact .loop fun _ => h.unionTurn hitems

theorem withColumns (h : g.KeepsTo a) [AtMost 1 k] : Spends a φ k k g.withColumns := by
  refine .acceptThen ?_ .pure
  exact (h.commaList namePart).bind fun _ => Spends.expect.returns

theorem withQuery (h : g.KeepsTo a) : Spends a φ k (k + 1) g.withQuery := by
  refine namePart.bind fun _ => ?_
  refine h.withColumns.bind fun _ => ?_
  refine Spends.expect.bind fun _ => ?_
  refine Spends.expect.bind fun _ => ?_
  exact (h.below .query).bind fun _ => Spends.expect.returns

theorem query (h : g.KeepsTo a) (hitems : a.items ≤ g.settings.maxIterations) :
    Spends a φ k (k + 1) g.query := by
  have hqueries : Spends a (fun _ => True) (k + 1) (k + 1 + 1)
      (g.commaList .withList g.withQuery) := .commaList h.withQuery (by omega)
  refine (Spends.afterKeyword hqueries).bind fun ws => ?_
  refine (h.queryChain hitems).bind fun chain => ?_
  match ws with
  | none => exact .pure
  | some [] => exact .pure
  | some (w :: ws) =>
      dsimp only
      cases hquery : (Level.unwrap chain).withQueries (w :: ws) with
      | ok query => exact .pure
      | error e =>
          obtain ⟨kind, rfl⟩ := Expr.exists_kind_of_withQueries hquery
          refine .throw fun tokens =>
            ⟨fun cause hcause => ⟨kind, ?_⟩, fun _ => nofun, fun _ _ => nofun⟩
          cases hcause
          rfl

/-! ## Statements -/

theorem insertColumns (h : g.KeepsTo a) [AtMost 1 k] :
    Spends a φ k k g.insertColumns := by
  have hlist : Spends a (fun c => c.nextType = some .lparen) k k (Parser.take >>= fun _ => do
      let columns ← g.commaList .insertColumns g.namePart
      let _ ← expect .rparen
      pure columns) := by
    refine .takeOf fun _ => ?_
    exact (h.commaList namePart).bind fun _ => Spends.expect.returns
  refine .testThen ?_ .pure
  refine .mono hlist fun c hc => ?_
  exact eq_of_beq (Bool.and_eq_true_iff.1 hc.2).1

theorem valuesRow (h : g.KeepsTo a) [AtMost 1 k] : Spends a φ k (k + 1) g.valuesRow := by
  refine Spends.expect.bind fun _ => ?_
  exact (h.commaList h.expression).bind fun _ => Spends.expect.returns

theorem insert (h : g.KeepsTo a) : Spends a φ k (k + 1) g.insert := by
  refine Spends.expect.bind fun _ => ?_
  refine commentHints.bind fun _ => ?_
  refine Spends.accept.bind fun _ => ?_
  refine tableName.bind fun _ => ?_
  refine h.insertColumns.bind fun _ => ?_
  refine .acceptThen (h.commaList h.valuesRow).returns ?_
  exact .testThen (h.below .query).anywhere.returns .refuseFor

theorem assignment (h : g.KeepsTo a) : Spends a φ k (k + 1) g.assignment := by
  refine h.unit.bind fun _ => ?_
  exact Spends.expect.bind fun _ => h.expression.returns

theorem update (h : g.KeepsTo a) : Spends a φ k (k + 1) g.update := by
  refine Spends.expect.bind fun _ => ?_
  refine commentHints.bind fun _ => ?_
  refine (h.below .source).bind fun _ => ?_
  refine Spends.expect.bind fun _ => ?_
  refine (h.commaList h.assignment).bind fun _ => ?_
  refine (Spends.afterKeyword h.sources).bind fun _ => ?_
  exact (Spends.afterKeyword h.expression).returns

theorem fromUnless (h : g.KeepsTo a) {isFrom : Bool} : Spends a φ k k (g.fromUnless isFrom) := by
  cases isFrom with
  | true => exact .pure
  | false => exact .afterKeyword h.sources

theorem delete (h : g.KeepsTo a) : Spends a φ k (k + 1) g.delete := by
  refine Spends.expect.bind fun _ => ?_
  refine commentHints.bind fun _ => ?_
  refine Spends.accept.bind fun _ => ?_
  refine (h.below .source).bind fun _ => ?_
  refine h.fromUnless.bind fun _ => ?_
  exact (Spends.afterKeyword h.expression).returns

theorem statementBody (h : g.KeepsTo a) [AtMost 1 k] :
    Spends a φ k (k + 1) g.statementBody := by
  have hquery : ∀ {ψ : Cursor → Prop}, Spends a ψ k (k + 1)
      (g.below .query >>= fun query => pure (g.subquery query)) :=
    (h.below .query).anywhere.returns
  refine .peekType fun next => ?_
  cases next with
  | none => exact .throw fun _ => .plain (fun _ => nofun) (fun _ => nofun) fun _ _ => nofun
  | some type =>
      cases type with
      | lparen => exact hquery
      | keyword word =>
          cases word with
          | SELECT | WITH => exact hquery
          | INSERT => exact h.insert
          | UPDATE => exact h.update
          | DELETE => exact h.delete
          | _ => exact .refuseFound
      | _ => exact .refuseFound

theorem statement (h : g.KeepsTo a) [AtMost 1 k] :
    Spends a φ k (k + 1) g.statement := by
  refine h.statementBody.bind fun _ => ?_
  refine Spends.accept.bind fun _ => ?_
  exact .testThen .pure .refuseFound

/-! ## Productions -/

theorem rule (h : g.KeepsTo a) (hitems : a.items ≤ g.settings.maxIterations)
    (production : Production) [hk : AtMost production.cost (k + 1)] :
    Spends a φ k (k + 1) (g.rule production) := by
  cases production with
  | query => exact h.query hitems
  | source => exact h.source
  | negation =>
      have hone : AtMost 1 k := ⟨Nat.le_of_succ_le_succ hk.le⟩
      exact h.negation
  | operand => exact h.operand
  | intervalValue => exact h.unit

end Level.KeepsTo

/-- With enough levels left a level keeps to an allowance. -/
theorem Level.keeps_produce (settings : Settings) {levels : Nat} {a : Allowance}
    (hlevels : a.levels ≤ levels) (hitems : a.items ≤ settings.maxIterations + 1) :
    Level.KeepsTo ⟨settings, Level.produce settings levels⟩ a := by
  induction levels generalizing a with
  | zero =>
      refine ⟨fun production k hk => .tooDeep ?_, hitems⟩
      have := Nat.le_trans production.cost_pos hk.le
      omega
  | succ levels ih =>
      refine ⟨fun production k hk => ?_, hitems⟩
      obtain ⟨k, rfl⟩ := Nat.exists_eq_add_of_le' (Nat.le_trans production.cost_pos hk.le)
      refine .nested (Level.KeepsTo.rule (ih ?_ ?_) ?_ production)
      · exact Nat.sub_le_iff_le_add.2 hlevels
      · exact Nat.le_trans (Nat.sub_le _ _) hitems
      · exact Nat.sub_le_iff_le_add.2 hitems

/-- What caps allow from a nesting level on. -/
def Settings.allowance (settings : Settings) (depth : Nat) : Allowance :=
  ⟨depth, settings.maxDepth - depth, settings.maxIterations + 1⟩

/-- However an expression or a statement is read, tokens are passed, at least one where it is read
to its end, and the errors are those that the caps allow. -/
theorem Settings.ends_read (settings : Settings) (reading : Reading) (c : Cursor) :
    Ends (settings.allowance c.depth) c 1 2 (settings.read reading c) := by
  have hkeeps : (Level.atDepth settings c.depth).KeepsTo (settings.allowance c.depth) :=
    Level.keeps_produce settings (Nat.le_refl _) (Nat.le_refl _)
  cases reading with
  | expression => exact hkeeps.expression.ends rfl
  | statement => exact hkeeps.statement.ends rfl

end SqlTree

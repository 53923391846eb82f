import SqlTree.Proofs.RowLimit.Clauses
import SqlTree.Proofs.SetChain

/-!
# Repeated row limits

Where `LIMIT` and `OFFSET` may stand in either order, neither is read again once it has said
something.  What is left over behind the last block of a query is not read by anything else, so
that the statement is refused.  Only `LIMIT ALL` can be repeated.  Main statement:
`Settings.limit_repetition`.
-/

namespace SqlTree

open SqlTree.Parser

/-- The clause that a row range is, if it says anything. -/
def RowRange.toLimit (tag : Tag) : RowRange → Option (Limit Expr)
  | ⟨none, none⟩ => none
  | ⟨offset, rowCount⟩ => some ⟨offset, rowCount, tag⟩

/-- `LIMIT` or `OFFSET` stands at the cursor. -/
def Cursor.BeforeLimit (c : Cursor) : Prop :=
  c.nextType = some (.keyword .LIMIT) ∨ c.nextType = some (.keyword .OFFSET)

theorem Cursor.BeforeLimit.ne {c : Cursor} {type : TokenType} (h : c.BeforeLimit)
    (hlimit : type ≠ .keyword .LIMIT) (hoffset : type ≠ .keyword .OFFSET) :
    c.nextType ≠ some type := by
  rintro hnext
  rcases h with h | h
  · exact hlimit (Option.some.inj (hnext.symm.trans h))
  · exact hoffset (Option.some.inj (hnext.symm.trans h))

namespace Level

variable {g : Level} {c d : Cursor} {e : Expr}

/-! ## Blocks end with their row range -/

theorem limit_eq_ok {limit : Option (Limit Expr)}
    (hstyle : g.settings.limitStyle = some .limitAndOffset) (hread : g.limit c = .ok limit d) :
    ∃ range, g.limitAndOffset c = .ok range d ∧ limit = range.toLimit g.tag := by
  unfold Level.limit at hread
  rw [hstyle] at hread
  obtain ⟨⟨offset, rowCount⟩, d', hrange, hlimit⟩ := bind_eq_ok.1 hread
  cases offset <;> cases rowCount <;> cases hlimit <;> exact ⟨_, hrange, rfl⟩

theorem selectQuery_eq_ok (hstyle : g.settings.limitStyle = some .limitAndOffset)
    (hread : g.selectQuery c = .ok e d) :
    ∃ query c' range, e = .node (.selectQuery query) ∧ g.limitAndOffset c' = .ok range d ∧
      query.limit = range.toLimit g.tag := by
  unfold selectQuery at hread
  -- the twelve clauses before the row limit
  iterate 12 obtain ⟨_, _, -, hread⟩ := bind_eq_ok.1 hread
  obtain ⟨limit, d', hlimit, hread⟩ := bind_eq_ok.1 hread
  obtain ⟨range, hrange, rfl⟩ := limit_eq_ok hstyle hlimit
  cases hread
  exact ⟨_, _, range, rfl, hrange, rfl⟩

/-! ## What is left over -/

/-- A statement is refused where something else than a semicolon stands behind it. -/
theorem statement_of_leftOver (hbody : g.statementBody c = .ok e d) (hnext : d.BeforeLimit) :
    g.statement c = .error (d.error (.afterStatement d.found)) d := by
  have hskip : accept .semicolon d = .ok false d := accept_of_not_next (hnext.ne nofun nofun)
  have hmore : test (fun c => c.ahead.isEmpty) d = .ok false d := by
    obtain ⟨behind, _ | ⟨token, tokens⟩, depth⟩ := d
    · rcases hnext with hnext | hnext <;> cases hnext
    · rfl
  unfold statement
  rw [bind_of_ok hbody, bind_of_ok hskip, branch_of_false hmore]
  rfl

theorem statementBody_of_query
    (hnext : c.nextType = some (.keyword .SELECT) ∨ c.nextType = some (.keyword .WITH) ∨
      c.nextType = some .lparen)
    (hread : g.below .query c = .ok e d) : g.statementBody c = .ok (g.subquery e) d := by
  have hpeek : peekType c = .ok c.nextType c := rfl
  unfold statementBody
  rw [bind_of_ok hpeek]
  rcases hnext with hnext | hnext | hnext <;> rw [hnext] <;> exact bind_of_ok hread _

theorem nextType_of_chain {ws : List (WithQuery Expr)} {first : Expr} {more : List (SetOp × Expr)}
    (h : g.Chain c ws first more d) :
    c.nextType = some (.keyword .SELECT) ∨ c.nextType = some (.keyword .WITH) ∨
      c.nextType = some .lparen := by
  obtain ⟨hws, hfirst, -⟩ := h
  cases hws with
  | none =>
      rcases nextType_of_queryOperand hfirst with hopen | hselect
      · exact .inr (.inr hopen)
      · exact .inl hselect
  | list hwith => exact .inr (.inl hwith)

end Level

namespace Settings

variable {settings : Settings} {c d : Cursor} {ws : List (WithQuery Expr)} {first : Expr}
  {more : List (SetOp × Expr)}

/-- Where a chain of operands stands one nesting level further down, some query is read. -/
theorem exists_query_of_chain
    (h : (Level.atDepth settings (c.depth + 1)).Chain
      { c with depth := c.depth + 1 } ws first more d) :
    ∃ tree, settings.query c = .ok tree { d with depth := c.depth } := by
  have hforms : (Level.atDepth settings (c.depth + 1)).FormsBelow := Level.gives_produce settings _
  obtain @⟨c', d', hws, hfirst, hmore⟩ := h
  have hchain := Level.queryChain_of_operands rfl hfirst hmore
  have hformed := Level.FormsBelow.query_unwrap (hforms.queryChain _ _ _ trivial hchain)
  obtain ⟨tree, hfront⟩ := hformed.exists_inFront ws
  exact ⟨tree, query_of_inFront (.intro hws hfirst hmore) hfront⟩

/-- Where `LIMIT` and `OFFSET` may stand in either order, just those clauses are read of which
none repeats an earlier one, `LIMIT ALL` apart; `LIMIT` is left over only behind a number of rows,
and `OFFSET` only behind a number of rows to skip.  A block ends with these clauses.  A statement
is refused where one of the two words is left over behind what it consists of, in particular
behind the last operand of its query. -/
theorem limit_repetition (settings : Settings)
    (hstyle : settings.limitStyle = some .limitAndOffset) :
    (∀ c range d, (Level.atDepth settings c.depth).limitAndOffset c = .ok range d ↔
      ∃ clauses, (Level.atDepth settings c.depth).ReadsClauses c clauses d ∧
        clauses.Pairwise RangeClause.Allows ∧ range = .ofClauses clauses ∧ range.StopsAt d) ∧
    (∀ c e d, (Level.atDepth settings c.depth).selectQuery c = .ok e d →
      ∃ query c' range, e = .node (.selectQuery query) ∧
        (Level.atDepth settings c.depth).limitAndOffset c' = .ok range d ∧
        query.limit = range.toLimit settings.tag) ∧
    (∀ c e d, (Level.atDepth settings c.depth).statementBody c = .ok e d → d.BeforeLimit →
      settings.statement c = .error (d.error (.afterStatement d.found)) d) ∧
    ∀ c ws first more d,
      (Level.atDepth settings (c.depth + 1)).Chain { c with depth := c.depth + 1 } ws first more d →
      d.BeforeLimit →
      settings.statement c =
        .error (d.error (.afterStatement d.found)) { d with depth := c.depth } := by
  refine ⟨?_, fun c e d => Level.selectQuery_eq_ok hstyle,
    fun c e d => Level.statement_of_leftOver, ?_⟩
  · exact fun c range d => Level.limitAndOffset_eq_ok_iff (Level.forward_additive settings c.depth)
  · intro c ws first more d hchain hnext
    obtain ⟨tree, hquery⟩ := exists_query_of_chain hchain
    have hstart := Level.nextType_of_chain hchain
    have hbody : (Level.atDepth settings c.depth).statementBody c =
        .ok ((Level.atDepth settings c.depth).subquery tree) { d with depth := c.depth } :=
      Level.statementBody_of_query hstart hquery
    exact Level.statement_of_leftOver hbody hnext

/-- The tokens of `SELECT a OFFSET 1 ROWS LIMIT 2 OFFSET 3`. -/
def repeatedOffset : List Token :=
  [.unplaced (.keyword .SELECT) "SELECT", .unplaced .identifier "a",
    .unplaced (.keyword .OFFSET) "OFFSET", .unplaced .number "1", .unplaced .identifier "ROWS",
    .unplaced (.keyword .LIMIT) "LIMIT", .unplaced .number "2",
    .unplaced (.keyword .OFFSET) "OFFSET", .unplaced .number "3"]

/-- The second `OFFSET` is left over, and the statement is refused there. -/
theorem limit_repetition_repeatedOffset :
    let d : Cursor := ⟨(repeatedOffset.take 7).reverse, repeatedOffset.drop 7, 0⟩
    Dialect.postgreSql.settings.statement (.start repeatedOffset) =
      .error (d.error (.afterStatement d.found)) d := by
  intro d
  let settings := Dialect.postgreSql.settings
  let behind (n : Nat) : Cursor := ⟨(repeatedOffset.take n).reverse, repeatedOffset.drop n, 1⟩
  obtain ⟨block, hblock⟩ : ∃ block,
      (Level.atDepth settings 1).queryOperand (behind 0) = .ok block (behind 7) := ⟨_, rfl⟩
  have hchain : (Level.atDepth settings 1).Chain (behind 0) [] block [] (behind 7) :=
    .intro .none hblock (.done (by decide))
  exact (limit_repetition settings rfl).2.2.2 (.start repeatedOffset) [] block [] (behind 7) hchain
    (.inr rfl)

/-- The tokens of `SELECT a FROM t LIMIT ALL LIMIT 5`. -/
def repeatedLimit : List Token :=
  [.unplaced (.keyword .SELECT) "SELECT", .unplaced .identifier "a",
    .unplaced (.keyword .FROM) "FROM", .unplaced .identifier "t",
    .unplaced (.keyword .LIMIT) "LIMIT", .unplaced (.keyword .ALL) "ALL",
    .unplaced (.keyword .LIMIT) "LIMIT", .unplaced .number "5"]

/-- Behind `LIMIT ALL` another `LIMIT` is taken, and the statement is read. -/
theorem not_limit_repetition_repeatedLimit :
    (∃ e, Dialect.postgreSql.settings.statement (.start repeatedLimit) =
      .ok e ⟨repeatedLimit.reverse, [], 0⟩) ∧
    ¬∀ c range d clauses,
      (Level.atDepth Dialect.postgreSql.settings c.depth).limitAndOffset c = .ok range d →
      (Level.atDepth Dialect.postgreSql.settings c.depth).ReadsClauses c clauses d →
      clauses.Pairwise fun clause further => ¬clause.SameWord further := by
  refine ⟨⟨_, rfl⟩, fun honce => ?_⟩
  let g := Level.atDepth Dialect.postgreSql.settings 0
  let behind (n : Nat) : Cursor := ⟨(repeatedLimit.take n).reverse, repeatedLimit.drop n, 0⟩
  obtain ⟨range, hrange⟩ : ∃ range, g.limitAndOffset (behind 4) = .ok range (behind 8) := ⟨_, rfl⟩
  obtain ⟨five, hfive⟩ : ∃ five, g.additive (behind 7) = .ok five (behind 8) := ⟨_, rfl⟩
  have hclauses : g.ReadsClauses (behind 4) [.limitAll, .limit five] (behind 8) :=
    .more (.limitAll rfl rfl) <| .more (.limit rfl (by decide) hfive) .done
  have hdistinct := honce (behind 4) range (behind 8) _ hrange hclauses
  exact (List.pairwise_cons.1 hdistinct).1 _ (List.mem_singleton.2 rfl) trivial

end Settings

end SqlTree

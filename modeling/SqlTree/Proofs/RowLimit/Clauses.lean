import SqlTree.Proofs.Advancing
import SqlTree.Proofs.Keywords
import SqlTree.Proofs.Likeness.Diagonal

/-!
# Row ranges in clauses

Where `LIMIT` and `OFFSET` may stand in either order, a row range is read clause by clause.  A
clause is taken unless what it says has been said before; since `LIMIT ALL` says nothing, it does
not keep another `LIMIT` from being taken behind it.  Main statement:
`Level.limitAndOffset_eq_ok_iff`.
-/

namespace SqlTree

open SqlTree.Parser

/-! ## What clauses say -/

/-- A clause of a row range. -/
inductive RangeClause where
  /-- `LIMIT ALL`. -/
  | limitAll
  /-- `LIMIT n`. -/
  | limit (rowCount : Expr)
  /-- `OFFSET m [ROWS]`. -/
  | offset (skipped : Expr)

/-- Both clauses are `LIMIT` clauses, or both are `OFFSET` clauses. -/
def RangeClause.SameWord : RangeClause → RangeClause → Prop
  | .offset _, .offset _ => True
  | .offset _, _ | _, .offset _ => False
  | _, _ => True

/-- A clause lets another one be read behind it that is no repetition.  `LIMIT ALL` lets itself be
repeated. -/
def RangeClause.Allows (clause further : RangeClause) : Prop :=
  clause.SameWord further → clause = .limitAll

namespace RowRange

/-- The range in which a clause has been said. -/
def say (range : RowRange) : RangeClause → RowRange
  | .limitAll => range
  | .limit rowCount => { range with rowCount := some rowCount }
  | .offset skipped => { range with offset := some skipped }

/-- What clauses say, one after the other. -/
def ofClauses (clauses : List RangeClause) : RowRange :=
  clauses.foldl say {}

/-- What the clause is about has not been said yet. -/
def Lacks (range : RowRange) : RangeClause → Prop
  | .limitAll | .limit _ => range.rowCount = none
  | .offset _ => range.offset = none

/-- A range stops before `LIMIT` or `OFFSET` only if what it is about has been said. -/
def StopsAt (range : RowRange) (c : Cursor) : Prop :=
  (c.nextType = some (.keyword .LIMIT) → range.rowCount ≠ none) ∧
    (c.nextType = some (.keyword .OFFSET) → range.offset ≠ none)

theorem lacks_say {range : RowRange} {a b : RangeClause} :
    (range.say a).Lacks b ↔ range.Lacks b ∧ a.Allows b := by
  cases a <;> cases b <;> simp [say, Lacks, RangeClause.Allows, RangeClause.SameWord]

theorem lacks_empty (clause : RangeClause) : ({} : RowRange).Lacks clause := by
  cases clause <;> rfl

end RowRange

/-! ## Reading clauses -/

/-- The cursor behind the word `ROWS` or `ROW`, if it stands here. -/
def Cursor.behindRows (c : Cursor) : Cursor :=
  if c.nextIsWord "ROWS" || c.nextIsWord "ROW" then c.step else c

namespace Level

/-- A clause and the place behind it. -/
inductive ReadsClause (g : Level) (c : Cursor) : RangeClause → Cursor → Prop where
  | limitAll (hlimit : c.nextType = some (.keyword .LIMIT))
      (hall : c.step.nextType = some (.keyword .ALL)) : ReadsClause g c .limitAll c.step.step
  | limit {rowCount : Expr} {d : Cursor} (hlimit : c.nextType = some (.keyword .LIMIT))
      (hall : c.step.nextType ≠ some (.keyword .ALL))
      (hread : g.additive c.step = .ok rowCount d) : ReadsClause g c (.limit rowCount) d
  | offset {skipped : Expr} {d : Cursor} (hoffset : c.nextType = some (.keyword .OFFSET))
      (hread : g.additive c.step = .ok skipped d) : ReadsClause g c (.offset skipped) d.behindRows

/-- Clauses one after the other. -/
inductive ReadsClauses (g : Level) : Cursor → List RangeClause → Cursor → Prop where
  | done {c : Cursor} : ReadsClauses g c [] c
  | more {c c' d : Cursor} {clause : RangeClause} {more : List RangeClause}
      (hclause : g.ReadsClause c clause c') (hmore : ReadsClauses g c' more d) :
      ReadsClauses g c (clause :: more) d

variable {g : Level} {c d : Cursor} {range : RowRange} {clause : RangeClause}

theorem rowsWordIfAny_eq (c : Cursor) : rowsWordIfAny c = .ok () c.behindRows := by
  unfold rowsWordIfAny Cursor.behindRows
  cases hrows : c.nextIsWord "ROWS" with
  | true =>
      rw [branch_of_true (acceptWord_of_next hrows)]
      rfl
  | false =>
      rw [branch_of_false (acceptWord_of_not_next hrows), Bool.false_or]
      cases hrow : c.nextIsWord "ROW" with
      | true =>
          rw [bind_of_ok (acceptWord_of_next hrow)]
          rfl
      | false =>
          rw [bind_of_ok (acceptWord_of_not_next hrow)]
          rfl

theorem acceptUnlessRead_of_next {read : Option Expr} {word : Keyword} (hread : read = none)
    (hnext : c.nextType = some (.keyword word)) :
    acceptUnlessRead read word c = .ok true c.step := by
  rw [hread]
  exact accept_of_next hnext

theorem acceptUnlessRead_of_not_next {read : Option Expr} {word : Keyword}
    (hnext : c.nextType = some (.keyword word) → read ≠ none) :
    acceptUnlessRead read word c = .ok false c := by
  cases read with
  | none => exact accept_of_not_next fun h => hnext h rfl
  | some e => rfl

/-- A clause is taken if what it is about has not been said yet. -/
theorem limitOrOffset_of_clause (h : g.ReadsClause c clause d) (hlacks : range.Lacks clause) :
    g.limitOrOffset range c = .ok (.again (range.say clause)) d := by
  unfold limitOrOffset
  cases h with
  | limitAll hlimit hall =>
      have htake : acceptKeyword .ALL c.step = .ok true c.step.step := accept_of_next hall
      rw [branch_of_true (acceptUnlessRead_of_next hlacks hlimit), branch_of_true htake]
      rfl
  | limit hlimit hall hread =>
      have hskip : acceptKeyword .ALL c.step = .ok false c.step := accept_of_not_next hall
      rw [branch_of_true (acceptUnlessRead_of_next hlacks hlimit), branch_of_false hskip,
        bind_of_ok hread]
      rfl
  | offset hoffset hread =>
      have hskip : c.nextType = some (.keyword .LIMIT) → range.rowCount ≠ none := by
        intro hlimit
        rw [hoffset] at hlimit
        cases hlimit
      rw [branch_of_false (acceptUnlessRead_of_not_next hskip),
        branch_of_true (acceptUnlessRead_of_next hlacks hoffset), bind_of_ok hread,
        bind_of_ok (rowsWordIfAny_eq _)]
      rfl

theorem limitOrOffset_of_stopsAt (hstops : range.StopsAt c) :
    g.limitOrOffset range c = .ok (.done range) c := by
  unfold limitOrOffset
  rw [branch_of_false (acceptUnlessRead_of_not_next hstops.1),
    branch_of_false (acceptUnlessRead_of_not_next hstops.2)]
  rfl

/-- A turn takes one clause about something that has not been said yet, or it stops. -/
theorem limitOrOffset_eq_ok {t : Turn RowRange} (hread : g.limitOrOffset range c = .ok t d) :
    (∃ clause, g.ReadsClause c clause d ∧ range.Lacks clause ∧ t = .again (range.say clause)) ∨
      (range.StopsAt c ∧ t = .done range ∧ d = c) := by
  unfold limitOrOffset at hread
  by_cases hlimit : range.rowCount = none ∧ c.nextType = some (.keyword .LIMIT)
  · rw [branch_of_true (acceptUnlessRead_of_next hlimit.1 hlimit.2)] at hread
    left
    by_cases hall : c.step.nextType = some (.keyword .ALL)
    · have htake : acceptKeyword .ALL c.step = .ok true c.step.step := accept_of_next hall
      rw [branch_of_true htake] at hread
      cases hread
      exact ⟨.limitAll, .limitAll hlimit.2 hall, hlimit.1, rfl⟩
    · have hskip : acceptKeyword .ALL c.step = .ok false c.step := accept_of_not_next hall
      rw [branch_of_false hskip] at hread
      obtain ⟨rowCount, d', hcount, hturn⟩ := bind_eq_ok.1 hread
      cases hturn
      exact ⟨.limit rowCount, .limit hlimit.2 hall hcount, hlimit.1, rfl⟩
  · have hskip : c.nextType = some (.keyword .LIMIT) → range.rowCount ≠ none :=
      fun hnext hnone => hlimit ⟨hnone, hnext⟩
    rw [branch_of_false (acceptUnlessRead_of_not_next hskip)] at hread
    by_cases hoffset : range.offset = none ∧ c.nextType = some (.keyword .OFFSET)
    · rw [branch_of_true (acceptUnlessRead_of_next hoffset.1 hoffset.2)] at hread
      obtain ⟨skipped, d', hskipped, hread⟩ := bind_eq_ok.1 hread
      rw [bind_of_ok (rowsWordIfAny_eq d')] at hread
      cases hread
      exact .inl ⟨.offset skipped, .offset hoffset.2 hskipped, hoffset.1, rfl⟩
    · have hskip' : c.nextType = some (.keyword .OFFSET) → range.offset ≠ none :=
        fun hnext hnone => hoffset ⟨hnone, hnext⟩
      rw [branch_of_false (acceptUnlessRead_of_not_next hskip')] at hread
      cases hread
      exact .inr ⟨⟨hskip, hskip'⟩, rfl, rfl⟩

/-! ## All clauses of a range -/

/-- No tokens come back where an operand is read. -/
theorem forward_additive (settings : Settings) (depth : Nat) :
    Forward (atDepth settings depth).additive := by
  intro c e d hread
  obtain ⟨tokens, hpasses, -⟩ :=
    (Likeness.levels_diagonal settings (settings.maxDepth - depth)).additive.passes hread
  have := hpasses.length_ahead
  omega

theorem length_step_lt {type : TokenType} (hnext : c.nextType = some type) :
    c.step.ahead.length < c.ahead.length := by
  obtain ⟨token, tokens, hahead, -⟩ := Cursor.exists_ahead_of_nextType hnext
  rw [Cursor.step_ahead hahead, hahead]
  exact Nat.lt_succ_self _

theorem length_behindRows_le (c : Cursor) : c.behindRows.ahead.length ≤ c.ahead.length := by
  unfold Cursor.behindRows
  split
  case isTrue =>
    obtain ⟨behind, _ | ⟨token, tokens⟩, depth⟩ := c
    · exact Nat.le_refl _
    · exact Nat.le_succ _
  case isFalse => exact Nat.le_refl _

/-- Each clause takes a token. -/
theorem ReadsClause.length_lt (hforward : Forward g.additive) (h : g.ReadsClause c clause d) :
    d.ahead.length < c.ahead.length := by
  cases h with
  | limitAll hlimit hall => exact Nat.lt_trans (length_step_lt hall) (length_step_lt hlimit)
  | limit hlimit _ hread =>
      exact Nat.lt_of_le_of_lt (hforward _ _ _ hread) (length_step_lt hlimit)
  | offset hoffset hread =>
      have hle := Nat.le_trans (length_behindRows_le _) (hforward _ _ _ hread)
      exact Nat.lt_of_le_of_lt hle (length_step_lt hoffset)

theorem advances_limitOrOffset (hforward : Forward g.additive) (range : RowRange) :
    Advances (g.limitOrOffset range) := by
  intro c range' d hread
  obtain ⟨clause, hclause, -⟩ | ⟨-, hdone, -⟩ := limitOrOffset_eq_ok hread
  · exact hclause.length_lt hforward
  · cases hdone

/-- From some range on, just those clauses are read that say what has not been said before, up to
a place where no such clause starts. -/
theorem limitOrOffset_loop_eq_ok_iff (hforward : Forward g.additive) {range' : RowRange} :
    loop g.limitOrOffset range c = .ok range' d ↔
      ∃ clauses, g.ReadsClauses c clauses d ∧ (∀ clause ∈ clauses, range.Lacks clause) ∧
        clauses.Pairwise RangeClause.Allows ∧ range' = clauses.foldl RowRange.say range ∧
        range'.StopsAt d := by
  have hunfold := loop_eq (advances_limitOrOffset hforward)
  constructor
  · intro hread
    induction hlength : c.ahead.length using Nat.strongRecOn generalizing c range with
    | ind k ih =>
        rw [hunfold] at hread
        obtain ⟨t, c', hturn, hfurther⟩ := bind_eq_ok.1 hread
        obtain ⟨clause, hclause, hlacks, rfl⟩ | ⟨hstops, rfl, rfl⟩ := limitOrOffset_eq_ok hturn
        · have hlt := hclause.length_lt hforward
          obtain ⟨clauses, hclauses, hall, hallows, hsaid, hstops⟩ :=
            ih _ (hlength ▸ hlt) hfurther rfl
          simp only [RowRange.lacks_say] at hall
          exact ⟨clause :: clauses, .more hclause hclauses,
            List.forall_mem_cons.2 ⟨hlacks, fun x hx => (hall x hx).1⟩,
            List.pairwise_cons.2 ⟨fun x hx => (hall x hx).2, hallows⟩, hsaid, hstops⟩
        · cases hfurther
          exact ⟨[], .done, List.forall_mem_nil _, .nil, rfl, hstops⟩
  · rintro ⟨clauses, hclauses, hlacks, hallows, rfl, hstops⟩
    induction hclauses generalizing range with
    | done =>
        rw [List.foldl_nil] at hstops ⊢
        rw [hunfold, bind_of_ok (limitOrOffset_of_stopsAt hstops)]
        rfl
    | @more c c' d clause clauses hclause _ ih =>
        rw [List.forall_mem_cons] at hlacks
        rw [List.pairwise_cons] at hallows
        rw [hunfold, bind_of_ok (limitOrOffset_of_clause hclause hlacks.1)]
        refine ih (fun x hx => ?_) hallows.2 hstops
        exact RowRange.lacks_say.2 ⟨hlacks.2 x hx, hallows.1 x hx⟩

/-- A row range is read just where clauses stand of which none says again what an earlier one has
said, up to a place where no further clause of this kind starts. -/
theorem limitAndOffset_eq_ok_iff (hforward : Forward g.additive) :
    g.limitAndOffset c = .ok range d ↔
      ∃ clauses, g.ReadsClauses c clauses d ∧ clauses.Pairwise RangeClause.Allows ∧
        range = RowRange.ofClauses clauses ∧ range.StopsAt d := by
  unfold limitAndOffset
  rw [limitOrOffset_loop_eq_ok_iff hforward]
  constructor
  · rintro ⟨clauses, hclauses, -, hrest⟩
    exact ⟨clauses, hclauses, hrest⟩
  · rintro ⟨clauses, hclauses, hrest⟩
    exact ⟨clauses, hclauses, fun clause _ => RowRange.lacks_empty clause, hrest⟩

end Level

end SqlTree

import SqlTree.Proofs.Equality
import SqlTree.Proofs.RowLimit.Clauses
import SqlTree.Token.Lexer

/-!
# The spellings of a row range

The dialects spell a row range in their own ways, with the two numbers in either order.  The words
are keywords in some of the dialects and plain words in others.  However a range is spelled, what
is read is the clause that skips the one number and wants the other.  Main statement:
`Settings.limit_of_spelling`.
-/

namespace SqlTree

open SqlTree.Parser

/-! ## Words of a dialect -/

/-- The token is a word, in letters of either case, as a dialect takes it: reserved or not. -/
def Token.Spells (dialect : Dialect) (word : String) (token : Token) : Prop :=
  Text.sameWord token.text word = true ∧ token.type = Lexer.wordType dialect.lexicon token.text

namespace Cursor

/-- A word of a dialect stands next. -/
def BeforeWord (dialect : Dialect) (word : String) (c : Cursor) : Prop :=
  ∃ token tokens, c.ahead = token :: tokens ∧ token.Spells dialect word

/-- `ROW` or `ROWS` stands next. -/
def BeforeRows (dialect : Dialect) (c : Cursor) : Prop :=
  c.BeforeWord dialect "ROW" ∨ c.BeforeWord dialect "ROWS"

namespace BeforeWord

variable {dialect : Dialect} {word : String} {keyword : Keyword} {c : Cursor}

/-- The next token is of the type that the dialect gives to the word. -/
theorem nextType_eq (h : c.BeforeWord dialect word) :
    c.nextType = some (Lexer.wordType dialect.lexicon word) := by
  obtain ⟨token, tokens, hahead, hword, htype⟩ := h
  rw [nextType_of_ahead hahead, htype, Lexer.wordType, Lexer.wordType,
    Dialect.keyword?_congr _ hword]

theorem nextType_of_keyword (h : c.BeforeWord dialect word)
    (hkeyword : dialect.keyword? word = some keyword) : c.nextType = some (.keyword keyword) := by
  rw [h.nextType_eq, Lexer.wordType]
  exact congrArg some (by rw [Dialect.lexicon, hkeyword])

theorem nextType_ne_keyword (h : c.BeforeWord dialect word)
    (hkeyword : dialect.keyword? word ≠ some keyword) : c.nextType ≠ some (.keyword keyword) := by
  rw [h.nextType_eq, Lexer.wordType, Dialect.lexicon]
  cases hword : dialect.keyword? word with
  | none => exact fun h => nomatch h
  | some other =>
      rintro ⟨rfl⟩
      exact hkeyword hword

theorem nextType_ne_comma (h : c.BeforeWord dialect word) : c.nextType ≠ some .comma := by
  rw [h.nextType_eq, Lexer.wordType]
  split <;> exact fun h => nomatch h

theorem nextIsWord (h : c.BeforeWord dialect word) : c.nextIsWord word = true := by
  obtain ⟨token, tokens, hahead, hword, htype⟩ := h
  have hplain : token.type.isWord = true := by
    rw [htype, Lexer.wordType]
    split <;> rfl
  rw [Cursor.nextIsWord, hahead, List.head?_cons, Option.any_some, Token.isThisWord, hplain, hword]
  rfl

end BeforeWord

end Cursor

/-! ## Spellings -/

namespace Level

/-- A row range from one place to another as a dialect spells it, with what is read for the rows
that are skipped and for those that are wanted. -/
inductive RangeSpelling (dialect : Dialect) (g : Level) (c : Cursor) :
    (skipped rowCount : Expr) → Cursor → Prop where
  /-- `LIMIT m, n`. -/
  | limitComma {skipped rowCount : Expr} {c' d : Cursor}
      (hstyle : dialect.limitStyle = .limitOffset)
      (hlimit : c.BeforeWord dialect "LIMIT") (hskipped : g.additive c.step = .ok skipped c')
      (hcomma : c'.nextType = some .comma) (hcount : g.additive c'.step = .ok rowCount d) :
      RangeSpelling dialect g c skipped rowCount d
  /-- `LIMIT n OFFSET m`. -/
  | limitOffset {skipped rowCount : Expr} {c' d : Cursor}
      (hstyle : dialect.limitStyle = .limitOffset)
      (hlimit : c.BeforeWord dialect "LIMIT") (hcount : g.additive c.step = .ok rowCount c')
      (hoffset : c'.BeforeWord dialect "OFFSET") (hskipped : g.additive c'.step = .ok skipped d) :
      RangeSpelling dialect g c skipped rowCount d
  /-- `OFFSET m ROWS FETCH NEXT n ROWS ONLY`, also with `ROW` and with `FIRST`. -/
  | offsetFetch {skipped rowCount : Expr} {c' d : Cursor}
      (hstyle : dialect.limitStyle = .offsetFetch ∨ dialect.limitStyle = .fetchFirst)
      (hoffset : c.BeforeWord dialect "OFFSET") (hskipped : g.additive c.step = .ok skipped c')
      (hrows : c'.BeforeRows dialect) (hfetch : c'.step.BeforeWord dialect "FETCH")
      (hordinal : c'.step.step.BeforeWord dialect "FIRST" ∨ c'.step.step.BeforeWord dialect "NEXT")
      (hcount : g.additive c'.step.step.step = .ok rowCount d) (hrows' : d.BeforeRows dialect)
      (honly : d.step.BeforeWord dialect "ONLY") :
      RangeSpelling dialect g c skipped rowCount d.step.step
  /-- `LIMIT n OFFSET m`, which `ROW` or `ROWS` may follow. -/
  | limitThenOffset {skipped rowCount : Expr} {c' d : Cursor}
      (hstyle : dialect.limitStyle = .limitAndOffset) (hlimit : c.BeforeWord dialect "LIMIT")
      (hall : c.step.nextType ≠ some (.keyword .ALL)) (hcount : g.additive c.step = .ok rowCount c')
      (hoffset : c'.BeforeWord dialect "OFFSET") (hskipped : g.additive c'.step = .ok skipped d) :
      RangeSpelling dialect g c skipped rowCount d.behindRows
  /-- `OFFSET m LIMIT n`; `ROW` or `ROWS` may stand before `LIMIT`. -/
  | offsetThenLimit {skipped rowCount : Expr} {c' d : Cursor}
      (hstyle : dialect.limitStyle = .limitAndOffset) (hoffset : c.BeforeWord dialect "OFFSET")
      (hskipped : g.additive c.step = .ok skipped c')
      (hlimit : c'.behindRows.BeforeWord dialect "LIMIT")
      (hall : c'.behindRows.step.nextType ≠ some (.keyword .ALL))
      (hcount : g.additive c'.behindRows.step = .ok rowCount d) :
      RangeSpelling dialect g c skipped rowCount d

variable {g : Level} {dialect : Dialect} {c c' d : Cursor} {skipped rowCount : Expr}

theorem acceptLimit_of_word (hstyle : dialect.limitStyle = .limitOffset)
    (h : c.BeforeWord dialect "LIMIT") : acceptKeyword .LIMIT c = .ok true c.step := by
  refine accept_of_next (h.nextType_of_keyword ?_)
  cases dialect <;> first | rfl | cases hstyle

/-- The word `ROW` or `ROWS` is taken where `ROWS` is a keyword and `ROW` is none. -/
theorem rowsWord_of_beforeRows (hrows : dialect.keyword? "ROWS" = some .ROWS)
    (hrow : dialect.keyword? "ROW" = none) (h : c.BeforeRows dialect) :
    rowsWord c = .ok () c.step := by
  unfold rowsWord
  rcases h with h | h
  · have hskip : acceptKeyword .ROWS c = .ok false c :=
      accept_of_not_next (h.nextType_ne_keyword (hrow ▸ nofun))
    rw [branch_of_false hskip, branch_of_true (acceptWord_of_next h.nextIsWord)]
    rfl
  · have htake : acceptKeyword .ROWS c = .ok true c.step :=
      accept_of_next (h.nextType_of_keyword hrows)
    rw [branch_of_true htake]
    rfl

/-- One of the two words behind `FETCH` is taken, whichever of them is the keyword. -/
theorem acceptEither_of_word {word other : String} {keyword : Keyword}
    (hword : dialect.keyword? word = some keyword) (hother : dialect.keyword? other = none)
    (h : c.BeforeWord dialect word ∨ c.BeforeWord dialect other) :
    acceptEither keyword other c = .ok true c.step := by
  unfold acceptEither
  rcases h with h | h
  · have htake : acceptKeyword keyword c = .ok true c.step :=
      accept_of_next (h.nextType_of_keyword hword)
    rw [branch_of_true htake]
    rfl
  · have hskip : acceptKeyword keyword c = .ok false c :=
      accept_of_not_next (h.nextType_ne_keyword (hother ▸ nofun))
    rw [branch_of_false hskip, acceptWord_of_next h.nextIsWord]

theorem fetch_of_words {ordinal : Keyword} {other : String} {wanted : Wanted}
    (hfetch : c.nextType = some (.keyword .FETCH))
    (hordinal : acceptEither ordinal other c.step = .ok true c.step.step)
    (hcount : g.additive c.step.step = .ok rowCount d) (hrows : rowsWord d = .ok () d.step)
    (honly : d.step.nextType = some (.keyword .ONLY)) :
    g.fetch ordinal other wanted c = .ok (some rowCount) d.step.step := by
  have htake : acceptKeyword .FETCH c = .ok true c.step := accept_of_next hfetch
  obtain ⟨token, honly⟩ := expectKeyword_of_next honly
  unfold fetch
  rw [branch_of_true htake, branch_of_true hordinal, bind_of_ok hcount, bind_of_ok hrows,
    bind_of_ok honly]
  rfl

/-- The rows to skip come first, then those that are wanted. -/
theorem offsetFetch_of_words (hoffset : c.nextType = some (.keyword .OFFSET))
    (hskipped : g.additive c.step = .ok skipped c') (hrows : rowsWord c' = .ok () c'.step)
    (hfetch : g.fetch .NEXT "FIRST" .nextOrFirst c'.step = .ok (some rowCount) d) :
    g.offsetFetch c = .ok ⟨some skipped, some rowCount⟩ d := by
  have htake : acceptKeyword .OFFSET c = .ok true c.step := accept_of_next hoffset
  unfold Level.offsetFetch
  rw [branch_of_true htake, bind_of_ok hskipped, bind_of_ok hrows, bind_of_ok hfetch]
  rfl

theorem fetchFirst_of_words (hoffset : c.nextIsWord "OFFSET" = true)
    (hskipped : g.additive c.step = .ok skipped c') (hrows : rowsWord c' = .ok () c'.step)
    (hfetch : g.fetch .FIRST "NEXT" .firstOrNext c'.step = .ok (some rowCount) d) :
    g.fetchFirst c = .ok ⟨some skipped, some rowCount⟩ d := by
  have hread : g.offsetRows c = .ok (some skipped) c'.step := by
    unfold offsetRows
    rw [branch_of_true (acceptWord_of_next hoffset), bind_of_ok hskipped, bind_of_ok hrows]
    rfl
  unfold fetchFirst
  rw [bind_of_ok hread, bind_of_ok hfetch]
  rfl

/-! ## Reading a spelling -/

/-- In each spelling the number that is skipped and the number that is wanted come to their own
places. -/
theorem RangeSpelling.rowRange_eq_ok (hforward : Forward g.additive)
    (h : g.RangeSpelling dialect c skipped rowCount d) :
    g.rowRange (some dialect.limitStyle) c = .ok ⟨some skipped, some rowCount⟩ d := by
  cases h with
  | limitComma hstyle hlimit hskipped hcomma hcount =>
      rw [hstyle]
      change g.limitOffset c = _
      unfold Level.limitOffset
      rw [branch_of_true (acceptLimit_of_word hstyle hlimit), bind_of_ok hskipped,
        branch_of_true (accept_of_next hcomma), bind_of_ok hcount]
      rfl
  | limitOffset hstyle hlimit hcount hoffset hskipped =>
      rw [hstyle]
      change g.limitOffset c = _
      unfold Level.limitOffset
      rw [branch_of_true (acceptLimit_of_word hstyle hlimit), bind_of_ok hcount,
        branch_of_false (accept_of_not_next hoffset.nextType_ne_comma),
        branch_of_true (acceptWord_of_next hoffset.nextIsWord), bind_of_ok hskipped]
      rfl
  | @offsetFetch c' d hstyle hoffset hskipped hrows hfetch hordinal hcount hrows' honly =>
      rcases hstyle with hstyle | hstyle
      · obtain rfl : dialect = .sqlServer := by
          cases dialect <;> first | rfl | cases hstyle
        apply offsetFetch_of_words (hoffset.nextType_of_keyword rfl) hskipped
        · exact rowsWord_of_beforeRows rfl rfl hrows
        · exact fetch_of_words (hfetch.nextType_of_keyword rfl)
            (acceptEither_of_word rfl rfl hordinal.symm) hcount
            (rowsWord_of_beforeRows rfl rfl hrows') (honly.nextType_of_keyword rfl)
      · obtain rfl : dialect = .oracle := by
          cases dialect <;> first | rfl | cases hstyle
        apply fetchFirst_of_words hoffset.nextIsWord hskipped
        · exact rowsWord_of_beforeRows rfl rfl hrows
        · exact fetch_of_words (hfetch.nextType_of_keyword rfl)
            (acceptEither_of_word rfl rfl hordinal) hcount (rowsWord_of_beforeRows rfl rfl hrows')
            (honly.nextType_of_keyword rfl)
  | limitThenOffset hstyle hlimit hall hcount hoffset hskipped =>
      obtain rfl : dialect = .postgreSql := by
        cases dialect <;> first | rfl | cases hstyle
      have hclauses := ReadsClauses.more (.limit (hlimit.nextType_of_keyword rfl) hall hcount) <|
        .more (.offset (hoffset.nextType_of_keyword rfl) hskipped) .done
      exact (limitAndOffset_eq_ok_iff hforward).2
        ⟨_, hclauses, by simp [RangeClause.Allows, RangeClause.SameWord], rfl, by simp, by simp⟩
  | offsetThenLimit hstyle hoffset hskipped hlimit hall hcount =>
      obtain rfl : dialect = .postgreSql := by
        cases dialect <;> first | rfl | cases hstyle
      have hclauses := ReadsClauses.more (.offset (hoffset.nextType_of_keyword rfl) hskipped) <|
        .more (.limit (hlimit.nextType_of_keyword rfl) hall hcount) .done
      exact (limitAndOffset_eq_ok_iff hforward).2
        ⟨_, hclauses, by simp [RangeClause.Allows, RangeClause.SameWord], rfl, by simp, by simp⟩

end Level

namespace Settings

variable {dialect : Dialect} {settings : Settings} {c d : Cursor} {skipped rowCount : Expr}

theorem limit_of_rangeSpelling (hstyle : settings.limitStyle = some dialect.limitStyle)
    (hspelling : (Level.atDepth settings c.depth).RangeSpelling dialect c skipped rowCount d) :
    (Level.atDepth settings c.depth).limit c =
      .ok (some ⟨some skipped, some rowCount, settings.tag⟩) d := by
  have hrange := hspelling.rowRange_eq_ok (Level.forward_additive settings c.depth)
  have hstyle : (Level.atDepth settings c.depth).settings.limitStyle = some dialect.limitStyle :=
    hstyle
  unfold Level.limit
  rw [hstyle, bind_of_ok hrange]
  rfl

/-- However a row range is spelled, just the words and numbers of its spelling are taken, and what
is read is the clause that skips the one number and wants the other.  So two spellings of equal
numbers, be they of one dialect or of two, are read as equal clauses. -/
theorem limit_of_spelling (dialect : Dialect) (settings : Settings) (c d : Cursor)
    (skipped rowCount : Expr) (hstyle : settings.limitStyle = some dialect.limitStyle)
    (hspelling : (Level.atDepth settings c.depth).RangeSpelling dialect c skipped rowCount d) :
    (Level.atDepth settings c.depth).limit c =
      .ok (some ⟨some skipped, some rowCount, settings.tag⟩) d ∧
    ∀ (dialect' : Dialect) (settings' : Settings) (c' d' : Cursor) (skipped' rowCount' : Expr),
      settings'.limitStyle = some dialect'.limitStyle →
      (Level.atDepth settings' c'.depth).RangeSpelling dialect' c' skipped' rowCount' d' →
      (skipped == skipped') = true → (rowCount == rowCount') = true →
      ∃ limit limit', (Level.atDepth settings c.depth).limit c = .ok (some limit) d ∧
        (Level.atDepth settings' c'.depth).limit c' = .ok (some limit') d' ∧
        (limit == limit') = true := by
  have hread := limit_of_rangeSpelling hstyle hspelling
  refine ⟨hread, ?_⟩
  intro dialect' settings' c' d' skipped' rowCount' hstyle' hspelling' hskipped hcount
  refine ⟨_, _, hread, limit_of_rangeSpelling hstyle' hspelling', ?_⟩
  rw [Expr.beq_iff_untagged] at hskipped hcount
  refine (Limit.toldBy _ (fun e _ => e.beq_iff_untagged) _).2 ?_
  simp [Limit.map, Limit.relabel, hskipped, hcount]

/-- The tokens of `OFFSET a ROWS FETCH FIRST 5 ROW ONLY` where `FIRST` and `ROW` are no keywords. -/
def fetchedRows : List Token :=
  [.unplaced (.keyword .OFFSET) "OFFSET", .unplaced .identifier "a",
    .unplaced (.keyword .ROWS) "ROWS", .unplaced (.keyword .FETCH) "FETCH",
    .unplaced .identifier "FIRST", .unplaced .number "5", .unplaced .identifier "ROW",
    .unplaced (.keyword .ONLY) "ONLY"]

/-- The tokens of `limit a, 5`. -/
def limitedRows : List Token :=
  [.unplaced (.keyword .LIMIT) "limit", .unplaced .identifier "a", .unplaced .comma ",",
    .unplaced .number "5"]

/-- Two dialects spell one range with different words and read the same clause. -/
theorem limit_of_spelling_fetchedRows :
    let g := Level.atDepth Dialect.sqlServer.settings 0
    let g' := Level.atDepth Dialect.mySql.settings 0
    ∃ limit limit', g.limit (.start fetchedRows) = .ok (some limit) ⟨fetchedRows.reverse, [], 0⟩ ∧
      g'.limit (.start limitedRows) = .ok (some limit') ⟨limitedRows.reverse, [], 0⟩ ∧
      (limit == limit') = true := by
  intro g g'
  let fetched (n : Nat) : Cursor := ⟨(fetchedRows.take n).reverse, fetchedRows.drop n, 0⟩
  let limited (n : Nat) : Cursor := ⟨(limitedRows.take n).reverse, limitedRows.drop n, 0⟩
  have hword {dialect : Dialect} {word : String} {token : Token} {c : Cursor} {tokens : List Token}
      (hahead : c.ahead = token :: tokens) (hspells : token.Spells dialect word) :
      c.BeforeWord dialect word := ⟨token, tokens, hahead, hspells⟩
  obtain ⟨a, a', ha, ha', hsame⟩ : ∃ a a', g.additive (fetched 1) = .ok a (fetched 2) ∧
      g'.additive (limited 1) = .ok a' (limited 2) ∧ (a == a') = true := ⟨_, _, rfl, rfl, rfl⟩
  obtain ⟨n, n', hn, hn', hsame'⟩ : ∃ n n', g.additive (fetched 5) = .ok n (fetched 6) ∧
      g'.additive (limited 3) = .ok n' (limited 4) ∧ (n == n') = true := ⟨_, _, rfl, rfl, rfl⟩
  have hoffset : (fetched 0).BeforeWord .sqlServer "OFFSET" := hword rfl ⟨rfl, rfl⟩
  have hrows : (fetched 2).BeforeWord .sqlServer "ROWS" := hword rfl ⟨rfl, rfl⟩
  have hfetch : (fetched 3).BeforeWord .sqlServer "FETCH" := hword rfl ⟨rfl, rfl⟩
  have hfirst : (fetched 4).BeforeWord .sqlServer "FIRST" := hword rfl ⟨rfl, rfl⟩
  have hrow : (fetched 6).BeforeWord .sqlServer "ROW" := hword rfl ⟨rfl, rfl⟩
  have honly : (fetched 7).BeforeWord .sqlServer "ONLY" := hword rfl ⟨rfl, rfl⟩
  have hfetched : g.RangeSpelling .sqlServer (fetched 0) a n (fetched 6).step.step :=
    .offsetFetch (.inl rfl) hoffset ha (.inr hrows) hfetch (.inl hfirst) hn (.inl hrow) honly
  have hlimited : g'.RangeSpelling .mySql (limited 0) a' n' (limited 4) :=
    .limitComma rfl (hword rfl ⟨rfl, rfl⟩) ha' rfl hn'
  have hboth := (limit_of_spelling .sqlServer Dialect.sqlServer.settings (fetched 0)
    (fetched 6).step.step a n rfl hfetched).2
  exact hboth .mySql Dialect.mySql.settings (limited 0) (limited 4) a' n' rfl hlimited hsame hsame'

end Settings

end SqlTree

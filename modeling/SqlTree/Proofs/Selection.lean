import SqlTree.Proofs.Derivation.Units

/-!
# Selecting a name from a table

How the grammar reads the smallest query with a source, `SELECT name FROM table`, in every dialect.
The name is an escaped one, so nothing about its text matters.
-/

namespace SqlTree

open SqlTree.Parser

namespace Parser.Yields

variable {α β : Type} {a : α} {b : β} {p : Parser α} {f : α → Parser β} {tokens rest : List Token}

/-- A first step that takes nothing. -/
theorem idle (hp : Yields p [] a (tokens ++ rest)) (hf : Yields (f a) tokens b rest) :
    Yields (p >>= f) tokens b rest :=
  hp.bind hf

end Parser.Yields

/-- The table with a name and nothing else. -/
def tableNamed (tag : Tag) (name : Identifier) : Expr :=
  .node (.table ⟨none, none, name, none, none, [], tag⟩)

/-- The query `SELECT name FROM table`. -/
def selection (tag : Tag) (column table : Identifier) : Expr :=
  .node (.selectQuery
    { withQueries := [], hints := [], option := none, top := none,
      columns := [⟨.node (.identifier column), none, tag⟩], into := none,
      source := some (tableNamed tag table), condition := none, groupBy := none, connectBy := none,
      orderBy := none, limit := none, tag })

structure SelectsName (select column source table : Token) : Prop where
  select : select.type = .keyword .SELECT
  column : column.type = .quotedIdentifier
  spelled : source.Spelled
  source : source.type = .keyword .FROM
  table : table.type = .identifier

namespace Level

variable {g : Level} {column source table : Token} {rest : List Token}

/-! ## The name -/

theorem yields_escapedUnit (hcolumn : column.type = .quotedIdentifier)
    (hdot : headType rest ≠ some .dot) (hparen : headType rest ≠ some .lparen) :
    Yields g.unit [column] (.node (.identifier (Identifier.escaped column.text g.tag))) rest := by
  have hname : Yields g.namePart [column] (Identifier.escaped column.text g.tag) rest := by
    have hescaped : g.identifierOf column = Identifier.escaped column.text g.tag := if_pos hcolumn
    rw [← hescaped]
    refine .test true (fun behind depth => ?_) (.take .pure)
    simp [Cursor.isNamePart, Cursor.startsName, Cursor.nextType, hcolumn, TokenType.isName]
  have hpath :
      Yields g.starPath [column] (⟨Identifier.escaped column.text g.tag, []⟩, false) rest :=
    hname.andThen (.loop (.ends_done (.pass hdot .pure)))
  have hnext : headType ([column] ++ rest) = some .quotedIdentifier := congrArg some hcolumn
  refine .peekType ?_
  rw [hnext]
  exact hpath.andThen (.test false (fun _ _ => beq_false_of_ne hparen) .pure)

theorem yields_escapedOperand (hcolumn : column.type = .quotedIdentifier)
    (hsource : source.type = .keyword .FROM) (hspelled : source.Spelled) :
    Yields g.operand [column] (.node (.identifier (Identifier.escaped column.text g.tag)))
      (source :: rest) := by
  have hne : ∀ type, type ≠ .quotedIdentifier →
      headType ([column] ++ source :: rest) ≠ some type :=
    fun type htype => headType_ne_of_eq hcolumn htype.symm _
  have hnext : ∀ type, type ≠ .keyword .FROM → headType (source :: rest) ≠ some type :=
    fun type htype => headType_ne_of_eq hsource htype.symm _
  have hat : source.isThisWord "AT" = false := by
    cases hthis : source.isThisWord "AT" with
    | false => rfl
    | true =>
        obtain ⟨d, hkeyword⟩ := hspelled _ hsource
        rw [d.keyword?_congr (Bool.and_eq_true_iff.1 hthis).2, d.keyword?_at] at hkeyword
        cases hkeyword
  have hstop : ∀ behind depth, Cursor.continuesOperand ⟨behind, source :: rest, depth⟩ = false := by
    intro behind depth
    cases rest <;> simp [Cursor.continuesOperand, Cursor.nextType, hsource, hat]
  have hunit := yields_escapedUnit (g := g) hcolumn (hnext .dot (by simp)) (hnext .lparen (by simp))
  refine .idle (yields_plusSigns (hne .plus (by simp))) ?_
  refine .pass (hne .dash (by simp)) (hunit.andThen ?_)
  exact .loop (.ends_done ⟨fun behind depth => suffix_stop (hstop behind depth)⟩)

/-- An operand before `FROM` is a whole expression. -/
theorem yields_expression_of_operand {e : Expr} {tokens : List Token}
    (hoperand : Yields (g.below .operand) tokens e (source :: rest))
    (hnot : headType (tokens ++ source :: rest) ≠ some (.keyword .NOT))
    (hsource : source.type = .keyword .FROM) :
    Yields g.expression tokens e (source :: rest) := by
  have hchain : ∀ (operator? : TokenType → Option BinaryOp) (p : Parser Expr),
      operator? (.keyword .FROM) = none → Yields p tokens e (source :: rest) →
      Yields (g.chain operator? p) tokens e (source :: rest) := by
    intro operator? p hnone hp
    refine ⟨fun behind depth => chain_of_stop (hp.run behind depth) ?_⟩
    exact (congrArg operator? hsource).trans hnone
  have hstop : ∀ behind depth,
      Cursor.continuesPredicate ⟨behind, source :: rest, depth⟩ = false := by
    intro behind depth
    simp [Cursor.continuesPredicate, Cursor.isNegatedPredicate, Cursor.nextType, hsource,
      TokenType.comparison?, TokenType.regexSign?, TokenType.takesNot]
  have hadditive : Yields g.additive tokens e (source :: rest) :=
    hchain _ _ rfl (hchain _ _ rfl hoperand)
  have hrelational : Yields g.relational tokens e (source :: rest) :=
    hadditive.andThen (.loop (.ends_done ⟨fun behind depth => predicate_stop (hstop behind depth)⟩))
  have hnegation : Yields g.negation tokens e (source :: rest) := .pass hnot hrelational
  exact hchain _ _ rfl (hchain _ _ rfl (hchain _ _ rfl hnegation))

/-! ## The table -/

theorem yields_table (htable : table.type = .identifier) :
    Yields g.source [table] (tableNamed g.tag (table.plainName g.tag)) [] := by
  have hend : ∀ type, headType ([] ++ []) ≠ some type := fun type => by simp [headType]
  have hpath : Yields g.tablePath [table] ⟨table.plainName g.tag, []⟩ [] := by
    have hlast : Yields g.namePart [table] (table.plainName g.tag) [] := yields_namePart htable
    have hpath : Yields g.namePath [table] ⟨table.plainName g.tag, []⟩ [] :=
      hlast.andThen (.loop (.ends_done (.pass (hend _) .pure)))
    refine .test true (fun behind depth => ?_) hpath
    simp [Cursor.startsName, Cursor.nextType, htable, TokenType.isName]
  have hlink : Yields g.link [] none [] := by
    unfold link
    split
    · exact .pass (hend _) .pure
    · exact .pure
  have halias : Yields g.aliasName [] none [] := .pass (hend _) (.test false (fun _ _ => rfl) .pure)
  have hhints : Yields g.tableHints [] [] [] := by
    refine .test false (fun behind depth => ?_) .pure
    simp [startsHints, Cursor.nextType]
  have hnamed : Yields g.namedSource [table] (tableNamed g.tag (table.plainName g.tag)) [] := by
    refine hpath.andThen (.test false (fun _ _ => rfl) ?_)
    refine .idle .pure ?_
    refine .idle hlink ?_
    refine .idle halias ?_
    exact .idle hhints .pure
  have hplain : Yields g.plainSource [table] (tableNamed g.tag (table.plainName g.tag)) [] := by
    refine .test false (fun behind depth => ?_) hnamed
    simp [Cursor.nextType, htable]
  exact hplain.andThen (.loop (.ends_done (.test false (fun _ _ => rfl) .pure)))

theorem yields_sources {e : Expr} {tokens : List Token} (hcap : 0 < g.settings.maxIterations)
    (hsource : Yields (g.below .source) tokens e []) : Yields g.sources tokens e [] := by
  obtain ⟨cap, hcap⟩ := Nat.exists_eq_add_of_lt hcap
  have hkind : Yields joinKind [] none [] := .peekType .pure
  have hjoin : Yields (g.join e) [] none [] := by
    refine .pass nofun ?_
    exact .pass nofun (.idle hkind .pure)
  refine hsource.andThen ?_
  rw [hcap, Nat.zero_add]
  exact .idle hjoin .pure

/-! ## The query -/

theorem yields_noLimit : Yields g.limit [] none [] := by
  have hnone : Yields (g.rowRange g.settings.limitStyle) [] {} [] := by
    cases g.settings.limitStyle with
    | none => exact .pure
    | some style =>
        cases style
        · exact .pass nofun .pure
        · exact .pass nofun .pure
        · exact ⟨fun _ _ => rfl⟩
        · exact ⟨fun _ _ => rfl⟩
  exact .idle hnone .pure

theorem yields_selectQuery {select : Token} (h : SelectsName select column source table)
    (hcap : 0 < g.settings.maxIterations)
    (hcolumn : Yields (g.below .operand) [column]
      (.node (.identifier (Identifier.escaped column.text g.tag))) [source, table])
    (htable : Yields (g.below .source) [table] (tableNamed g.tag (table.plainName g.tag)) []) :
    Yields g.selectQuery [select, column, source, table]
      (selection g.tag (Identifier.escaped column.text g.tag) (table.plainName g.tag)) [] := by
  have hfirst : ∀ type, type ≠ .quotedIdentifier →
      headType ([column, source, table] ++ []) ≠ some type :=
    fun type htype => headType_ne_of_eq h.column htype.symm _
  have hnext : ∀ type, type ≠ .keyword .FROM → headType [source, table] ≠ some type :=
    fun type htype => headType_ne_of_eq h.source htype.symm _
  have hhints : Yields g.commentHints [] [] ([column, source, table] ++ []) := by
    refine .idle (.loop (.ends_done (.test false (fun _ _ => ?_) .pure))) .pure
    exact beq_false_of_ne (hfirst .hint nofun)
  have hoption : Yields rowOption [] none ([column, source, table] ++ []) := by
    refine .pass (hfirst _ nofun) ?_
    refine .pass (hfirst _ nofun) ?_
    exact .pass (hfirst _ nofun) .pure
  have hitem : Yields g.selectItem [column]
      ⟨.node (.identifier (Identifier.escaped column.text g.tag)), none, g.tag⟩
        [source, table] := by
    have hnot : headType ([column] ++ [source, table]) ≠ some (.keyword .NOT) := hfirst _ nofun
    have hexpression := yields_expression_of_operand hcolumn hnot h.source
    have halias : Yields g.aliasName [] none [source, table] := by
      refine .pass (hnext _ nofun) ?_
      refine .test false (fun _ _ => ?_) .pure
      simp [Token.isBareAlias, h.source]
    exact hexpression.andThen (.idle halias .pure)
  have hcolumns : Yields (g.commaList .selectList g.selectItem) [column]
      [⟨.node (.identifier (Identifier.escaped column.text g.tag)), none, g.tag⟩]
        [source, table] := by
    obtain ⟨cap, hcap⟩ := Nat.exists_eq_add_of_lt hcap
    unfold commaList Parser.commaList
    rw [hcap, Nat.zero_add]
    exact hitem.andThen (.pass (hnext _ nofun) .pure)
  have hinto : Yields g.intoTable [] none [source, table] := by
    unfold intoTable
    split
    · exact yields_afterKeyword_none (hnext _ nofun)
    · exact .pure
  have hsources : Yields (afterKeyword .FROM g.sources) [source, table]
      (some (tableNamed g.tag (table.plainName g.tag))) [] :=
    .accept h.source (yields_sources hcap htable).map
  have hnone :
      ∀ {α : Type} (word : Keyword) (p : Parser α), Yields (afterKeyword word p) [] none [] :=
    fun word p => yields_afterKeyword_none nofun
  have hconnect : Yields g.connectByIfAny [] none [] := ⟨fun _ _ => rfl⟩
  refine .expect h.select ?_
  refine .idle hhints (.idle hoption ?_)
  refine .idle (yields_afterKeyword_none (hfirst _ nofun)) ?_
  change Yields _ ([column] ++ [source, table]) _ _
  refine hcolumns.bind ?_
  refine .idle hinto ?_
  refine hsources.andThen ?_
  refine .idle (hnone _ _) (.idle hconnect ?_)
  refine .idle (hnone _ _) (.idle hconnect ?_)
  refine .idle (hnone _ _) ?_
  exact .idle yields_noLimit .pure

theorem yields_query {select : Token} {e : Expr} (h : SelectsName select column source table)
    (hquery : Yields g.selectQuery [select, column, source, table] e []) (hunwrap : unwrap e = e) :
    Yields g.query [select, column, source, table] e [] := by
  have hhead : ∀ type, type ≠ .keyword .SELECT →
      headType ([select, column, source, table] ++ []) ≠ some type :=
    fun type htype => headType_ne_of_eq h.select htype.symm _
  have hoperand : Yields g.queryOperand [select, column, source, table] e [] :=
    .test false (fun _ _ => beq_false_of_ne (hhead .lparen nofun)) hquery
  have hop : Yields setOp [] none [] := ⟨fun _ _ => rfl⟩
  have hchain : Yields g.queryChain [select, column, source, table] e [] :=
    hoperand.andThen (.loop (.ends_done (.idle hop .pure)))
  refine .idle (yields_afterKeyword_none (hhead _ nofun)) (hchain.andThen ?_)
  rw [hunwrap]
  exact .pure

theorem yields_statement {select : Token} {e : Expr} (h : SelectsName select column source table)
    (hquery : Yields (g.below .query) [select, column, source, table] e []) :
    Yields g.statement [select, column, source, table] (g.subquery e) [] := by
  have hnext : headType ([select, column, source, table] ++ []) = some (.keyword .SELECT) :=
    congrArg some h.select
  have hbody : Yields g.statementBody [select, column, source, table] (g.subquery e) [] := by
    refine .peekType ?_
    rw [hnext]
    exact hquery.andThen .pure
  exact hbody.andThen (.pass nofun (.test true (fun _ _ => rfl) .pure))

end Level

/-- The smallest query with a source is read as what it says, in every dialect. -/
theorem Settings.statement_of_selectsName (settings : Settings) {select column source table : Token}
    (h : SelectsName select column source table) (hdepth : 2 ≤ settings.maxDepth)
    (hcap : 0 < settings.maxIterations) :
    settings.statement (Cursor.start [select, column, source, table]) =
      .ok (.node (.select (selection settings.tag (Identifier.escaped column.text settings.tag)
        (table.plainName settings.tag)) none settings.tag))
      ⟨[table, source, column, select], [], 0⟩ := by
  obtain ⟨levels, hlevels⟩ : ∃ levels, settings.maxDepth = levels + 1 + 1 :=
    ⟨settings.maxDepth - 2, by omega⟩
  have hcolumn : Yields ((settings.level (levels + 1)).below .operand) [column] _ [source, table] :=
    (Level.yields_escapedOperand (g := settings.level levels) h.column h.source h.spelled).nested
  have htable : Yields ((settings.level (levels + 1)).below .source) [table] _ [] :=
    (Level.yields_table (g := settings.level levels) h.table).nested
  have hselect := Level.yields_selectQuery (g := settings.level (levels + 1)) h hcap hcolumn htable
  have hquery := (Level.yields_query h hselect rfl).nested
  have hstatement := Level.yields_statement (g := settings.level (levels + 1 + 1)) h hquery
  have hlevel : Level.atDepth settings 0 = settings.level (levels + 1 + 1) := by
    rw [← hlevels]
    rfl
  have hrun := hstatement.run [] 0
  rw [List.append_nil] at hrun
  unfold Settings.statement Cursor.start
  rw [hlevel, hrun]
  rfl

end SqlTree

import SqlTree.Parsed
import SqlTree.Proofs.Payload.Source

/-!
# Statements keep their payload

Queries and statements keep the payload that they pass, and so does every text that a dialect
reads, if no collation follows another one in it.  A collation that does follow another one
replaces it, and the name of the first one is lost.
-/

namespace SqlTree

open SqlTree.Parser

namespace Expr

variable {e e' : Expr}

theorem fields_unwrap : (Level.unwrap e).fields = e.fields := by
  unfold Level.unwrap
  split <;> simp [Node.fields]

/-- Named queries that are put in front of a query add their fields. -/
theorem fields_withQueries {ws : List (WithQuery Expr)} (hwith : e.withQueries ws = .ok e') :
    e'.fields = each (WithQuery.fields Expr.fields) ws + e.fields := by
  replace hwith := named_of_withQueries hwith
  induction hwith with
  | selectQuery => simp only [fields_node, Node.fields, SelectQuery.fields, each_append, add_assoc]
  | union => simp only [fields_node, Node.fields, each_append, add_assoc]
  | select _ ih => simp only [fields_node, Node.fields, ih, add_assoc]

end Expr

namespace Level.KeepsBelow

variable {g : Level} {R : Multiset Field} {left e : Expr} (h : g.KeepsBelow)

include h

/-! ## Queries -/

omit h in
theorem commentHints : Keeps (each (Hint.fields Expr.fields)) g.commentHints := by
  have hloop : Keeps (each (Hint.fields Expr.fields)) (loop (fun hints => do
      if ← isNext .hint then
        let body := Expr.node (.string (← take).text false g.tag)
        return .again (⟨body, g.tag⟩ :: hints)
      else return .done hints) []) := by
    refine .loop rfl fun hints => ?_
    refine .test ?_ (.pure rfl)
    refine .takeText fun token => ?_
    refine .pure ?_
    simp [Turn.value, Hint.fields, Node.fields, add_comm]
  exact .bind hloop fun hints => .pure each_reverse

omit h in
theorem rowOption : Skips Level.rowOption := by
  refine .branch skips_acceptKeyword (.pure rfl) ?_
  refine .branch skips_acceptKeyword (.pure rfl) ?_
  exact .branch skips_acceptKeyword (.pure rfl) (.pure rfl)

omit h in
theorem acceptWithTies : Skips Level.acceptWithTies := by
  refine .testThen ?_ (.pure rfl)
  refine .takeTwo (fun c first second tokens hc hahead => ?_) (.pure rfl)
  have hstarts := hc.2
  simp only [Level.startsWithTies, hahead, Bool.and_eq_true, beq_iff_eq] at hstarts
  rw [hstarts.1]
  exact ⟨rfl, Token.not_isPayload_of_isThisWord hstarts.2⟩

theorem topCount : Keeps Expr.fields g.topCount := by
  refine .branch (skips_accept rfl) ?_ ?_
  · refine .bind h.expression fun count => ?_
    exact .skip (skips_expect rfl) fun _ => .pure rfl
  · refine .bind (keeps_expect fun token _ => kept_number token) fun token => ?_
    exact .pure (by simp [Level.number, Node.fields])

theorem top : Keeps (Top.fields Expr.fields) g.top := by
  refine .bind h.topCount fun count => ?_
  refine .skip skips_acceptWord fun percent => ?_
  exact .skip acceptWithTies fun withTies => .pure rfl

theorem groupBy : Keeps (GroupBy.fields Expr.fields) g.groupBy := by
  refine .skip skips_expectKeyword fun _ => ?_
  refine .bind (keeps_commaList h.expression) fun items => ?_
  exact .after (keeps_afterKeyword h.expression) fun having => .pure rfl

theorem startWith : Keeps (ifAny Expr.fields) g.startWith := by
  refine .branch skips_acceptKeyword ?_ (.pure rfl)
  refine .skip skips_expectKeyword fun _ => ?_
  exact h.expression.map fun _ => rfl

omit h in
/-- What has been read already is not read again, so that nothing is replaced. -/
theorem unlessRead {α : Type} {F : α → Multiset Field} {read : Option α} {p : Parser (Option α)}
    (hp : Keeps (ifAny F) p) :
    Grows (R + ifAny F read) (Level.unlessRead read p) fun a? => R + ifAny F a? := by
  cases read with
  | some a => exact .pure rfl
  | none => exact .ofEq (.frame hp) (add_zero R).symm

theorem connectBy : Keeps (ConnectBy.fields Expr.fields) g.connectBy := by
  refine .bind h.startWith fun before => ?_
  refine .skip skips_expectKeyword fun _ => ?_
  refine .skip skips_expectKeyword fun _ => ?_
  refine .skip skips_acceptKeyword fun nocycle => ?_
  refine .skip skips_acceptKeyword fun prior => ?_
  refine .after h.expression fun condition => ?_
  refine .bind (.ofEq (unlessRead h.startWith) (add_comm _ _)) fun start => ?_
  refine .pure ?_
  exact add_comm ..

theorem connectByIfAny : Keeps (ifAny (ConnectBy.fields Expr.fields)) g.connectByIfAny := by
  refine .skip skips_test fun isStart => ?_
  refine .skip skips_test fun isConnect => ?_
  cases isStart || isConnect with
  | true => exact h.connectBy.map fun _ => rfl
  | false => exact .pure rfl

omit h in
theorem intoTable : Keeps (ifAny Expr.fields) g.intoTable := by
  unfold Level.intoTable
  split
  case isTrue => exact keeps_afterKeyword tableName
  case isFalse => exact .pure rfl

theorem selectQuery : Keeps Expr.fields g.selectQuery := by
  refine .skip skips_expectKeyword fun _ => ?_
  refine .bind commentHints fun hints => ?_
  refine .skip rowOption fun option => ?_
  refine .after (keeps_afterKeyword h.top) fun top => ?_
  refine .after (keeps_commaList h.selectItem) fun columns => ?_
  refine .after intoTable fun into => ?_
  refine .after (keeps_afterKeyword h.sources) fun source => ?_
  refine .after (keeps_afterKeyword h.expression) fun condition => ?_
  refine .after h.connectByIfAny fun hierarchy => ?_
  refine .after (keeps_afterKeyword h.groupBy) fun groupBy => ?_
  refine .bind (.ofEq (unlessRead h.connectByIfAny) (add_right_comm _ _ _)) fun connectBy => ?_
  refine .after (keeps_afterKeyword h.orderBy) fun orderBy => ?_
  refine .after h.limit fun limit => ?_
  refine .pure ?_
  simp [Node.fields, SelectQuery.fields]

theorem queryOperand : Keeps Expr.fields g.queryOperand :=
  .test h.parenthesizedQuery h.selectQuery

omit h in
theorem setOp : Skips Level.setOp := by
  have hall :
      ∀ all one : SetOp, Skips (do return some (if ← acceptKeyword .ALL then all else one)) :=
    fun _ _ => .skip skips_acceptKeyword fun _ => .pure rfl
  refine .branch skips_acceptKeyword ?_ ?_
  · refine .branch skips_acceptKeyword (.pure rfl) ?_
    exact .skip skips_acceptKeyword fun _ => .pure rfl
  · refine .branch skips_acceptKeyword (hall _ _) ?_
    refine .branch skips_acceptKeyword (hall _ _) ?_
    exact .branch skips_acceptKeyword (.pure rfl) (.pure rfl)

theorem queryChain : Keeps Expr.fields g.queryChain := by
  refine .bind h.queryOperand fun first => ?_
  refine .loop rfl fun left => ?_
  refine .skip setOp fun op => ?_
  cases op with
  | none => exact .pure rfl
  | some op =>
      refine .after h.queryOperand fun right => ?_
      exact .pure (by simp [Turn.value, Node.fields])

theorem withQuery : Keeps (WithQuery.fields Expr.fields) g.withQuery := by
  have hcolumns : Keeps (each Identifier.fields) g.withColumns := by
    refine .branch (skips_accept rfl) ?_ (.pure rfl)
    refine .bind (keeps_commaList keeps_namePart) fun _ => ?_
    exact .skip (skips_expect rfl) fun _ => .pure rfl
  refine .bind keeps_namePart fun name => ?_
  refine .after hcolumns fun columns => ?_
  refine .skip skips_expectKeyword fun _ => ?_
  refine .skip (skips_expect rfl) fun _ => ?_
  refine .after (h.keeps .query) fun query => ?_
  exact .skip (skips_expect rfl) fun _ => .pure rfl

theorem query : Keeps Expr.fields g.query := by
  refine .bind (keeps_afterKeyword (keeps_commaList h.withQuery)) fun ws => ?_
  refine .after h.queryChain fun chain => ?_
  rcases ws with _ | _ | ⟨w, ws⟩
  · exact .pure (by simp [Expr.fields_unwrap])
  · exact .pure (by simp [Expr.fields_unwrap])
  · dsimp only
    cases hwith : Expr.withQueries (w :: ws) (unwrap chain) with
    | error e => exact .throw
    | ok e =>
        refine .pure ?_
        rw [Expr.fields_withQueries hwith, Expr.fields_unwrap]
        rfl

/-! ## Statements -/

theorem valuesRow : Keeps (each Expr.fields) g.valuesRow := by
  refine .skip (skips_expect rfl) fun _ => ?_
  refine .bind (keeps_commaList h.expression) fun row => ?_
  exact .skip (skips_expect rfl) fun _ => .pure rfl

omit h in
theorem insertColumns : Keeps (each Identifier.fields) g.insertColumns := by
  refine .testThen ?_ (.pure rfl)
  refine .takePlain (fun c type hc hnext => ?_) fun _ => ?_
  · have hopens := eq_of_beq (Bool.and_eq_true_iff.1 hc.2).1
    rw [hnext] at hopens
    cases hopens
    rfl
  · refine .bind (keeps_commaList keeps_namePart) fun columns => ?_
    exact .skip (skips_expect rfl) fun _ => .pure rfl

theorem insert : Keeps Expr.fields g.insert := by
  refine .skip skips_expectKeyword fun _ => ?_
  refine .bind commentHints fun hints => ?_
  refine .skip skips_acceptKeyword fun _ => ?_
  refine .after tableName fun table => ?_
  refine .after insertColumns fun columns => ?_
  refine .branch skips_acceptKeyword ?_ ?_
  · refine .after (keeps_commaList h.valuesRow) fun rows => ?_
    exact .pure (by simp [Node.fields, Insert.fields])
  · refine .test ?_ .refuseFor
    refine .after (h.keeps .query) fun query => ?_
    exact .pure (by simp [Level.subquery, Node.fields, Insert.fields])

theorem assignment : Keeps Expr.fields g.assignment := by
  refine .bind h.unit fun target => ?_
  refine .skip (skips_expect rfl) fun _ => ?_
  exact .after h.expression fun value => .pure (by simp [Level.binary, Node.fields])

theorem update : Keeps Expr.fields g.update := by
  refine .skip skips_expectKeyword fun _ => ?_
  refine .bind commentHints fun hints => ?_
  refine .after (h.keeps .source) fun table => ?_
  refine .skip skips_expectKeyword fun _ => ?_
  refine .after (keeps_commaList h.assignment) fun assignments => ?_
  refine .after (keeps_afterKeyword h.sources) fun source => ?_
  refine .after (keeps_afterKeyword h.expression) fun condition => ?_
  refine .pure ?_
  simp [Node.fields, Update.fields]

theorem delete : Keeps Expr.fields g.delete := by
  refine .skip skips_expectKeyword fun _ => ?_
  refine .bind commentHints fun hints => ?_
  refine .skip skips_acceptKeyword fun isFrom => ?_
  refine .after (h.keeps .source) fun table => ?_
  have hfrom : Keeps (ifAny Expr.fields) (g.fromUnless isFrom) := by
    cases isFrom with
    | true => exact .pure rfl
    | false => exact keeps_afterKeyword h.sources
  refine .after hfrom fun source => ?_
  refine .after (keeps_afterKeyword h.expression) fun condition => ?_
  exact .pure (by simp [Node.fields, Delete.fields])

theorem statementBody : Keeps Expr.fields g.statementBody := by
  have hquery : Keeps Expr.fields (do return g.subquery (← g.below .query)) :=
    .bind (h.keeps .query) fun query => .pure (by simp [Level.subquery, Node.fields])
  refine .peekType fun next => ?_
  cases next with
  | none => exact .throw
  | some type =>
      cases type with
      | lparen => exact hquery.anywhere
      | keyword word =>
          cases word with
          | SELECT | WITH => exact hquery.anywhere
          | INSERT => exact h.insert.anywhere
          | UPDATE => exact h.update.anywhere
          | DELETE => exact h.delete.anywhere
          | _ => exact .refuseFound
      | _ => exact .refuseFound

theorem statement : Keeps Expr.fields g.statement := by
  refine .bind h.statementBody fun _ => ?_
  refine .skip (skips_accept rfl) fun _ => ?_
  exact .test (.pure rfl) .refuseFound

theorem rule (production : Production) : Keeps Expr.fields (g.rule production) := by
  cases production with
  | query => exact h.query
  | source => exact h.source
  | negation => exact h.negation
  | operand => exact h.operand
  | intervalValue => exact h.unit

end Level.KeepsBelow

/-! ## The main results -/

/-- What is kept one nesting level further down is kept on a level. -/
theorem Level.keepsBelow (settings : Settings) (levels : Nat) :
    KeepsBelow ⟨settings, Level.produce settings levels⟩ := by
  refine ⟨?_, Closes.produce settings levels⟩
  induction levels with
  | zero => exact fun _ => .throw
  | succ levels ih =>
      exact fun production => .nested
        (KeepsBelow.rule ⟨ih, Closes.produce settings levels⟩ production)

/-- A statement that is read from tokens keeps all of their payload, with any settings, unless a
collation follows another one. -/
theorem Settings.kept_of_statement {settings : Settings} {tokens : List Token} {e : Expr}
    {d : Cursor} (hrepeats : ¬RepeatsCollation tokens)
    (hread : settings.statement (Cursor.start tokens) = .ok e d) :
    Kept e.fields (payload tokens) := by
  have hkeeps := (Level.keepsBelow settings settings.maxDepth).statement
  obtain ⟨-, passed, hpasses, hkept⟩ :=
    hkeeps (.start tokens) (.start tokens) e d ⟨.start hrepeats, trivial⟩ hread
  have hahead : d.ahead = [] := Level.leads_statement _ (.start tokens) e d trivial hread
  have htokens : tokens = passed := by simpa [hahead, Cursor.start] using hpasses.ahead
  rwa [htokens]

/-- Where a collation follows another one, there are two of them. -/
theorem RepeatsCollation.two_le_countP {tokens : List Token} (h : RepeatsCollation tokens) :
    2 ≤ tokens.countP fun token => token.type == .keyword .COLLATE := by
  obtain ⟨before, first, name, closing, second, after, rfl, hfirst, -, hsecond⟩ := h
  simp only [List.countP_append, List.countP_cons, hfirst, hsecond, beq_self_eq_true, if_true]
  omega

namespace Dialect

/-- A text that is read as a statement is read as tokens, and the statement keeps the payload of
these unless a collation follows another one among them. -/
theorem parse_keepsPayload {d : Dialect} {text : String} {parsed : Parsed}
    (hparse : d.parse text = .ok parsed) :
    ∃ normalized, d.normalize text = .ok normalized ∧
      (¬RepeatsCollation normalized.tokens →
        Kept parsed.statement.fields (payload normalized.tokens)) := by
  obtain ⟨normalized, c, hnormalize, hread⟩ := exists_of_parse hparse
  exact ⟨normalized, hnormalize, fun hrepeats => Settings.kept_of_statement hrepeats hread⟩

/-- A statement with a hint, a negative number, an escaped name, a collation and a linked
database. -/
def payloadOfEachKind : String :=
  "SELECT /*+ h */ -1, \"a\" COLLATE 'x' FROM t@\"l\".m"

theorem parse_keepsPayload_ofEachKind :
    ∃ parsed normalized, oracle.parse payloadOfEachKind = .ok parsed ∧
      oracle.normalize payloadOfEachKind = .ok normalized ∧
        Kept parsed.statement.fields (payload normalized.tokens) := by
  have hreads : (oracle.parse payloadOfEachKind).isOk = true := by decide +kernel
  have honce : (match oracle.normalize payloadOfEachKind with
    | .ok normalized =>
      decide ((normalized.tokens.countP fun token => token.type == .keyword .COLLATE) < 2)
    | .error _ => false) = true := by
    decide +kernel
  cases hparse : oracle.parse payloadOfEachKind with
  | error e =>
      rw [hparse] at hreads
      cases hreads
  | ok parsed =>
      obtain ⟨normalized, hnormalize, hkept⟩ := parse_keepsPayload hparse
      rw [hnormalize] at honce
      refine ⟨parsed, normalized, rfl, hnormalize, hkept fun hrepeats => ?_⟩
      exact absurd hrepeats.two_le_countP (Nat.not_le.2 (of_decide_eq_true honce))

/-- In `SELECT a COLLATE 'x' COLLATE 'y' FROM t` the second collation replaces the first one,
whose name no field of the tree has. -/
theorem not_parse_keepsPayload_collatedTwice :
    ¬∀ (d : Dialect) (text : String) (normalized : Normalized) (parsed : Parsed),
      d.normalize text = .ok normalized → d.parse text = .ok parsed →
        Kept parsed.statement.fields (payload normalized.tokens) := by
  intro hall
  have hloses : (match postgreSql.normalize "SELECT a COLLATE 'x' COLLATE 'y' FROM t",
      postgreSql.parse "SELECT a COLLATE 'x' COLLATE 'y' FROM t" with
    | .ok normalized, .ok parsed => normalized.tokens.any fun token => token.type.isPayload &&
        decide (∀ field ∈ parsed.statement.fields, field.hasText token.text = false)
    | _, _ => false) = true := by
    decide +kernel
  split at hloses
  case h_1 normalized parsed hnormalize hparse =>
      obtain ⟨token, htoken, hlost⟩ := List.any_eq_true.1 hloses
      obtain ⟨htype, hnone⟩ := Bool.and_eq_true_iff.1 hlost
      obtain ⟨field, hfield, htext⟩ :=
        (hall _ _ normalized parsed hnormalize hparse).exists_hasText
          (mem_payload.2 ⟨htoken, htype⟩)
      rw [of_decide_eq_true hnone field hfield] at htext
      cases htext
  case h_2 => cases hloses

end Dialect

end SqlTree

import SqlTree.Proofs.Bracketing
import SqlTree.Proofs.Keywords
import SqlTree.Proofs.Parentheses
import SqlTree.Proofs.WellFormed.Statement

/-!
# Chains of set operators

A query is read as a chain of operands with set operators between them.  Where the operands and
the operators stand is told by `Level.Chain`, one link after the other; what is read from such a
chain is the tree that takes the operators from the left.  Main statement:
`Settings.query_of_chain`.
-/

namespace SqlTree

open SqlTree.Parser

/-! ## Links of a chain -/

/-- The ways to write a set operator. -/
def SetOp.spellings : SetOp → List (List Keyword)
  | .union => [[.UNION], [.UNION, .DISTINCT]]
  | .unionAll => [[.UNION, .ALL]]
  | .intersect => [[.INTERSECT]]
  | .intersectAll => [[.INTERSECT, .ALL]]
  | .except => [[.EXCEPT]]
  | .exceptAll => [[.EXCEPT, .ALL]]
  | .minus => [[.MINUS]]

def Cursor.NoSetOp (c : Cursor) : Prop :=
  ∀ word ∈ [Keyword.UNION, .INTERSECT, .EXCEPT, .MINUS], c.nextType ≠ some (.keyword word)

instance (c : Cursor) : Decidable c.NoSetOp :=
  inferInstanceAs (Decidable (∀ word ∈ _, _ ≠ _))

namespace Level

/-- The named queries before a chain, if there are any. -/
inductive WithList (g : Level) (c : Cursor) : List (WithQuery Expr) → Cursor → Prop where
  | none : WithList g c [] c
  | list {ws : List (WithQuery Expr)} {d : Cursor} (hwith : c.nextType = some (.keyword .WITH))
      (hread : g.commaList .withList g.withQuery c.step = .ok ws d) : WithList g c ws d

/-- Set operators with an operand behind each, up to a place where none follows. -/
inductive Operands (g : Level) : Cursor → List (SetOp × Expr) → Cursor → Prop where
  | done {c : Cursor} (hend : c.NoSetOp) : Operands g c [] c
  | more {c c' d d' : Cursor} {op : SetOp} {words : List Keyword} {right : Expr}
      {more : List (SetOp × Expr)} (hwords : words ∈ op.spellings) (hop : c.PassesWords words c')
      (hright : g.queryOperand c' = .ok right d') (hmore : Operands g d' more d) :
      Operands g c ((op, right) :: more) d

/-- A chain of operands: the named queries, the first operand, and what stands behind it. -/
inductive Chain (g : Level) (c : Cursor) (ws : List (WithQuery Expr)) (first : Expr)
    (more : List (SetOp × Expr)) (d : Cursor) : Prop where
  | intro {c' d' : Cursor} (hws : g.WithList c ws c') (hfirst : g.queryOperand c' = .ok first d')
      (hmore : g.Operands d' more d)

end Level

def Expr.unions (tag : Tag) (first : Expr) (more : List (SetOp × Expr)) : Expr :=
  more.foldl (fun left (op, right) => .node (.union [] left right op tag)) first

/-- A query with named queries in front of its own. -/
inductive Expr.InFront (ws : List (WithQuery Expr)) : Expr → Expr → Prop where
  | selectQuery {q : SelectQuery Expr} :
      InFront ws (.node (.selectQuery q))
        (.node (.selectQuery { q with withQueries := ws ++ q.withQueries }))
  | union {own : List (WithQuery Expr)} {left right : Expr} {op : SetOp} {tag : Tag} :
      InFront ws (.node (.union own left right op tag))
        (.node (.union (ws ++ own) left right op tag))

/-- An operand and the query that it is, without parentheses around it. -/
inductive Expr.Bare : Expr → Expr → Prop where
  | block {q : SelectQuery Expr} : Bare (.node (.selectQuery q)) (.node (.selectQuery q))
  | parenthesized {query : Expr} {tag : Tag} : Bare (.node (.select query none tag)) query

namespace Expr

variable {ws : List (WithQuery Expr)} {e tree : Expr}

theorem unions_concat (tag : Tag) (first : Expr) (more : List (SetOp × Expr)) (op : SetOp)
    (right : Expr) : unions tag first (more ++ [(op, right)]) =
      .node (.union [] (unions tag first more) right op tag) :=
  List.foldl_append

theorem InFront.eq_of_nil (h : e.InFront [] tree) : tree = e := by
  cases h <;> rfl

theorem InFront.withQueries_eq_ok (h : e.InFront ws tree) : e.withQueries ws = .ok tree := by
  cases h <;> rfl

end Expr

/-- Every query can take named queries. -/
theorem WellFormed.exists_inFront {e : Expr} (h : WellFormed .query e)
    (ws : List (WithQuery Expr)) : ∃ tree, e.InFront ws tree := by
  have hadmits := h.admits_toNode
  obtain ⟨n⟩ := e
  cases n with
  | selectQuery => exact ⟨_, .selectQuery⟩
  | union => exact ⟨_, .union⟩
  | _ => exact hadmits.elim

/-! ## Reading the links -/

namespace Level

variable {g : Level} {c d : Cursor} {op : SetOp} {words : List Keyword}

theorem setOp_of_noSetOp (hend : c.NoSetOp) : setOp c = .ok none c := by
  simp only [Cursor.NoSetOp, List.forall_mem_cons] at hend
  obtain ⟨hunion, hintersect, hexcept, hminus, -⟩ := hend
  exact setOp_of_not_next hunion hintersect hexcept hminus

/-- A set operator is read to its end where no word follows that it might go on with. -/
theorem setOp_of_words (hwords : words ∈ op.spellings) (hop : c.PassesWords words d)
    (hall : d.nextType ≠ some (.keyword .ALL))
    (hdistinct : d.nextType ≠ some (.keyword .DISTINCT)) :
    setOp c = .ok (some op) d := by
  have hnoAll : acceptKeyword .ALL d = .ok false d := accept_of_not_next hall
  have hnoDistinct : acceptKeyword .DISTINCT d = .ok false d := accept_of_not_next hdistinct
  unfold setOp
  cases op with
  | union =>
      rcases List.mem_pair.1 hwords with rfl | rfl
      · obtain rfl := hop.tail.eq_of_nil
        rw [branch_of_true hop.take, branch_of_false hnoAll, bind_of_ok hnoDistinct]
        rfl
      · obtain rfl := hop.tail.tail.eq_of_nil
        rw [branch_of_true hop.take, branch_of_false (hop.tail.skip .ALL nofun),
          bind_of_ok hop.tail.take]
        rfl
  | unionAll =>
      obtain rfl := List.mem_singleton.1 hwords
      obtain rfl := hop.tail.tail.eq_of_nil
      rw [branch_of_true hop.take, bind_of_ok hop.tail.take]
      rfl
  | intersect =>
      obtain rfl := List.mem_singleton.1 hwords
      obtain rfl := hop.tail.eq_of_nil
      rw [branch_of_false (hop.skip .UNION nofun), branch_of_true hop.take, bind_of_ok hnoAll]
      rfl
  | intersectAll =>
      obtain rfl := List.mem_singleton.1 hwords
      obtain rfl := hop.tail.tail.eq_of_nil
      rw [branch_of_false (hop.skip .UNION nofun), branch_of_true hop.take,
        bind_of_ok hop.tail.take]
      rfl
  | except =>
      obtain rfl := List.mem_singleton.1 hwords
      obtain rfl := hop.tail.eq_of_nil
      rw [branch_of_false (hop.skip .UNION nofun), branch_of_false (hop.skip .INTERSECT nofun),
        branch_of_true hop.take, bind_of_ok hnoAll]
      rfl
  | exceptAll =>
      obtain rfl := List.mem_singleton.1 hwords
      obtain rfl := hop.tail.tail.eq_of_nil
      rw [branch_of_false (hop.skip .UNION nofun), branch_of_false (hop.skip .INTERSECT nofun),
        branch_of_true hop.take, bind_of_ok hop.tail.take]
      rfl
  | minus =>
      obtain rfl := List.mem_singleton.1 hwords
      obtain rfl := hop.tail.eq_of_nil
      rw [branch_of_false (hop.skip .UNION nofun), branch_of_false (hop.skip .INTERSECT nofun),
        branch_of_false (hop.skip .EXCEPT nofun), branch_of_true hop.take]
      rfl

theorem nextType_of_queryOperand {e : Expr} (hread : g.queryOperand c = .ok e d) :
    c.nextType = some .lparen ∨ c.nextType = some (.keyword .SELECT) := by
  by_cases hopen : c.nextType = some .lparen
  · exact .inl hopen
  · rw [queryOperand_of_not_lparen hopen] at hread
    exact .inr (nextType_of_selectQuery hread)

theorem nextType_ne_of_queryOperand {e : Expr} (hread : g.queryOperand c = .ok e d) {word : Keyword}
    (hword : word ≠ .SELECT) : c.nextType ≠ some (.keyword word) := by
  intro hnext
  rcases nextType_of_queryOperand hread with hopen | hselect
  · rw [hnext] at hopen
    cases hopen
  · rw [hnext, Option.some.injEq, TokenType.keyword.injEq] at hselect
    exact hword hselect

/-- One link of a chain is one turn of the loop. -/
theorem unionTurn_of_words {c' : Cursor} {left right : Expr} (hwords : words ∈ op.spellings)
    (hop : c.PassesWords words c') (hright : g.queryOperand c' = .ok right d) :
    g.unionTurn left c = .ok (.again (.node (.union [] left right op g.tag))) d := by
  have hsetOp := setOp_of_words hwords hop (nextType_ne_of_queryOperand hright nofun)
    (nextType_ne_of_queryOperand hright nofun)
  unfold unionTurn
  rw [bind_of_ok hsetOp]
  dsimp only
  rw [bind_of_ok hright]
  rfl

namespace Operands

variable {more : List (SetOp × Expr)} {left : Expr}

theorem loopOver_eq_ok (h : g.Operands c more d) {turns : List Token}
    (hturns : more.length ≤ turns.length) :
    loopOver g.unionTurn turns left c = .ok (Expr.unions g.tag left more) d := by
  induction h generalizing left turns with
  | done hend =>
      refine loopOver_of_done ?_ turns
      unfold unionTurn
      rw [bind_of_ok (setOp_of_noSetOp hend)]
      rfl
  | more hwords hop hright _ ih =>
      cases turns with
      | nil => cases hturns
      | cons token turns =>
          rw [loopOver_cons, bind_of_ok (unionTurn_of_words hwords hop hright)]
          exact ih (Nat.le_of_succ_le_succ hturns)

/-- Each link takes a word at least, so that there are tokens enough for the turns of the loop. -/
theorem length_le (h : g.Operands c more d)
    (hpasses : ∀ {c d : Cursor} {e : Expr}, g.queryOperand c = .ok e d →
      ∃ tokens, c.Passes tokens d) : more.length ≤ c.ahead.length := by
  induction h with
  | done => exact Nat.zero_le _
  | @more c c' d d' op words right more hwords hop hright _ ih =>
      obtain ⟨tokens, hop, htypes⟩ := hop
      obtain ⟨tokens', hoperand⟩ := hpasses hright
      have hword : tokens ≠ [] := by
        rintro rfl
        rw [List.map_nil, eq_comm, List.map_eq_nil_iff] at htypes
        rw [htypes] at hwords
        cases op <;> simp [SetOp.spellings] at hwords
      have hpositive := List.length_pos_iff.2 hword
      have hlength := hop.length_ahead
      have hlength' := hoperand.length_ahead
      rw [List.length_cons]
      omega

end Operands

variable {settings : Settings} {levels : Nat} {ws : List (WithQuery Expr)} {first chain tree : Expr}
  {more : List (SetOp × Expr)} {c' d' : Cursor}

theorem passes_queryOperand {e : Expr}
    (hread : (⟨settings, produce settings levels⟩ : Level).queryOperand c = .ok e d) :
    ∃ tokens, c.Passes tokens d := by
  obtain ⟨tokens, hpasses, -⟩ :=
    (Likeness.levels_diagonal settings levels).queryOperand.passes hread
  exact ⟨tokens, hpasses⟩

theorem queryChain_of_operands (hg : g = ⟨settings, produce settings levels⟩)
    (hfirst : g.queryOperand c = .ok first d') (hmore : g.Operands d' more d) :
    g.queryChain c = .ok (Expr.unions g.tag first more) d := by
  unfold queryChain
  rw [bind_of_ok hfirst]
  refine hmore.loopOver_eq_ok (hmore.length_le fun hread => ?_)
  rw [hg] at hread
  exact passes_queryOperand hread

/-! ## Levels below an operand -/

theorem exists_of_commaList {α : Type} {construct : Construct} {item : Parser α} {items : List α}
    (hread : g.commaList construct item c = .ok items d) : ∃ a d', item c = .ok a d' := by
  unfold commaList Parser.commaList at hread
  generalize g.settings.maxIterations = cap at hread
  cases cap with
  | zero => cases hread
  | succ cap =>
      obtain ⟨a, d', hitem, -⟩ := bind_eq_ok.1 hread
      exact ⟨a, d', hitem⟩

/-- No expression is read without going one level further down. -/
theorem exists_below_of_expression {e : Expr} (hread : g.expression c = .ok e d) :
    ∃ production e' c' d', g.below production c' = .ok e' d' := by
  by_cases hnot : c.nextType = some (.keyword .NOT)
  · obtain ⟨_, _, hread⟩ := exists_negation_of_expression hread
    have haccept : acceptKeyword .NOT c = .ok true c.step := accept_of_next hnot
    unfold negation at hread
    rw [branch_of_true haccept] at hread
    obtain ⟨e', d', hbelow, -⟩ := bind_eq_ok.1 hread
    exact ⟨.negation, e', _, d', hbelow⟩
  · obtain ⟨e', d', hbelow⟩ := exists_operand_of_expression hnot hread
    exact ⟨.operand, e', c, d', hbelow⟩

/-- No operand of a set operator is read without going one level further down, since even the
shortest one holds an expression. -/
theorem exists_below_of_queryOperand {e : Expr} (hread : g.queryOperand c = .ok e d) :
    ∃ production e' c' d', g.below production c' = .ok e' d' := by
  by_cases hopen : c.nextType = some .lparen
  · rw [queryOperand_of_lparen hopen] at hread
    obtain ⟨-, query, d', hbelow, -⟩ := parenthesizedQuery_eq_ok.1 hread
    exact ⟨.query, query, _, d', hbelow⟩
  · rw [queryOperand_of_not_lparen hopen] at hread
    unfold selectQuery at hread
    obtain ⟨_, _, -, hread⟩ := bind_eq_ok.1 hread
    obtain ⟨_, _, -, hread⟩ := bind_eq_ok.1 hread
    obtain ⟨_, _, -, hread⟩ := bind_eq_ok.1 hread
    obtain ⟨_, _, -, hread⟩ := bind_eq_ok.1 hread
    obtain ⟨_, _, hcolumns, -⟩ := bind_eq_ok.1 hread
    obtain ⟨_, _, hitem⟩ := exists_of_commaList hcolumns
    obtain ⟨_, _, hexpression, -⟩ := bind_eq_ok.1 hitem
    exact exists_below_of_expression hexpression

theorem levels_pos_of_queryOperand {e : Expr}
    (hread : (⟨settings, produce settings levels⟩ : Level).queryOperand c = .ok e d) :
    0 < levels := by
  obtain ⟨production, _, _, _, hbelow⟩ := exists_below_of_queryOperand hread
  cases levels with
  | zero => cases hbelow
  | succ levels => exact Nat.succ_pos levels

/-! ## A chain as a query -/

/-- The named queries before a chain come in front of those of the query that it is. -/
theorem query_of_queryChain (hws : g.WithList c ws c') (hwith : c'.nextType ≠ some (.keyword .WITH))
    (hchain : g.queryChain c' = .ok chain d) (hfront : (unwrap chain).InFront ws tree) :
    g.query c = .ok tree d := by
  have hjoined := hfront.withQueries_eq_ok
  have hnothing : ws = [] → tree = unwrap chain := by
    rintro rfl
    exact hfront.eq_of_nil
  unfold query
  cases hws with
  | none =>
      have hnone : afterKeyword .WITH (g.commaList .withList g.withQuery) c = .ok none c := by
        unfold afterKeyword acceptKeyword
        rw [branch_of_false (accept_of_not_next hwith)]
        rfl
      rw [bind_of_ok hnone, bind_of_ok hchain, hnothing rfl]
      rfl
  | list hnext hread =>
      have hlist : afterKeyword .WITH (g.commaList .withList g.withQuery) c = .ok (some ws) c' := by
        unfold afterKeyword acceptKeyword
        rw [branch_of_true (accept_of_next hnext)]
        exact bind_of_ok hread _
      rw [bind_of_ok hlist, bind_of_ok hchain]
      cases ws with
      | nil =>
          rw [hnothing rfl]
          rfl
      | cons w ws =>
          dsimp only
          rw [hjoined]
          rfl

/-- An operand is a block or a query in parentheses; without them it can take named queries. -/
theorem exists_bare (hg : g.FormsBelow) (hread : g.queryOperand c = .ok first d)
    (ws : List (WithQuery Expr)) :
    ∃ query tree, first.Bare query ∧ unwrap first = query ∧ query.InFront ws tree := by
  have hformed : WellFormed .rightOperand first := hg.queryOperand c first d trivial hread
  have hquery := FormsBelow.query_unwrap (FormsBelow.leftOperand_of_rightOperand hformed)
  obtain ⟨tree, hfront⟩ := hquery.exists_inFront ws
  have hadmits := hformed.admits_toNode
  obtain ⟨n⟩ := first
  cases n with
  | selectQuery q => exact ⟨_, tree, .block, rfl, hfront⟩
  | select query aliasName tag =>
      obtain rfl : aliasName = none := hadmits
      exact ⟨query, tree, .parenthesized, rfl, hfront⟩
  | _ => exact hadmits.elim

end Level

/-! ## Reading a chain -/

namespace Settings

variable {settings : Settings} {c d : Cursor} {ws : List (WithQuery Expr)} {first : Expr}
  {more : List (SetOp × Expr)}

/-- A query opens a level and reads its chain there. -/
theorem query_of_rule {levels : Nat} {tree : Expr}
    (hlevels : settings.maxDepth - c.depth = levels + 1)
    (hread : (⟨settings, Level.produce settings levels⟩ : Level).query
      { c with depth := c.depth + 1 } = .ok tree d) :
    settings.query c = .ok tree { d with depth := c.depth } := by
  obtain ⟨tokens, hpasses, -⟩ := (Likeness.levels_diagonal settings levels).query.passes hread
  have hdepth : d.depth = c.depth + 1 := hpasses.depth
  change Level.produce settings (settings.maxDepth - c.depth) .query c = _
  rw [hlevels]
  have hnested := nested_of_ok hread
  rwa [hdepth, Nat.add_sub_cancel] at hnested

/-- The tree of a chain that stands one nesting level further down is read as a query, with the
named queries in front of its own. -/
theorem query_of_inFront {tree : Expr}
    (hchain : (Level.atDepth settings (c.depth + 1)).Chain { c with depth := c.depth + 1 }
      ws first more d)
    (hfront : (Level.unwrap (Expr.unions settings.tag first more)).InFront ws tree) :
    settings.query c = .ok tree { d with depth := c.depth } := by
  obtain @⟨c', d', hws, hfirst, hmore⟩ := hchain
  have hwith : c'.nextType ≠ some (.keyword .WITH) :=
    Level.nextType_ne_of_queryOperand hfirst nofun
  have hread : (Level.atDepth settings (c.depth + 1)).query { c with depth := c.depth + 1 } =
      .ok tree d :=
    Level.query_of_queryChain hws hwith (Level.queryChain_of_operands rfl hfirst hmore) hfront
  -- the level of the chain is not the last one, so that a query can be read at the level above it
  have hpositive := Level.levels_pos_of_queryOperand hfirst
  obtain ⟨levels, hlevels⟩ : ∃ levels, settings.maxDepth - c.depth = levels + 1 :=
    ⟨settings.maxDepth - c.depth - 1, by omega⟩
  have hlevel :
      Level.atDepth settings (c.depth + 1) = ⟨settings, Level.produce settings levels⟩ := by
    rw [Level.atDepth, ← Nat.sub_sub, hlevels, Nat.add_sub_cancel]
  rw [hlevel] at hread
  exact query_of_rule hlevels hread

/-- Where a chain of operands stands one nesting level further down, a query is read.  Behind the
named queries it is the tree that takes the set operators from the left, with the named queries at
its root; a single operand is the query itself, without parentheses around it and with the named
queries in front of its own.  An operand in parentheses is the query in them, wrapped. -/
theorem query_of_chain (settings : Settings) (c d : Cursor) (ws : List (WithQuery Expr))
    (first : Expr) (more : List (SetOp × Expr))
    (hchain : (Level.atDepth settings (c.depth + 1)).Chain { c with depth := c.depth + 1 }
      ws first more d) :
    (∀ before op right, more = before ++ [(op, right)] → settings.query c = .ok
      (.node (.union ws (Expr.unions settings.tag first before) right op settings.tag))
      { d with depth := c.depth }) ∧
    (more = [] → ∃ query tree, first.Bare query ∧ query.InFront ws tree ∧
      settings.query c = .ok tree { d with depth := c.depth }) ∧
    ∀ b operand e, b.depth = c.depth + 1 →
      (Level.atDepth settings b.depth).queryOperand b = .ok operand e → b.nextType = some .lparen →
      ∃ query e', operand = .node (.select query none settings.tag) ∧
        settings.query b.step = .ok query e' ∧ e'.nextType = some .rparen ∧ e = e'.step := by
  obtain @⟨c', d', hws, hfirst, hmore⟩ := hchain
  have hforms : (Level.atDepth settings (c.depth + 1)).FormsBelow := Level.gives_produce settings _
  refine ⟨?_, ?_, ?_⟩
  · rintro before op right rfl
    have hfront : Expr.InFront ws
        (.node (.union [] (Expr.unions settings.tag first before) right op settings.tag))
        (.node (.union (ws ++ []) (Expr.unions settings.tag first before) right op settings.tag)) :=
      .union
    rw [List.append_nil] at hfront
    refine query_of_inFront (.intro hws hfirst hmore) ?_
    rw [Expr.unions_concat]
    exact hfront
  · rintro rfl
    obtain ⟨query, tree, hbare, hunwrap, hfront⟩ := Level.exists_bare hforms hfirst ws
    refine ⟨query, tree, hbare, hfront, ?_⟩
    exact query_of_inFront (.intro hws hfirst hmore) (hunwrap ▸ hfront)
  · intro b operand e _ hread hopen
    rw [Level.queryOperand_of_lparen hopen] at hread
    obtain ⟨-, query, e', hbelow, hclose, rfl, rfl⟩ := Level.parenthesizedQuery_eq_ok.1 hread
    refine ⟨query, e', rfl, ?_, hclose, rfl⟩
    have hdepth : b.step.depth = b.depth := by
      unfold Cursor.step
      split <;> rfl
    rwa [Settings.query, hdepth]

/-- The tokens of `WITH a AS (SELECT 1) (SELECT 2) UNION DISTINCT SELECT 3`. -/
def parenthesizedUnion : List Token :=
  [.unplaced (.keyword .WITH) "WITH", .unplaced .identifier "a", .unplaced (.keyword .AS) "AS",
    .unplaced .lparen "(", .unplaced (.keyword .SELECT) "SELECT", .unplaced .number "1",
    .unplaced .rparen ")", .unplaced .lparen "(", .unplaced (.keyword .SELECT) "SELECT",
    .unplaced .number "2", .unplaced .rparen ")", .unplaced (.keyword .UNION) "UNION",
    .unplaced (.keyword .DISTINCT) "DISTINCT", .unplaced (.keyword .SELECT) "SELECT",
    .unplaced .number "3"]

/-- The cursor behind some of these tokens, one nesting level down. -/
def parenthesizedUnionBehind (n : Nat) : Cursor :=
  ⟨(parenthesizedUnion.take n).reverse, parenthesizedUnion.drop n, 1⟩

/-- The named query stands at the root, and the parentheses stay on the left of it. -/
theorem query_of_chain_parenthesizedUnion :
    let settings := Dialect.mySql.settings
    let c := Cursor.start parenthesizedUnion
    ∃ w query right,
      (Level.atDepth settings (c.depth + 1)).Chain { c with depth := c.depth + 1 } [w]
        (.node (.select query none settings.tag)) [(.union, right)] (parenthesizedUnionBehind 15) ∧
      settings.query c = .ok
        (.node (.union [w] (.node (.select query none settings.tag)) right .union settings.tag))
        { parenthesizedUnionBehind 15 with depth := c.depth } := by
  intro settings c
  let g := Level.atDepth settings (c.depth + 1)
  obtain ⟨w, hlist⟩ : ∃ w, g.commaList .withList g.withQuery (parenthesizedUnionBehind 1) =
      .ok [w] (parenthesizedUnionBehind 7) := ⟨_, rfl⟩
  obtain ⟨query, hfirst⟩ : ∃ query, g.queryOperand (parenthesizedUnionBehind 7) =
      .ok (.node (.select query none settings.tag)) (parenthesizedUnionBehind 11) := ⟨_, rfl⟩
  obtain ⟨right, hright⟩ : ∃ right, g.queryOperand (parenthesizedUnionBehind 13) =
      .ok right (parenthesizedUnionBehind 15) := ⟨_, rfl⟩
  have hop : (parenthesizedUnionBehind 11).PassesWords [.UNION, .DISTINCT]
      (parenthesizedUnionBehind 13) :=
    ⟨(parenthesizedUnion.drop 11).take 2, ⟨rfl, rfl, rfl⟩, rfl⟩
  have hmore : g.Operands (parenthesizedUnionBehind 11) [(.union, right)]
      (parenthesizedUnionBehind 15) := .more (by decide) hop hright (.done (by decide))
  have hchain : g.Chain { c with depth := c.depth + 1 } [w]
      (.node (.select query none settings.tag)) [(.union, right)] (parenthesizedUnionBehind 15) :=
    .intro (.list rfl hlist) hfirst hmore
  refine ⟨w, query, right, hchain, ?_⟩
  exact (query_of_chain settings c _ _ _ _ hchain).1 [] .union right rfl

/-- Where one nesting level is all that there is, an operand can be read and no query, which opens
one for itself before it reads an operand. -/
theorem not_query_of_chain_sameDepth :
    ¬∀ (settings : Settings) (c d : Cursor) (ws : List (WithQuery Expr)) (first : Expr)
      (more : List (SetOp × Expr)), (Level.atDepth settings c.depth).Chain c ws first more d →
      ∃ tree e, settings.query c = .ok tree e := by
  intro hall
  let settings : Settings := { Dialect.mySql.settings with maxDepth := 1 }
  let tokens : List Token := [.unplaced (.keyword .SELECT) "SELECT", .unplaced .star "*"]
  let d : Cursor := ⟨tokens.reverse, [], 0⟩
  obtain ⟨first, hfirst⟩ : ∃ first,
      (Level.atDepth settings 0).queryOperand (.start tokens) = .ok first d := ⟨_, rfl⟩
  have hend : d.NoSetOp := by decide
  obtain ⟨tree, e, hread⟩ :=
    hall settings (.start tokens) d [] first [] (.intro .none hfirst (.done hend))
  cases hread

end Settings

end SqlTree

import SqlTree.Proofs.Likeness.Source

/-!
# Like queries

Queries are read alike, with their set operators and named queries.
-/

namespace SqlTree

open SqlTree.Parser

/-! ## Named queries -/

namespace Expr

/-- Relabelling a query and named queries relabels the query with them in front, and leaves the
error alone where they are refused. -/
theorem map_withQueries (r : Relabel) (ws : List (WithQuery Expr)) (e : Expr) :
    (e.withQueries ws).map (relabelAll r) = (relabelAll r e).withQueries (relabelAll r ws) := by
  fun_induction Expr.withQueries ws e
  case case1 query =>
      simp [relabelAll, Except.map, Expr.relabel_node, Node.map, Node.relabel,
        SelectQuery.map, SelectQuery.relabel, Expr.withQueries, Function.comp_def]
  case case2 =>
      simp [relabelAll, Except.map, Expr.relabel_node, Node.map, Node.relabel,
        Expr.withQueries, Function.comp_def]
  case case3 query aliasName tag ih =>
      have hnode : relabelAll r (Expr.node (.select query aliasName tag)) =
          .node (.select (relabelAll r query) (relabelAll r aliasName) (relabelAll r tag)) :=
        Expr.relabel_node r _
      rw [hnode, Expr.withQueries, ← ih]
      cases query.withQueries ws with
      | ok a => exact congrArg Except.ok (Expr.relabel_node r _)
      | error e => rfl
  case case4 e hquery hunion hselect =>
      obtain ⟨n⟩ := e
      cases n
      case select => exact (hselect _ _ _ rfl).elim
      case selectQuery => exact (hquery _ rfl).elim
      case union => exact (hunion _ _ _ _ _ rfl).elim
      all_goals rfl

end Expr

namespace Level

theorem relabelAll_unwrap (r : Relabel) (e : Expr) :
    relabelAll r (unwrap e) = unwrap (relabelAll r e) := by
  obtain ⟨n⟩ := e
  cases n
  case select query aliasName tag =>
      cases aliasName <;> simp [relabelAll, unwrap, Expr.relabel_node, Node.map, Node.relabel]
  all_goals simp [relabelAll, unwrap, Expr.relabel_node, Node.map, Node.relabel]

end Level

/-- Before the ties of `TOP` stand a keyword and a word. -/
theorem Cursor.with_ties {c : Cursor} (hstarts : Level.startsWithTies c = true) :
    (∀ {type}, c.nextType = some type → type.isBracket = false) ∧
      ∀ {type}, c.secondType = some type → type.isBracket = false := by
  obtain ⟨behind, _ | ⟨a, _ | ⟨b, ahead⟩⟩, depth⟩ := c
  · cases hstarts
  · cases hstarts
  · obtain ⟨hwith, hties⟩ := Bool.and_eq_true_iff.1 hstarts
    refine ⟨fun htype => ?_, fun htype => ?_⟩
    · exact Option.some.inj htype ▸ eq_of_beq hwith ▸ rfl
    · exact Option.some.inj htype ▸ Token.not_isBracket_of_isThisWord hties

theorem Level.intoTable_of_not_next {g : Level} {c : Cursor}
    (hnext : c.nextType ≠ some (.keyword .INTO)) : g.intoTable c = .ok none c := by
  unfold Level.intoTable
  cases g.readsDialect .sqlServer with
  | false => rfl
  | true => exact bind_of_ok (accept_of_not_next hnext) _

namespace Likeness

variable {L : Likeness}

theorem Like.unwrap {e e' : Expr} (he : L.Like e e') :
    L.Like (Level.unwrap e) (Level.unwrap e') := by
  rw [Like, Level.relabelAll_unwrap, Level.relabelAll_unwrap, he]

/-- The named queries of a query, put in front of it. -/
theorem kept_withQueries (hL : L.Lawful) {ws ws' : List (WithQuery Expr)} (hws : L.Like ws ws')
    {e e' : Expr} (he : L.Like e e') :
    L.Kept L.Like
      (match e.withQueries ws with
        | .ok query => return query
        | .error e => throw e)
      (match e'.withQueries ws' with
        | .ok query => return query
        | .error e => throw e) := by
  intro s
  have hqueries : (e.withQueries ws).map (relabelAll L.firstLabel) =
      (e'.withQueries ws').map (relabelAll L.secondLabel) := by
    rw [Expr.map_withQueries, Expr.map_withQueries, he, hws]
  cases hleft : e.withQueries ws <;> cases hright : e'.withQueries ws' <;>
    rw [hleft, hright] at hqueries
  case ok.ok a b => exact .pure (Except.ok.inj hqueries)
  case error.error =>
      obtain rfl := Except.error.inj hqueries
      exact .throw (hL.same _)
  all_goals cases hqueries

theorem kept_unlessRead {α : Type} [Relabels α] {read read' : Option α}
    (hread : L.Like read read') {p p' : Parser (Option α)} (hp : L.Kept L.Like p p') :
    L.Kept L.Like (Level.unlessRead read p) (Level.unlessRead read' p') := by
  cases read with
  | none =>
      obtain rfl := Like.eq_none hread
      exact hp
  | some a =>
      obtain ⟨b, rfl, hab⟩ := Like.exists_some hread
      exact fun _ => .pure hread

theorem shared_startsWithTies (hL : L.Lawful) : L.Shared Level.startsWithTies := by
  rintro base s ⟨behind, ahead, depth⟩ ⟨behind', ahead', depth'⟩ habreast
  cases habreast.ahead with
  | nil => rfl
  | cons hfirst htail =>
      cases htail with
      | nil => rfl
      | cons hsecond _ =>
          simp only [Level.startsWithTies, hL.type hfirst, isThisWord_eq hL hsecond]

namespace Levels

variable {g g' : Level}

/-! ## The clauses of a query -/

theorem commentHints (h : L.Levels g g') : L.Kept L.Like g.commentHints g'.commentHints := by
  intro s
  refine Reads.bind (V := L.Like) (Kept.loop (fun hints hints' hhints t => ?_) .nil s)
    fun _ _ hhints => ?_
  · refine .isNextThen h.lawful ?_ (.pure (.done hhints))
    refine .takeOf h.lawful (fun _ => id) rfl fun a b hab => ?_
    exact .pure (.again (.cons (.hint (.string (h.lawful.text hab) h.tag) h.tag) hhints))
  · exact .pure (Like.reverse hhints)

theorem rowOption (h : L.Levels g g') : L.Kept Eq Level.rowOption Level.rowOption := by
  intro s
  refine .accept h.lawful rfl (.pure rfl) ?_
  refine .accept h.lawful rfl (.pure rfl) ?_
  exact .accept h.lawful rfl (.pure rfl) (.pure rfl)

theorem acceptWithTies (h : L.Levels g g') :
    L.Kept Eq Level.acceptWithTies Level.acceptWithTies := by
  intro s
  refine .testThen (shared_startsWithTies h.lawful) ?_ (.pure rfl)
  refine .takeTwo h.lawful (t := s) (fun c type hφ htype => (Cursor.with_ties hφ.2).1 htype)
    (fun c type hφ htype => ?_) (.pure rfl)
  exact Bracket.step_of_not_isBracket ((Cursor.with_ties hφ.2).2 htype) s

theorem topCount (h : L.Levels g g') : L.Kept L.Like g.topCount g'.topCount := by
  intro s
  refine .accept h.lawful rfl h.expressionClosed ?_
  refine (moves_expect h.lawful rfl).bind fun a b hab => ?_
  exact .pure (h.number (h.lawful.text hab))

theorem top (h : L.Levels g g') : L.Kept L.Like g.top g'.top := by
  intro s
  refine (h.topCount s).bind fun _ _ hcount => ?_
  refine (kept_acceptWord h.lawful s).bind_eq fun percent => ?_
  refine (h.acceptWithTies s).bind_eq fun withTies => ?_
  exact .pure (.top hcount h.tag)

theorem groupBy (h : L.Levels g g') : L.Kept L.Like g.groupBy g'.groupBy := by
  intro s
  refine (kept_expectKeyword h.lawful s).bind fun _ _ _ => ?_
  refine (h.commaList h.expression s).bind fun _ _ hitems => ?_
  refine (kept_afterKeyword h.lawful h.expression s).bind fun _ _ hhaving => ?_
  exact .pure (.groupBy hitems hhaving h.tag)

theorem startWith (h : L.Levels g g') : L.Kept L.Like g.startWith g'.startWith := by
  intro s
  refine .accept h.lawful rfl ?_ (.pure .none)
  refine (kept_expectKeyword h.lawful s).bind fun _ _ _ => ?_
  exact (h.expression s).map fun _ _ => .some

theorem connectBy (h : L.Levels g g') : L.Kept L.Like g.connectBy g'.connectBy := by
  intro s
  refine (h.startWith s).bind fun _ _ hbefore => ?_
  refine (kept_expectKeyword h.lawful s).bind fun _ _ _ => ?_
  refine (kept_expectKeyword h.lawful s).bind fun _ _ _ => ?_
  refine (kept_acceptKeyword h.lawful s).bind_eq fun nocycle => ?_
  refine (kept_acceptKeyword h.lawful s).bind_eq fun prior => ?_
  refine (h.expression s).bind fun _ _ hcondition => ?_
  refine (kept_unlessRead hbefore h.startWith s).bind fun _ _ hstart => ?_
  exact .pure (.connectBy hstart hcondition h.tag)

theorem connectByIfAny (h : L.Levels g g') :
    L.Kept L.Like g.connectByIfAny g'.connectByIfAny := by
  intro s
  refine (kept_isNextKeyword h.lawful s).bind_eq fun isStart => ?_
  refine (kept_isNextKeyword h.lawful s).bind_eq fun isConnect => ?_
  cases isStart || isConnect with
  | true => exact (h.connectBy s).map fun _ _ => .some
  | false => exact .pure .none

theorem intoTable (h : L.Levels g g') : L.Kept L.Like g.intoTable g'.intoTable := by
  intro s
  rcases h.lawful.into with hshares | hnever
  case inr =>
      intro base c d habreast _
      have hnext := habreast.nextType_ne hnever
      rw [Level.intoTable_of_not_next hnext,
        Level.intoTable_of_not_next (habreast.nextType h.lawful ▸ hnext)]
      exact .ok ⟨.none, habreast⟩
  unfold Level.intoTable
  rw [← h.readsDialect hshares]
  cases g.readsDialect .sqlServer with
  | false => exact .pure .none
  | true => exact kept_afterKeyword h.lawful h.tableName s

theorem selectQuery (h : L.Levels g g') : L.Kept L.Like g.selectQuery g'.selectQuery := by
  intro s
  refine (kept_expectKeyword h.lawful s).bind fun _ _ _ => ?_
  refine (h.commentHints s).bind fun _ _ hhints => ?_
  refine (h.rowOption s).bind_eq fun option => ?_
  refine (kept_afterKeyword h.lawful h.top s).bind fun _ _ htop => ?_
  refine (h.commaList h.selectItem s).bind fun _ _ hcolumns => ?_
  refine (h.intoTable s).bind fun _ _ hinto => ?_
  refine (kept_afterKeyword h.lawful h.sources s).bind fun _ _ hsource => ?_
  refine (kept_afterKeyword h.lawful h.expression s).bind fun _ _ hcondition => ?_
  refine (h.connectByIfAny s).bind fun _ _ hhierarchy => ?_
  refine (kept_afterKeyword h.lawful h.groupBy s).bind fun _ _ hgroupBy => ?_
  refine (kept_unlessRead hhierarchy h.connectByIfAny s).bind fun _ _ hconnectBy => ?_
  refine (kept_afterKeyword h.lawful h.orderBy s).bind fun _ _ horderBy => ?_
  refine (h.limit s).bind fun _ _ hlimit => ?_
  exact .pure (.selectQuery .nil hhints htop hcolumns hinto hsource hcondition hgroupBy hconnectBy
    horderBy hlimit h.tag)

/-! ## Chains of queries -/

theorem queryOperand (h : L.Levels g g') : L.Kept L.Like g.queryOperand g'.queryOperand :=
  fun s => .branch (kept_isNext h.lawful s) (h.parenthesizedQuery s) (h.selectQuery s)

theorem setOp (h : L.Levels g g') : L.Kept Eq Level.setOp Level.setOp := by
  intro s
  refine .accept h.lawful rfl ?_ ?_
  · refine .accept h.lawful rfl (.pure rfl) ?_
    exact (kept_acceptKeyword h.lawful s).bind_eq fun _ => .pure rfl
  refine .accept h.lawful rfl ?_ ?_
  · exact (kept_acceptKeyword h.lawful s).bind_eq fun _ => .pure rfl
  refine .accept h.lawful rfl ?_ ?_
  · exact (kept_acceptKeyword h.lawful s).bind_eq fun _ => .pure rfl
  exact .accept h.lawful rfl (.pure rfl) (.pure rfl)

theorem unionTurn (h : L.Levels g g') {left left' : Expr} (hleft : L.Like left left') :
    L.Kept (Turns L.Like) (g.unionTurn left) (g'.unionTurn left') := by
  intro s
  refine (h.setOp s).bind_eq fun op => ?_
  cases op with
  | none => exact .pure (.done hleft)
  | some op =>
      refine (h.queryOperand s).bind fun _ _ hright => ?_
      exact .pure (.again (.union .nil hleft hright h.tag))

theorem queryChain (h : L.Levels g g') : L.Kept L.Like g.queryChain g'.queryChain :=
  fun s => (h.queryOperand s).bind fun _ _ hleft =>
    Kept.loop (fun _ _ hleft => h.unionTurn hleft) hleft s

theorem withColumns (h : L.Levels g g') : L.Kept L.Like g.withColumns g'.withColumns := by
  intro s
  refine .accept h.lawful rfl ?_ (.pure .nil)
  refine (h.commaList h.namePart _).bind fun _ _ hcolumns => ?_
  exact (moves_expect h.lawful rfl).bind fun _ _ _ => .pure hcolumns

theorem withQuery (h : L.Levels g g') : L.Kept L.Like g.withQuery g'.withQuery := by
  intro s
  refine (h.namePart s).bind fun _ _ hname => ?_
  refine (h.withColumns s).bind fun _ _ hcolumns => ?_
  refine (kept_expectKeyword h.lawful s).bind fun _ _ _ => ?_
  refine (moves_expect h.lawful rfl).bind fun _ _ _ => ?_
  refine (h.below .query _).bind fun _ _ hquery => ?_
  refine (moves_expect h.lawful rfl).bind fun _ _ _ => ?_
  exact .pure (.withQuery hname hcolumns hquery h.tag)

theorem query (h : L.Levels g g') : L.Kept L.Like g.query g'.query := by
  intro s
  refine (kept_afterKeyword h.lawful (h.commaList h.withQuery) s).bind fun ws ws' hws => ?_
  refine (h.queryChain s).bind fun chain chain' hchain => ?_
  match ws, hws with
  | none, hws =>
      obtain rfl := Like.eq_none hws
      exact .pure (Like.unwrap hchain)
  | some [], hws =>
      obtain ⟨ws', rfl, hnil⟩ := Like.exists_some hws
      obtain rfl := Like.eq_nil hnil
      exact .pure (Like.unwrap hchain)
  | some (w :: ws), hws =>
      obtain ⟨ws', rfl, hlist⟩ := Like.exists_some hws
      obtain ⟨w', ws'', rfl, _, _⟩ := Like.exists_cons hlist
      exact kept_withQueries h.lawful hlist (Like.unwrap hchain) s

end Levels

end Likeness

end SqlTree

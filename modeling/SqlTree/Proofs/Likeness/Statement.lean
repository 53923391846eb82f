import SqlTree.Proofs.Likeness.Query

/-!
# Like statements

The rules are tied together: on every level each production is read alike.  Hence like tokens, read
from their start, give like expressions and like statements, or errors of one class.
-/

namespace SqlTree

open SqlTree.Parser

namespace Likeness

variable {L : Likeness}

theorem shared_mayStartQuery (hL : L.Lawful) : L.Shared Level.mayStartQuery := by
  intro base s c d habreast
  unfold Level.mayStartQuery
  rw [habreast.nextType hL]

theorem shared_isEmpty : L.Shared fun c : Cursor => c.ahead.isEmpty := by
  rintro base s ⟨behind, ahead, depth⟩ ⟨behind', ahead', depth'⟩ habreast
  cases habreast.ahead <;> rfl

namespace Levels

variable {g g' : Level}

/-! ## Statements -/

theorem insertColumns (h : L.Levels g g') : L.Kept L.Like g.insertColumns g'.insertColumns := by
  intro s
  refine .testThen (fun base s c d habreast => ?_) ?_ (.pure .nil)
  · have hquery : startsQuery c.ahead.tail = startsQuery d.ahead.tail :=
      shared_startsQuery_tail h.lawful habreast
    rw [habreast.nextType h.lawful, hquery]
  · refine .takeOf h.lawful (fun c hφ => eq_of_beq (Bool.and_eq_true_iff.1 hφ.2).1) rfl
      fun _ _ _ => ?_
    refine (h.commaList h.namePart _).bind fun _ _ hcolumns => ?_
    exact (moves_expect h.lawful rfl).bind fun _ _ _ => .pure hcolumns

theorem valuesRow (h : L.Levels g g') : L.Kept L.Like g.valuesRow g'.valuesRow := by
  intro s
  refine (moves_expect h.lawful rfl).bind fun _ _ _ => ?_
  refine (h.commaList h.expression _).bind fun _ _ hrow => ?_
  exact (moves_expect h.lawful rfl).bind fun _ _ _ => .pure hrow

theorem insert (h : L.Levels g g') : L.Kept L.Like g.insert g'.insert := by
  intro s
  refine (kept_expectKeyword h.lawful s).bind fun _ _ _ => ?_
  refine (h.commentHints s).bind fun _ _ hhints => ?_
  refine (kept_acceptKeyword h.lawful s).bind_eq fun _ => ?_
  refine (h.tableName s).bind fun _ _ htable => ?_
  refine (h.insertColumns s).bind fun _ _ hcolumns => ?_
  refine .accept h.lawful rfl ?_ ?_
  · refine (h.commaList h.valuesRow s).bind fun _ _ hrows => ?_
    exact .pure (.insert hhints htable hcolumns hrows .none h.tag)
  · refine .testThen (shared_mayStartQuery h.lawful) (Moves.reads ?_) (.refuseFor h.lawful)
    refine (h.below .query s).bind fun _ _ hquery => ?_
    exact .pure (.insert hhints htable hcolumns .nil (.some (h.subquery hquery)) h.tag)

theorem assignment (h : L.Levels g g') : L.Kept L.Like g.assignment g'.assignment := by
  intro s
  refine (h.unit s).bind fun _ _ htarget => ?_
  refine (moves_expect h.lawful rfl).bind fun _ _ _ => ?_
  refine (h.expression s).bind fun _ _ hvalue => ?_
  exact .pure (h.binary htarget hvalue)

theorem update (h : L.Levels g g') : L.Kept L.Like g.update g'.update := by
  intro s
  refine (kept_expectKeyword h.lawful s).bind fun _ _ _ => ?_
  refine (h.commentHints s).bind fun _ _ hhints => ?_
  refine (h.below .source s).bind fun _ _ htable => ?_
  refine (kept_expectKeyword h.lawful s).bind fun _ _ _ => ?_
  refine (h.commaList h.assignment s).bind fun _ _ hset => ?_
  refine (kept_afterKeyword h.lawful h.sources s).bind fun _ _ hsource => ?_
  refine (kept_afterKeyword h.lawful h.expression s).bind fun _ _ hcondition => ?_
  exact .pure (.update hhints htable hset hsource hcondition h.tag)

theorem fromUnless (h : L.Levels g g') {isFrom : Bool} :
    L.Kept L.Like (g.fromUnless isFrom) (g'.fromUnless isFrom) := by
  cases isFrom with
  | true => exact fun _ => .pure .none
  | false => exact kept_afterKeyword h.lawful h.sources

theorem delete (h : L.Levels g g') : L.Kept L.Like g.delete g'.delete := by
  intro s
  refine (kept_expectKeyword h.lawful s).bind fun _ _ _ => ?_
  refine (h.commentHints s).bind fun _ _ hhints => ?_
  refine (kept_acceptKeyword h.lawful s).bind_eq fun isFrom => ?_
  refine (h.below .source s).bind fun _ _ htable => ?_
  refine (h.fromUnless s).bind fun _ _ hsource => ?_
  refine (kept_afterKeyword h.lawful h.expression s).bind fun _ _ hcondition => ?_
  exact .pure (.delete hhints htable hsource hcondition h.tag)

theorem statementBody (h : L.Levels g g') :
    L.Kept L.Like g.statementBody g'.statementBody := by
  intro s
  have hquery : L.Moves L.Like s s (g.below .query >>= fun query => pure (g.subquery query))
      (g'.below .query >>= fun query => pure (g'.subquery query)) :=
    (h.below .query s).bind fun _ _ hquery => .pure (h.subquery hquery)
  refine .peekType h.lawful fun next => ?_
  cases next with
  | none => exact .throw (h.lawful.same _)
  | some type =>
      cases type with
      | lparen => exact hquery.reads
      | keyword word =>
          cases word with
          | SELECT | WITH => exact hquery.reads
          | INSERT => exact (h.insert s).reads
          | UPDATE => exact (h.update s).reads
          | DELETE => exact (h.delete s).reads
          | _ => exact .refuseFound h.lawful .statementStart
      | _ => exact .refuseFound h.lawful .statementStart

theorem statement (h : L.Levels g g') : L.Kept L.Like g.statement g'.statement := by
  intro s
  refine (h.statementBody s).bind fun _ _ he => ?_
  refine (kept_accept h.lawful rfl s).bind_eq fun _ => ?_
  exact .testThen shared_isEmpty (.pure he) (.refuseFound h.lawful .afterStatement)

/-! ## Productions -/

theorem rule (h : L.Levels g g') (production : Production) :
    L.Kept L.Like (g.rule production) (g'.rule production) := by
  cases production with
  | query => exact h.query
  | source => exact h.source
  | negation => exact h.negation
  | operand => exact h.operand
  | intervalValue => exact h.unit

end Levels

/-- With equally many levels left, or where running out of them parts the readings, each
production is read alike. -/
theorem kept_produce (hL : L.Lawful) {n n' : Nat}
    (hlevels : (L.first.maxDepth = L.second.maxDepth ∧ n = n') ∨
      ∀ cap, L.parts (.statement (.tooDeep cap))) (production : Production) :
    L.Kept L.Like (Level.produce L.first n production) (Level.produce L.second n' production) := by
  induction n generalizing n' production with
  | zero =>
      intro s
      rcases hlevels with ⟨hcap, rfl⟩ | hparts
      · rw [Level.produce, Level.produce, hcap]
        exact .throw (hL.same _)
      · exact .throwFirst (hparts _)
  | succ n ih =>
      cases n' with
      | zero =>
          rcases hlevels with ⟨-, hlevels⟩ | hparts
          · cases hlevels
          · exact fun _ => .throwSecond (hparts _)
      | succ n' =>
          have hbelow : (L.first.maxDepth = L.second.maxDepth ∧ n = n') ∨
              ∀ cap, L.parts (.statement (.tooDeep cap)) :=
            hlevels.imp_left fun ⟨hcap, hlevels⟩ => ⟨hcap, Nat.succ.inj hlevels⟩
          exact Kept.nested (Levels.rule ⟨hL, rfl, rfl, ih hbelow⟩ production)

theorem levels_atDepth (hL : L.Lawful) (depth : Nat) :
    L.Levels (Level.atDepth L.first depth) (Level.atDepth L.second depth) := by
  refine ⟨hL, rfl, rfl, kept_produce hL ?_⟩
  exact hL.maxDepth.imp_left fun hcap => ⟨hcap, by rw [hcap]⟩

/-- Like tokens give like statements or errors of one class. -/
theorem kept_statement (hL : L.Lawful) :
    L.Kept L.Like L.first.statement L.second.statement := by
  intro s base c d habreast _
  have h := levels_atDepth hL c.depth
  have hone := h.statement s base c d habreast trivial
  rw [Settings.statement, Settings.statement, ← habreast.depth]
  exact hone

/-- Like tokens give like expressions or errors of one class. -/
theorem kept_expression (hL : L.Lawful) :
    L.Kept L.Like L.first.expression L.second.expression := by
  intro s base c d habreast _
  have h := levels_atDepth hL c.depth
  have hone := h.expression s base c d habreast trivial
  rw [Settings.expression, Settings.expression, ← habreast.depth]
  exact hone

end Likeness

end SqlTree

import SqlTree.Grammar.Unit
import SqlTree.Proofs.Run

/-!
# Where rules stop

A chain of operators goes on while the next token is an operator of its layer, a chain of
predicates while a predicate follows, an operand while something is written behind it.  Elsewhere
they stop without taking anything.  Where no sign and no `NOT` is written in front, these rules
take nothing, too.
-/

namespace SqlTree

open SqlTree.Parser

def Cursor.continuesPredicate (c : Cursor) : Bool :=
  match c.nextType with
  | some type =>
    type.comparison?.isSome || type == .keyword .IS || type.regexSign?.isSome || type.takesNot ||
      c.isNegatedPredicate
  | none => false

def Cursor.continuesOperand (c : Cursor) : Bool :=
  c.nextType == some .lbracket || c.nextType == some (.keyword .COLLATE) ||
    match c.ahead with
    | a :: b :: _ => a.isThisWord "AT" && b.isThisWord "TIME"
    | _ => false

namespace Level

variable {g : Level} {c d : Cursor}

theorem chainTurn_stop
    {operator? : TokenType → Option BinaryOp} {operand : Parser Expr} {left : Expr}
    (hstop : c.nextType.bind operator? = none) :
    g.chainTurn operator? operand left c = .ok (.done left) c := by
  have hpeek : peekType c = .ok c.nextType c := rfl
  unfold chainTurn
  rw [bind_of_ok hpeek, hstop]
  rfl

/-- A chain of one operand. -/
theorem chain_of_stop
    {operator? : TokenType → Option BinaryOp} {operand : Parser Expr} {left : Expr}
    (hoperand : operand c = .ok left d) (hstop : d.nextType.bind operator? = none) :
    g.chain operator? operand c = .ok left d := by
  unfold chain
  rw [bind_of_ok hoperand]
  exact loop_of_done (chainTurn_stop hstop)

theorem wordPredicate_stop
    {left : Expr} (hnot : c.isNegatedPredicate = false)
    (hword : ∀ type, c.nextType = some type → type.takesNot = false) :
    g.wordPredicate left c = .ok (.done left) c := by
  have hnegated : predicateNot c = .ok false c := by
    have htest : test Cursor.isNegatedPredicate c = .ok false c := by rw [test, hnot]
    unfold predicateNot
    rw [branch_of_false htest]
    rfl
  have hnext : ∀ word : Keyword, (TokenType.keyword word).takesNot = true →
      acceptKeyword word c = .ok false c := by
    intro word htakes
    refine accept_of_not_next fun hnext => ?_
    rw [hword _ hnext] at htakes
    cases htakes
  unfold wordPredicate
  rw [bind_of_ok hnegated, branch_of_false (hnext .LIKE rfl), branch_of_false (hnext .ILIKE rfl),
    branch_of_false (hnext .BETWEEN rfl), branch_of_false (hnext .IN rfl),
    branch_of_false (hnext .REGEXP rfl)]
  rfl

theorem predicate_stop {left : Expr} (hstop : c.continuesPredicate = false) :
    g.predicate left c = .ok (.done left) c := by
  have hpeek : peekType c = .ok c.nextType c := rfl
  unfold predicate
  rw [bind_of_ok hpeek]
  cases hnext : c.nextType with
  | none =>
      have his : acceptKeyword .IS c = .ok false c := accept_of_not_next (hnext ▸ nofun)
      simp only [Option.bind_none]
      rw [branch_of_false his]
      refine wordPredicate_stop ?_ (hnext ▸ nofun)
      rw [Cursor.isNegatedPredicate, hnext]
      rfl
  | some type =>
      rw [Cursor.continuesPredicate, hnext] at hstop
      simp only [Bool.or_eq_false_iff, beq_eq_false_iff_ne, Option.isSome_eq_false_iff,
        Option.isNone_iff_eq_none] at hstop
      obtain ⟨⟨⟨⟨hcomparison, his⟩, hregex⟩, htakes⟩, hnot⟩ := hstop
      have his : acceptKeyword .IS c = .ok false c :=
        accept_of_not_next fun h => his (Option.some.inj (hnext.symm.trans h))
      simp only [Option.bind_some, hcomparison, hregex]
      rw [branch_of_false his]
      refine wordPredicate_stop hnot fun type' htype => ?_
      rw [hnext, Option.some.injEq] at htype
      exact htype ▸ htakes

theorem suffix_stop {e : Expr} (hstop : c.continuesOperand = false) :
    g.suffix e c = .ok (.done e) c := by
  simp only [Cursor.continuesOperand, Bool.or_eq_false_iff, beq_eq_false_iff_ne] at hstop
  obtain ⟨⟨hbracket, hcollate⟩, hwords⟩ := hstop
  have hbracket : accept .lbracket c = .ok false c := accept_of_not_next hbracket
  have hcollate : acceptKeyword .COLLATE c = .ok false c := accept_of_not_next hcollate
  have hwords : areNextWords "AT" "TIME" c = .ok false c := by
    rw [areNextWords, test]
    exact congrArg (fun b => EStateM.Result.ok b c) hwords
  unfold suffix
  rw [branch_of_false hbracket, branch_of_false hwords, branch_of_false hcollate]
  rfl

/-- An operand without a sign is a unit with its suffixes. -/
theorem operand_of_no_sign
    (hplus : c.nextType ≠ some .plus) (hdash : c.nextType ≠ some .dash) :
    g.operand c = (g.unit >>= fun e => loop g.suffix e) c := by
  have hsigns : plusSigns c = .ok () c := by
    refine loop_of_done ?_
    rw [branch_of_false (accept_of_not_next hplus)]
    rfl
  unfold operand
  rw [bind_of_ok hsigns, branch_of_false (accept_of_not_next hdash)]

/-- Without `NOT` in front a negation is a comparison. -/
theorem negation_of_no_not (hnot : c.nextType ≠ some (.keyword .NOT)) :
    g.negation c = g.relational c := by
  have hnone : acceptKeyword .NOT c = .ok false c := accept_of_not_next hnot
  unfold negation
  rw [branch_of_false hnone]

end Level

end SqlTree

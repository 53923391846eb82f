import SqlTree.Proofs.Likeness.Name
import SqlTree.Proofs.Lookahead

/-!
# Like operations

Each layer of operators is read alike when the layers below it are.  Whether a query or an
expression stands in parentheses depends on the types of the tokens only, so like tokens decide it
alike.
-/

namespace SqlTree

open SqlTree.Parser

namespace TokenType

variable {type : TokenType} {op : BinaryOp}

theorem not_isBracket_of_multiplicative? (hop : type.multiplicative? = some op) :
    type.isBracket = false := by
  cases type <;> first | rfl | cases hop

theorem not_isBracket_of_additive? (hop : type.additive? = some op) : type.isBracket = false := by
  cases type <;> first | rfl | cases hop

theorem not_isBracket_of_comparison? (hop : type.comparison? = some op) :
    type.isBracket = false := by
  cases type <;> first | rfl | cases hop

theorem not_isBracket_of_regexSign? {sign : Bool × Bool} (hsign : type.regexSign? = some sign) :
    type.isBracket = false := by
  cases type <;> first | rfl | cases hsign

theorem not_isBracket_of_conjunction? (hop : type.conjunction? = some op) :
    type.isBracket = false := by
  cases type <;> first | rfl | cases hop

theorem not_isBracket_of_exclusion? (hop : type.exclusion? = some op) :
    type.isBracket = false := by
  cases type <;> first | rfl | cases hop

theorem not_isBracket_of_disjunction? (hop : type.disjunction? = some op) :
    type.isBracket = false := by
  cases type <;> first | rfl | cases hop

end TokenType

namespace Likeness

variable {L : Likeness}

/-! ## The look ahead -/

theorem endsOperand_eq (hL : L.Lawful) {xs ys : List Token} (h : List.Forall₂ L.token xs ys) :
    Lookahead.endsOperand xs = Lookahead.endsOperand ys := by
  cases h with
  | nil => rfl
  | cons hhead _ => simp only [Lookahead.endsOperand, hL.type hhead]

theorem leadingClose_eq (hL : L.Lawful) {xs ys : List Token} (h : List.Forall₂ L.token xs ys)
    (isOpen lowest : Nat) :
    Lookahead.leadingClose isOpen lowest xs = Lookahead.leadingClose isOpen lowest ys := by
  induction h generalizing isOpen lowest with
  | nil => rfl
  | cons hhead htail ih =>
      simp only [Lookahead.leadingClose, hL.type hhead, endsOperand_eq hL htail, ih]

theorem queryAfter_eq (hL : L.Lawful) {xs ys : List Token} (h : List.Forall₂ L.token xs ys)
    (leading : Nat) : Lookahead.queryAfter leading xs = Lookahead.queryAfter leading ys := by
  induction h generalizing leading with
  | nil => rfl
  | cons hhead htail ih =>
      simp only [Lookahead.queryAfter, hL.type hhead, leadingClose_eq hL htail, ih]

theorem shared_startsQuery (hL : L.Lawful) : L.Shared fun c => startsQuery c.ahead := by
  intro base s c d habreast
  simp only [startsQuery_eq, queryAfter_eq hL habreast.ahead]

theorem shared_startsQuery_tail (hL : L.Lawful) : L.Shared fun c => startsQuery c.ahead.tail := by
  intro base s c d habreast
  have htail := List.forall₂_drop 1 habreast.ahead
  rw [List.drop_one, List.drop_one] at htail
  simp only [startsQuery_eq, queryAfter_eq hL htail]

theorem shared_isNegatedPredicate (hL : L.Lawful) : L.Shared Cursor.isNegatedPredicate :=
  .ofTypes hL fun next second =>
    next == some (.keyword .NOT) && (second.map TokenType.takesNot).getD false

namespace Levels

variable {g g' : Level}

/-! ## Operators -/

theorem chain (h : L.Levels g g') {operator? : TokenType → Option BinaryOp}
    (hplain : ∀ type op, operator? type = some op → type.isBracket = false)
    {operand operand' : Parser Expr} (hoperand : L.Kept L.Like operand operand') :
    L.Kept L.Like (g.chain operator? operand) (g'.chain operator? operand') := by
  intro s
  refine (hoperand s).bind fun left left' hleft => ?_
  refine Kept.loop (fun left left' hleft t => ?_) hleft s
  refine .peekType h.lawful fun next => ?_
  cases hop : next.bind operator? with
  | none => exact .pure (.done hleft)
  | some op =>
      refine .takePlain h.lawful (fun c type hnext htype => ?_) fun _ _ _ => ?_
      · rw [← hnext, htype] at hop
        exact hplain type op hop
      · refine (hoperand t).bind fun right right' hright => ?_
        exact .pure (.again (h.binary hleft hright))

theorem multiplicative (h : L.Levels g g') : L.Kept L.Like g.multiplicative g'.multiplicative :=
  h.chain (fun _ _ => TokenType.not_isBracket_of_multiplicative?) (h.below .operand)

theorem additive (h : L.Levels g g') : L.Kept L.Like g.additive g'.additive :=
  h.chain (fun _ _ => TokenType.not_isBracket_of_additive?) h.multiplicative

theorem truthOrNull (h : L.Levels g g') : L.Kept L.Like g.truthOrNull g'.truthOrNull := by
  intro s
  refine .accept h.lawful rfl (.pure h.null) ?_
  refine .accept h.lawful rfl (.pure h.bool) ?_
  exact .accept h.lawful rfl (.pure h.bool) (.refuseFor h.lawful)

theorem isPredicate (h : L.Levels g g') {left left' : Expr} (hleft : L.Like left left') :
    L.Kept L.Like (g.isPredicate left) (g'.isPredicate left') := by
  intro s
  refine (kept_acceptKeyword h.lawful s).bind_eq fun isNot => ?_
  refine (h.truthOrNull s).bind fun right right' hright => ?_
  exact .pure (h.binary hleft hright)

theorem targets (h : L.Levels g g') :
    L.Kept (fun x y => L.Like x.1 y.1 ∧ L.Like x.2 y.2) g.targets g'.targets := by
  intro s
  refine .testThen (shared_startsQuery h.lawful) (Moves.reads ?_) (Moves.reads ?_)
  · refine (h.below .query s).bind fun query query' hquery => ?_
    exact .pure ⟨.nil, .some (h.subquery hquery)⟩
  · exact (h.commaList h.additive s).bind fun list list' hlist => .pure ⟨hlist, .none⟩

theorem membership (h : L.Levels g g') {left left' : Expr} (hleft : L.Like left left')
    {negated : Bool} : L.Kept L.Like (g.membership left negated) (g'.membership left' negated) := by
  intro s
  refine (moves_expect h.lawful rfl).bind fun _ _ _ => ?_
  refine (h.targets _).bind fun (list, query) (list', query') ⟨hlist, hquery⟩ => ?_
  refine (moves_expect h.lawful rfl).bind fun _ _ _ => ?_
  exact .pure (.membership hleft hlist hquery h.tag)

theorem between (h : L.Levels g g') {left left' : Expr} (hleft : L.Like left left')
    {negated : Bool} : L.Kept L.Like (g.between left negated) (g'.between left' negated) := by
  intro s
  refine (h.additive s).bind fun low low' hlow => ?_
  refine (kept_expectKeyword h.lawful s).bind fun _ _ _ => ?_
  refine (h.additive s).bind fun high high' hhigh => ?_
  exact .pure (.between hleft hlow hhigh h.tag)

theorem regex (h : L.Levels g g') {left left' : Expr} (hleft : L.Like left left')
    {ignoresCase negated : Bool} :
    L.Kept L.Like (g.regex left ignoresCase negated) (g'.regex left' ignoresCase negated) :=
  fun s => (h.additive s).bind fun _ _ hpattern => .pure (.regex hleft hpattern h.tag)

theorem predicateNot (h : L.Levels g g') :
    L.Kept Eq Level.predicateNot Level.predicateNot := by
  intro s
  refine .testThen (shared_isNegatedPredicate h.lawful) ?_ (.pure rfl)
  refine .takePlain h.lawful (fun c type hφ htype => ?_) fun _ _ _ => .pure rfl
  have hnot := hφ.2
  rw [Cursor.isNegatedPredicate, htype, Bool.and_eq_true] at hnot
  rw [Option.some.inj (eq_of_beq hnot.1)]
  rfl

theorem wordPredicate (h : L.Levels g g') {left left' : Expr} (hleft : L.Like left left') :
    L.Kept (Turns L.Like) (g.wordPredicate left) (g'.wordPredicate left') := by
  intro s
  refine (h.predicateNot s).bind_eq fun negated => ?_
  have hbinary : ∀ op : BinaryOp, L.Moves (Turns L.Like) s s
      (g.additive >>= fun right => pure (.again (g.binary left op right)))
      (g'.additive >>= fun right => pure (.again (g'.binary left' op right))) := fun op =>
    (h.additive s).bind fun _ _ hright => .pure (.again (h.binary hleft hright))
  refine .accept h.lawful rfl (hbinary _) ?_
  refine .accept h.lawful rfl (hbinary _) ?_
  refine .accept h.lawful rfl ?_ ?_
  · refine (h.between hleft s).bind fun _ _ he => ?_
    exact .pure (.done he)
  refine .accept h.lawful rfl ?_ ?_
  · refine (h.membership hleft s).bind fun _ _ he => ?_
    exact .pure (.done he)
  refine .accept h.lawful rfl ?_ (.pure (.done hleft))
  refine (h.regex hleft s).bind fun _ _ he => ?_
  exact .pure (.done he)

theorem predicate (h : L.Levels g g') {left left' : Expr} (hleft : L.Like left left') :
    L.Kept (Turns L.Like) (g.predicate left) (g'.predicate left') := by
  intro s
  refine .peekType h.lawful fun next => ?_
  cases hop : next.bind TokenType.comparison? with
  | some op =>
      refine .takePlain h.lawful (fun c type hnext htype => ?_) fun _ _ _ => ?_
      · rw [← hnext, htype] at hop
        exact TokenType.not_isBracket_of_comparison? hop
      · refine (h.additive s).bind fun _ _ hright => ?_
        exact .pure (.again (h.binary hleft hright))
  | none =>
      refine .accept h.lawful rfl ?_ ?_
      · refine (h.isPredicate hleft s).bind fun _ _ he => ?_
        exact .pure (.done he)
      cases hsign : next.bind TokenType.regexSign? with
      | some sign =>
          refine .takePlain h.lawful (fun c type hnext htype => ?_) fun _ _ _ => ?_
          · rw [← hnext, htype] at hsign
            exact TokenType.not_isBracket_of_regexSign? hsign
          · refine (h.regex hleft s).bind fun _ _ he => ?_
            exact .pure (.done he)
      | none => exact (h.wordPredicate hleft s).reads

theorem relational (h : L.Levels g g') : L.Kept L.Like g.relational g'.relational :=
  fun s => (h.additive s).bind fun _ _ hleft =>
    Kept.loop (fun _ _ hleft => h.predicate hleft) hleft s

theorem negation (h : L.Levels g g') : L.Kept L.Like g.negation g'.negation := by
  intro s
  refine .accept h.lawful rfl ?_ (h.relational s)
  refine (h.below .negation s).bind fun e e' he => ?_
  exact .pure (.not he h.tag)

theorem expression (h : L.Levels g g') : L.Kept L.Like g.expression g'.expression :=
  h.chain (fun _ _ => TokenType.not_isBracket_of_disjunction?)
    (h.chain (fun _ _ => TokenType.not_isBracket_of_exclusion?)
      (h.chain (fun _ _ => TokenType.not_isBracket_of_conjunction?) h.negation))

end Levels

end Likeness

end SqlTree

import SqlTree.Proofs.Omission.Rules
import SqlTree.Proofs.Spending.Statement

/-!
# Names and operators without `AS`

Names are read alike with the word and without it, since `AS` is not read as a name.  Behind an
expression the first reading may be stuck: the second one may take the name, or what follows it,
for the start of a time zone.
-/

namespace SqlTree

open SqlTree.Parser SqlTree.Omission

/-- Where the first reading may be stuck behind a production. -/
abbrev Omission.stuckBehind (o : Omission) : Production → Cursor → Prop
  | .query => o.Foreign
  | .source => Never
  | .negation | .operand | .intervalValue => o.Open

/-- A level whose productions are followed.  The word `AS` and the word `WITH` start no operand. -/
structure Level.Omits (g : Level) (o : Omission) : Prop where
  below : ∀ production,
    o.Follows (fun _ => True) Never (o.stuckBehind production) (g.below production)
  unfit : ∀ c a d, c.nextType = some (.keyword .AS) ∨ c.nextType = some (.keyword .WITH) →
    g.below .operand c ≠ .ok a d
  keeps : ∀ depth, g.KeepsTo ⟨depth, 0, 0⟩

namespace Level.Omits

open SqlTree.Omission.Follows

variable {o : Omission} {φ S : Cursor → Prop} {c d : Cursor} {g : Level}

/-! ## Names -/

theorem isNamePart_of_atWord (hat : o.AtWord c) : c.isNamePart = false := by
  have hdot : c.isAfterDot = false := by
    rw [Cursor.isAfterDot, beq_eq_false_iff_ne]
    exact fun hlast => not_atWord_of_behind hlast rfl hat
  rw [Cursor.isNamePart, hdot, Cursor.startsName, Cursor.startsKeywordCall, hat.nextType]
  rfl

theorem startsName_eq (hapart : o.Apart c d) (hat : ¬o.AtWord c) : c.startsName = d.startsName := by
  rw [Cursor.startsName, Cursor.startsName, hapart.nextType_eq hat]

theorem startsKeywordCall_eq (hapart : o.Apart c d) (hat : ¬o.AtWord c) :
    c.startsKeywordCall = d.startsKeywordCall := by
  rw [Cursor.startsKeywordCall, Cursor.startsKeywordCall, hapart.nextType_eq hat,
    hapart.secondType_beq hat rfl]

theorem isNamePart_eq (hapart : o.Apart c d) (hat : ¬o.AtWord c) : c.isNamePart = d.isNamePart := by
  rw [Cursor.isNamePart, Cursor.isNamePart, startsName_eq hapart hat,
    startsKeywordCall_eq hapart hat, Cursor.isAfterDot, Cursor.isAfterDot, hapart.behind,
    hapart.nextType_eq hat]

theorem isWordOr_eq {also : TokenType → Bool} (hapart : o.Apart c d) (hat : ¬o.AtWord c) :
    c.isWordOr also = d.isWordOr also := by
  rw [Cursor.isWordOr, Cursor.isWordOr, hapart.nextType_eq hat]

theorem namePart (g : Level) : o.Follows φ Never Never g.namePart := by
  have htake : o.Follows (fun c => ¬o.AtWord c) Never Never
      (do return g.identifierOf (← Parser.take)) := takeOffWord (fun _ => id) fun _ => .pure
  exact testOrFail (fun _ => isNamePart_of_atWord) (fun _ _ => isNamePart_eq) htake
    fun _ _ _ => nofun

theorem namePath (g : Level) : o.Follows φ Never Never g.namePath := by
  have hpart : ∀ {path : NamePath}, Forward (do return Turn.again (path.push (← g.namePart))) :=
    .spends fun _ => KeepsTo.namePart.returns
  refine (namePart g).bind fun _ => ?_
  refine .loop (fun _ => ?_) fun _ => ?_
  · exact acceptThen rfl (namePart g).returns .pure
  · exact .acceptThen hpart .done

theorem collate (g : Level) :
    o.Follows (fun c => c.behind.head?.map Token.type = some (.keyword .COLLATE)) Never Never
      g.collate := by
  refine testThen (.offWord (fun _ hc => not_atWord_of_behind hc rfl) fun _ _ => isWordOr_eq)
    ?_ refuseFor
  exact takeOffWord (fun _ hc => not_atWord_of_behind hc.1 rfl) fun _ => .pure

/-- Behind a sigil stands another one, or the name. -/
theorem sigil (type : TokenType) : o.Follows φ Never Never (Level.sigil type) := by
  unfold Level.sigil
  split
  case isTrue => exact acceptThen rfl .pure .pure
  case isFalse => exact .pure

def IsBehindSigil (c : Cursor) : Prop :=
  c.behind.head?.map Token.type = some .atSign ∨ c.behind.head?.map Token.type = some .colon

theorem IsBehindSigil.not_atWord (h : IsBehindSigil c) : ¬o.AtWord c := by
  rcases h with hlast | hlast
  · exact not_atWord_of_behind hlast rfl
  · exact not_atWord_of_behind hlast rfl

theorem IsBehindSigil.sigil {type : TokenType} {a : String} (h : IsBehindSigil c)
    (hp : Level.sigil type c = .ok a d) : IsBehindSigil d := by
  unfold Level.sigil at hp
  split at hp
  case isTrue =>
    by_cases hnext : c.nextType = some .atSign
    · obtain ⟨token, tokens, hahead, htoken⟩ := Cursor.exists_ahead_of_nextType hnext
      rw [branch_of_true (accept_of_next hnext)] at hp
      obtain ⟨-, rfl⟩ := pure_eq_ok.1 hp
      left
      rw [Cursor.step, hahead, ← htoken]
      rfl
    · rw [branch_of_false (accept_of_not_next hnext)] at hp
      obtain ⟨-, rfl⟩ := pure_eq_ok.1 hp
      exact h
  case isFalse =>
    obtain ⟨-, rfl⟩ := pure_eq_ok.1 hp
    exact h

theorem variableName (g : Level) {type : TokenType} (htype : type = .atSign ∨ type = .colon) :
    o.Follows (fun c => c.nextType = some type) Never Never g.variableName := by
  have hsteady : type.isSteady = true := by
    rcases htype with rfl | rfl <;> rfl
  have hbehind : ∀ c : Cursor, c.nextType = some type → IsBehindSigil c.step := by
    intro c hnext
    obtain ⟨token, tokens, hahead, rfl⟩ := Cursor.exists_ahead_of_nextType hnext
    rw [IsBehindSigil, Cursor.step, hahead]
    exact htype.imp (congrArg some) (congrArg some)
  refine takeKnowing hsteady (fun _ => id) hbehind fun first => ?_
  refine (sigil first.type).bindKnowing (fun _ _ _ => IsBehindSigil.sigil) fun s => ?_
  refine testThen (.offWord (fun _ => IsBehindSigil.not_atWord) fun _ _ => isWordOr_eq) ?_ refuseFor
  exact takeOffWord (fun _ hc => hc.1.not_atWord) fun _ => .pure

/-! ## Aliases -/

/-- What stands behind `AS` is the alias, even another `AS`. -/
theorem aliasName_of_nextType (g : Level) (hnext : c.nextType = some (.keyword .AS)) :
    g.aliasName c = (do
      if ← test (Cursor.isWordOr fun type => type = .quotedIdentifier || type = .string) then
        return some (g.identifierOf (← Parser.take))
      else Parser.refuseFor .aliasName : Parser (Option Identifier)) c.step := by
  unfold Level.aliasName
  rw [acceptKeyword, branch_of_true (accept_of_next hnext)]

theorem aliasName_of_nextType_ne (g : Level) (hnext : c.nextType ≠ some (.keyword .AS)) :
    g.aliasName c = (do
      if ← test fun c => (c.ahead.head?.map Token.isBareAlias).getD false then
        return some (g.identifierOf (← Parser.take))
      else return none : Parser (Option Identifier)) c := by
  unfold Level.aliasName
  rw [acceptKeyword, branch_of_false (accept_of_not_next hnext)]

theorem aliasName_word (g : Level) {word name : Token} {rest : List Token}
    (hahead : c.ahead = word :: name :: rest) (hword : word.type = .keyword .AS)
    (hname : name.type = .identifier ∨ name.type = .quotedIdentifier) :
    g.aliasName c = .ok (some (g.identifierOf name)) c.step.step := by
  have hstep : c.step.ahead = name :: rest := Cursor.step_ahead hahead
  have hlook : c.step.isWordOr (fun type => type = .quotedIdentifier || type = .string) = true := by
    rw [Cursor.isWordOr, Cursor.nextType_of_ahead hstep]
    rcases hname with htype | htype <;> rw [htype] <;> rfl
  rw [aliasName_of_nextType g (by rw [Cursor.nextType_of_ahead hahead, hword])]
  rw [bind_of_ok (a := true) (d := c.step) (by rw [test, hlook]), if_pos rfl]
  rw [bind_of_ok (take_of_ahead hstep)]
  rfl

/-- A name that can be told to be an alias is one without `AS`. -/
theorem aliasName_bare (g : Level) {name : Token} {rest : List Token}
    (hahead : c.ahead = name :: rest) (hbare : name.isBareAlias = true) :
    g.aliasName c = .ok (some (g.identifierOf name)) c.step := by
  have hnext : c.nextType ≠ some (.keyword .AS) := by
    rw [Cursor.nextType_of_ahead hahead]
    intro hname
    rw [Token.isBareAlias, Option.some.inj hname] at hbare
    cases hbare
  have hlook : (c.ahead.head?.map Token.isBareAlias).getD false = true := by
    rw [hahead]
    exact hbare
  rw [aliasName_of_nextType_ne g hnext]
  rw [bind_of_ok (a := true) (d := c) (by rw [test, hlook]), if_pos rfl]
  rw [bind_of_ok (take_of_ahead hahead)]
  rfl

/-- Both readings find the same alias, whether it is the one in question or another one. -/
theorem aliasName_together {a : Option Identifier} {c' : Cursor} (g : Level) (hapart : o.Apart c d)
    (hread : g.aliasName c = .ok a c') : ∃ d', g.aliasName d = .ok a d' ∧ o.Apart c' d' := by
  have hnever : ∀ {P : Prop}, Never c' ∨ P → P := fun h => h.resolve_left id
  have hbehind :
      o.Follows (fun c => c.behind.head?.map Token.type = some (.keyword .AS)) Never Never
      (do
        if ← test (Cursor.isWordOr fun type => type = .quotedIdentifier || type = .string) then
          return some (g.identifierOf (← Parser.take))
        else Parser.refuseFor .aliasName) :=
    testThen (.offWord (fun _ hc => not_atWord_of_behind hc rfl) fun _ _ => isWordOr_eq)
      (takeOffWord (fun _ hc => not_atWord_of_behind hc.1 rfl) fun _ => .pure) refuseFor
  have hbare : o.Follows (fun c => ¬o.AtWord c) Never Never
      (do
        if ← test fun c => (c.ahead.head?.map Token.isBareAlias).getD false then
          return some (g.identifierOf (← Parser.take))
        else return none) := by
    refine testThen (.offWord (fun _ => id) fun _ _ hapart hat => ?_) ?_ .pure
    · rw [hapart.head_eq hat]
    · exact takeOffWord (fun _ hc => hc.1) fun _ => .pure
  by_cases hnext : c.nextType = some (.keyword .AS)
  · cases hapart.next with
    | word _ hc hd _ hstep =>
        rw [aliasName_word g hc o.word_type o.name_type] at hread
        cases hread
        exact ⟨d.step, aliasName_bare g hd o.bare, hstep⟩
    | none hc =>
        rw [Cursor.nextType, hc] at hnext
        cases hnext
    | token hc hd hstep =>
        have hsame := (Cursor.nextType_of_ahead hd).trans (Cursor.nextType_of_ahead hc).symm
        rw [aliasName_of_nextType g hnext] at hread
        rw [aliasName_of_nextType g (hsame.trans hnext)]
        refine hnever (hbehind.together hstep ?_ hread)
        rw [Cursor.step, hc]
        exact (Cursor.nextType_of_ahead hc).symm.trans hnext
  · have hat : ¬o.AtWord c := fun hat => hnext hat.nextType
    rw [aliasName_of_nextType_ne g hnext] at hread
    rw [aliasName_of_nextType_ne g (hapart.nextType_eq hat ▸ hnext)]
    exact hnever (hbare.together hapart hat hread)

theorem aliasName (g : Level) : o.Follows φ Never Never g.aliasName where
  together hapart _ hread := .inr (aliasName_together g hapart hread)
  stuck := False.elim

/-- Behind an expression the first reading may take another name for the alias.  It is stuck
then. -/
theorem aliasName_open (g : Level) : o.Follows φ o.Open o.Foreign g.aliasName where
  together hapart _ hread := .inr (aliasName_together g hapart hread)
  stuck hs _ hread := by
    cases hs with
    | word htype htext =>
        rw [aliasName_word g rfl o.word_type o.name_type] at hread
        cases hread
        exact .time htype htext
    | @atWord _ _ _ token htype htext =>
        have hbare : token.isBareAlias = true := by
          rw [Token.isBareAlias, htype]
          refine (Bool.not_eq_true' _).mpr (List.any_eq_false.2 fun word hword hsame => ?_)
          have hne : ∀ word ∈ clauseWords, Text.upper word ≠ "AT" := by decide
          exact hne word hword ((Text.sameWord_iff.1 hsame).symm.trans htext)
        rw [aliasName_bare g rfl hbare] at hread
        cases hread
        exact .word

/-! ## Operators -/

/-- Neither `AS` nor a name is an operator. -/
structure IsSteady {α : Type} (operator? : TokenType → Option α) : Prop where
  word : operator? (.keyword .AS) = none
  identifier : operator? .identifier = none
  quotedIdentifier : operator? .quotedIdentifier = none

theorem IsSteady.name {α : Type} {operator? : TokenType → Option α} (h : IsSteady operator?)
    (o : Omission) : operator? o.name.type = none := by
  rcases o.name_type with htype | htype
  · rw [htype, h.identifier]
  · rw [htype, h.quotedIdentifier]

theorem IsSteady.isSteady {α : Type} {operator? : TokenType → Option α} (h : IsSteady operator?)
    {type : TokenType} {op : α} (hop : operator? type = some op) : type.isSteady = true := by
  rw [← Bool.not_eq_false]
  intro hnot
  rcases TokenType.eq_of_isSteady hnot with rfl | rfl | rfl
  · rw [h.word] at hop
    cases hop
  · rw [h.identifier] at hop
    cases hop
  · rw [h.quotedIdentifier] at hop
    cases hop

theorem chainTurn (g : Level) {operator? : TokenType → Option BinaryOp} {operand : Parser Expr}
    (hsteady : IsSteady operator?)
    (hoperand : o.Follows (fun _ => True) Never o.Open operand) (left : Expr) :
    o.Follows φ o.Open o.Open (g.chainTurn operator? operand left) := by
  refine peekType ?_ fun next => ?_
  · simp only [Option.bind_some, hsteady.name o, hsteady.word]
  · cases next with
    | none => exact .pure
    | some type =>
        cases hop : operator? type with
        | none =>
            simp only [Option.bind_some, hop]
            exact .pure
        | some op =>
            simp only [Option.bind_some, hop]
            refine (takeOf (hsteady.isSteady hop) fun _ => ?_).when fun _ hc => hc.2
            exact hoperand.returns

theorem chain (g : Level) {operator? : TokenType → Option BinaryOp} {operand : Parser Expr}
    (hsteady : IsSteady operator?)
    (hoperand : o.Follows (fun _ => True) Never o.Open operand)
    (hforward : Forward operand) :
    o.Follows φ Never o.Open (g.chain operator? operand) := by
  refine hoperand.anywhere.bind fun _ => ?_
  refine .loop (fun left => chainTurn g hsteady hoperand left) fun left => ?_
  refine .peekType fun next => ?_
  cases next.bind operator? with
  | none => exact .done
  | some op => exact .take fun _ => hforward.returns

theorem truthOrNull (g : Level) : o.Follows φ Never Never g.truthOrNull := by
  refine acceptThen rfl .pure ?_
  refine acceptThen rfl .pure ?_
  exact acceptThen rfl .pure refuseFor

theorem isPredicate (g : Level) (left : Expr) : o.Follows φ Never Never (g.isPredicate left) := by
  refine (accept rfl).bind fun _ => ?_
  exact (truthOrNull g).returns

/-- No name and no `AS` takes a `NOT`. -/
theorem isNegatedPredicate_eq (hapart : o.Apart c d) (hat : ¬o.AtWord c) :
    c.isNegatedPredicate = d.isNegatedPredicate := by
  rw [Cursor.isNegatedPredicate, Cursor.isNegatedPredicate, hapart.nextType_eq hat]
  rcases hapart.secondType_or hat with hsame | ⟨hc, hd⟩
  · rw [hsame]
  · rw [hc, hd]
    rcases o.name_type with htype | htype <;> rw [htype] <;> rfl

theorem predicateNot : o.Follows φ o.Open o.Open Level.predicateNot := by
  have hnext : ∀ c : Cursor, c.isNegatedPredicate = true → c.nextType = some (.keyword .NOT) :=
    fun c hc => eq_of_beq (Bool.and_eq_true_iff.1 hc).1
  refine testThen (.ofHead (fun c hc => ⟨_, hnext c hc, rfl⟩) fun _ _ => isNegatedPredicate_eq)
    ?_ .pure
  exact (takeOf rfl fun _ => .pure).when fun c hc => hnext c hc.2

variable (h : g.Omits o)

include h

theorem multiplicative : o.Follows φ Never o.Open g.multiplicative :=
  chain g ⟨rfl, rfl, rfl⟩ (h.below .operand)
    (.spends fun depth => ((h.keeps depth).below .operand).less)

theorem additive : o.Follows φ Never o.Open g.additive :=
  chain g ⟨rfl, rfl, rfl⟩ h.multiplicative
    (.spends fun depth => (h.keeps depth).multiplicative.less)

theorem forward_additive : Forward g.additive :=
  .spends fun depth => (h.keeps depth).additive.less

theorem targets : o.Follows φ Never o.Foreign g.targets :=
  testThen .startsQuery (h.below .query).anywhere.returns
    (Follows.mono (T := o.Open) (.returns (.commaList h.additive)))

theorem membership (left : Expr) (negated : Bool) :
    o.Follows φ Never Never (g.membership left negated) := by
  refine (expect rfl).bind fun _ => ?_
  refine h.targets.bind fun _ => ?_
  exact (expect rfl).returns

theorem between (left : Expr) (negated : Bool) :
    o.Follows φ Never o.Open (g.between left negated) := by
  refine h.additive.bind fun _ => ?_
  exact (expect rfl).bind fun _ => h.additive.returns

theorem regex (left : Expr) (ignoresCase negated : Bool) :
    o.Follows φ Never o.Open (g.regex left ignoresCase negated) :=
  h.additive.returns

theorem wordPredicate (left : Expr) : o.Follows φ o.Open o.Open (g.wordPredicate left) := by
  refine predicateNot.bind fun negated => ?_
  refine acceptThen rfl h.additive.returns ?_
  refine acceptThen rfl h.additive.returns ?_
  refine acceptThen rfl (h.between left negated).returns ?_
  refine acceptThen rfl (h.membership left negated).returns ?_
  exact acceptThen rfl (h.regex left false negated).returns .pure

theorem predicate (left : Expr) : o.Follows φ o.Open o.Open (g.predicate left) := by
  refine peekType ?_ fun next => ?_
  · rcases o.name_type with htype | htype <;> rw [htype] <;> rfl
  · cases next with
    | none => exact acceptThen rfl (isPredicate g left).returns (h.wordPredicate left)
    | some type =>
        cases hop : type.comparison? with
        | some op =>
            simp only [Option.bind_some, hop]
            refine (takeOf ?_ fun _ => h.additive.returns).when fun _ hc => hc.2
            exact IsSteady.isSteady ⟨rfl, rfl, rfl⟩ hop
        | none =>
            simp only [Option.bind_some, hop]
            refine acceptThen rfl (isPredicate g left).returns ?_
            cases hsign : type.regexSign? with
            | none => exact h.wordPredicate left
            | some sign =>
                refine (takeOf ?_ fun _ => (h.regex left sign.1 sign.2).returns).when
                  fun _ hc => hc.2
                exact IsSteady.isSteady ⟨rfl, rfl, rfl⟩ hsign

theorem advances_wordPredicate (left : Expr) : Advances (g.wordPredicate left) := by
  have haccept : ∀ {type : TokenType}, Forward (Parser.accept type) := .spends fun _ => .accept
  refine .bind (.spends fun _ => KeepsTo.predicateNot) fun _ => ?_
  refine .acceptThen h.forward_additive.returns ?_
  refine .acceptThen h.forward_additive.returns ?_
  refine .branch haccept .last ?_
  refine .branch haccept .last ?_
  exact .branch haccept .last .done

/-- Each further predicate of a chain takes a token. -/
theorem advances_predicate (left : Expr) : Advances (g.predicate left) := by
  refine .peekType fun next => ?_
  cases next.bind TokenType.comparison? with
  | some op => exact .take fun _ => h.forward_additive.returns
  | none =>
      refine .branch (.spends fun _ => .accept) .last ?_
      cases next.bind TokenType.regexSign? with
      | none => exact h.advances_wordPredicate left
      | some sign =>
          refine .take fun _ => ?_
          exact .returns (.spends fun depth => (h.keeps depth).regex.less)

theorem relational : o.Follows φ Never o.Open g.relational := by
  refine h.additive.bind fun _ => ?_
  exact .loop h.predicate h.advances_predicate

theorem negation : o.Follows φ Never o.Open g.negation :=
  acceptThen rfl (h.below .negation).returns h.relational

theorem expression : o.Follows φ Never o.Open g.expression := by
  refine chain g ⟨rfl, rfl, rfl⟩
    (chain g ⟨rfl, rfl, rfl⟩ (chain g ⟨rfl, rfl, rfl⟩ h.negation ?_) ?_) ?_
  · exact .spends fun depth => (h.keeps depth).negation.less
  · exact .spends fun depth => (KeepsTo.chain (h.keeps depth).negation).less
  · exact .spends fun depth => (KeepsTo.chain (KeepsTo.chain (h.keeps depth).negation)).less

end Level.Omits

end SqlTree

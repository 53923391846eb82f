import SqlTree.Proofs.Derivation.Grammar
import SqlTree.Proofs.Lookahead
import SqlTree.Proofs.Stop

/-!
# Where the phrases of a layer begin and end

A phrase ends before a token that binds less tightly than its layer, or that closes something around
it: none of the loops of the layer goes on there.  A phrase begins with one of a few tokens, and no
query can be mistaken for it.
-/

namespace SqlTree

open SqlTree.Parser

/-! ## Ends -/

namespace TokenType

/-- How tightly a token binds that may stand behind a phrase: from 0 for one that closes something
to 6 for the sign of a product. -/
def binding? : TokenType → Option Nat
  | .rparen | .rbracket | .comma | .keyword .WHEN | .keyword .THEN | .keyword .ELSE
  | .keyword .END => some 0
  | .keyword .OR => some 1
  | .keyword .XOR => some 2
  | .keyword .AND => some 3
  | .eq | .neq | .lt | .lte | .gt | .gte | .tilde | .tildeStar | .notTilde | .notTildeStar
  | .keyword .IS | .keyword .NOT | .keyword .LIKE | .keyword .ILIKE | .keyword .BETWEEN
  | .keyword .IN | .keyword .REGEXP => some 4
  | .plus | .dash | .doublePipe | .amp | .pipe | .caret => some 5
  | .star | .slash | .percent => some 6
  | _ => none

end TokenType

/-- A phrase of the layer ends before a token that binds less tightly than this. -/
def Layer.limit : Layer → Nat
  | .chain .disjunction => 1
  | .chain .exclusion => 2
  | .chain .conjunction => 3
  | .negation | .predicate | .comparison => 4
  | .chain .sum => 5
  | .chain .product => 6
  | .operand | .unit => 7

/-- A token before which a phrase ends whose layer has the given limit. -/
structure Token.Follows (limit : Nat) (token : Token) : Prop where
  binding : ∃ n, token.type.binding? = some n ∧ n < limit
  spelled : token.Spelled

/-- What may stand behind a phrase whose layer has the given limit. -/
def EndsBefore (limit : Nat) (rest : List Token) : Prop :=
  ∀ token ∈ rest.head?, token.Follows limit

section Ends

variable {limit further : Nat} {token : Token} {more rest : List Token} {type : TokenType}

theorem EndsBefore.nil : EndsBefore limit [] :=
  fun _ hmem => nomatch hmem

theorem endsBefore_cons : EndsBefore limit (token :: rest) ↔ token.Follows limit := by
  constructor
  · intro h
    exact h token rfl
  · intro h token' hmem
    cases hmem
    exact h

theorem EndsBefore.mono (h : EndsBefore limit rest) (hle : limit ≤ further) :
    EndsBefore further rest := by
  intro token hmem
  obtain ⟨⟨n, hbinding, hlt⟩, hspelled⟩ := h token hmem
  exact ⟨⟨n, hbinding, Nat.lt_of_lt_of_le hlt hle⟩, hspelled⟩

/-- What is known of the type of a token that may stand behind a phrase. -/
theorem EndsBefore.binding (h : EndsBefore limit rest) (hnext : headType rest = some type) :
    ∃ n, type.binding? = some n ∧ n < limit := by
  cases rest with
  | nil => cases hnext
  | cons token rest =>
      have hbinding := (endsBefore_cons.1 h).binding
      rwa [Option.some.inj hnext] at hbinding

/-- A token that nothing may follow, or that binds too tightly, does not come next. -/
theorem EndsBefore.headType_ne (h : EndsBefore limit rest)
    (htype : ∀ n, type.binding? = some n → limit ≤ n) : headType rest ≠ some type := by
  intro hnext
  obtain ⟨n, hbinding, hlt⟩ := h.binding hnext
  exact Nat.not_lt.2 (htype n hbinding) hlt

/-- No keyword is spelled like a word that no dialect reserves. -/
theorem Token.Follows.isThisWord (h : token.Follows limit) {word : String}
    (hfree : ∀ d : Dialect, d.keyword? word = none) : token.isThisWord word = false := by
  cases hthis : token.isThisWord word with
  | false => rfl
  | true =>
      rw [Token.isThisWord, Bool.and_eq_true] at hthis
      obtain ⟨hword, hsame⟩ := hthis
      obtain ⟨n, hbinding, -⟩ := h.binding
      cases htype : token.type with
      | keyword keyword =>
          obtain ⟨d, hkeyword⟩ := h.spelled keyword htype
          rw [d.keyword?_congr hsame, hfree d] at hkeyword
          cases hkeyword
      | identifier =>
          rw [htype] at hbinding
          cases hbinding
      | _ =>
          rw [htype] at hword
          cases hword

theorem Dialect.keyword?_at (d : Dialect) : d.keyword? "AT" = none := by
  cases d <;> decide +kernel

theorem Dialect.keyword?_within (d : Dialect) : d.keyword? "WITHIN" = none := by
  cases d <;> decide +kernel

theorem EndsBefore.continuesOperand (h : EndsBefore limit rest) (behind : List Token)
    (depth : Nat) : Cursor.continuesOperand ⟨behind, rest, depth⟩ = false := by
  have hbracket : headType rest ≠ some .lbracket := h.headType_ne nofun
  have hcollate : headType rest ≠ some (.keyword .COLLATE) := h.headType_ne nofun
  unfold Cursor.continuesOperand
  rw [Bool.or_eq_false_iff, Bool.or_eq_false_iff]
  refine ⟨⟨beq_false_of_ne hbracket, beq_false_of_ne hcollate⟩, ?_⟩
  cases rest with
  | nil => rfl
  | cons a rest =>
      have hat : a.isThisWord "AT" = false :=
        (endsBefore_cons.1 h).isThisWord Dialect.keyword?_at
      cases rest with
      | nil => rfl
      | cons b rest =>
          exact Bool.and_eq_false_imp.2 fun htrue => absurd htrue (Bool.eq_false_iff.1 hat)

/-- An operator of a chain is too tight for the chain, but not for its operands. -/
theorem Chain.binding?_of_operator? (c : Chain) {op : BinaryOp} (h : c.operator? type = some op) :
    type.binding? = some (Layer.chain c).limit ∧ (Layer.chain c).limit < c.operand.limit := by
  cases c
  all_goals
    simp only [Chain.operator?, TokenType.disjunction?, TokenType.exclusion?,
      TokenType.conjunction?, TokenType.additive?, TokenType.multiplicative?] at h
    split at h
  all_goals first
    | exact ⟨rfl, by decide⟩
    | cases h

theorem EndsBefore.operator?_eq_none {c : Chain} (h : EndsBefore (Layer.chain c).limit rest) :
    (headType rest).bind c.operator? = none := by
  cases hnext : headType rest with
  | none => rfl
  | some type =>
      rw [Option.bind_some]
      cases hop : c.operator? type with
      | none => rfl
      | some op =>
          obtain ⟨n, hbinding, hlt⟩ := h.binding hnext
          rw [(c.binding?_of_operator? hop).1, Option.some.injEq] at hbinding
          exact absurd hlt (hbinding ▸ Nat.lt_irrefl _)

theorem TokenType.comparison?_of_regexSign? {sign : Bool × Bool}
    (hsign : type.regexSign? = some sign) : type.comparison? = none := by
  unfold regexSign? at hsign
  split at hsign
  all_goals first
    | rfl
    | cases hsign

theorem TokenType.opens_of_takesNot (htakes : type.takesNot = true) :
    type.comparison? = none ∧ type ≠ .keyword .IS ∧ type.regexSign? = none := by
  unfold takesNot at htakes
  split at htakes
  all_goals first
    | decide
    | cases htakes

/-- Signs and words that go on with a predicate bind as tightly as a predicate. -/
theorem TokenType.binding?_of_predicate
    (h : type.comparison?.isSome = true ∨ type = .keyword .IS ∨ type.regexSign?.isSome = true ∨
      type.takesNot = true ∨ type = .keyword .NOT) :
    type.binding? = some Layer.predicate.limit := by
  rcases h with h | rfl | h | h | rfl
  case inl =>
      unfold TokenType.comparison? at h
      split at h
      all_goals first
        | rfl
        | cases h
  case inr.inl => rfl
  case inr.inr.inl =>
      unfold TokenType.regexSign? at h
      split at h
      all_goals first
        | rfl
        | cases h
  case inr.inr.inr.inl =>
      unfold TokenType.takesNot at h
      split at h
      all_goals first
        | rfl
        | cases h
  case inr.inr.inr.inr => rfl

theorem EndsBefore.continuesPredicate (h : EndsBefore Layer.predicate.limit rest)
    (behind : List Token) (depth : Nat) :
    Cursor.continuesPredicate ⟨behind, rest, depth⟩ = false := by
  cases hcontinues : Cursor.continuesPredicate ⟨behind, rest, depth⟩ with
  | false => rfl
  | true =>
      unfold Cursor.continuesPredicate at hcontinues
      cases hnext : Cursor.nextType ⟨behind, rest, depth⟩ with
      | none =>
          rw [hnext] at hcontinues
          cases hcontinues
      | some type =>
          have hpredicate : type.binding? = some Layer.predicate.limit := by
            apply TokenType.binding?_of_predicate
            simp only [hnext, Cursor.isNegatedPredicate, Bool.or_eq_true, beq_iff_eq,
              Bool.and_eq_true, Option.some.injEq, or_assoc] at hcontinues
            rcases hcontinues with h | h | h | h | ⟨h, -⟩
            · exact .inl h
            · exact .inr (.inl h)
            · exact .inr (.inr (.inl h))
            · exact .inr (.inr (.inr (.inl h)))
            · exact .inr (.inr (.inr (.inr h)))
          obtain ⟨n, hbinding, hlt⟩ := h.binding hnext
          rw [hpredicate, Option.some.injEq] at hbinding
          exact absurd hlt (hbinding ▸ Nat.lt_irrefl _)

/-- A token that goes on with a phrase of a layer whose limit is `limit`, but not with a part of
it. -/
theorem follows_of_binding {n : Nat} (hbinding : token.type.binding? = some n) (hlt : n < limit)
    (hspelled : token.Spelled) : EndsBefore limit (token :: rest) :=
  endsBefore_cons.2 ⟨⟨n, hbinding, hlt⟩, hspelled⟩

end Ends

/-! ## Beginnings -/

/-- The types of the tokens that a unit can begin with, apart from parentheses. -/
def TokenType.beginsUnit : TokenType → Bool
  | .number | .string | .nationalString | .identifier | .atSign | .colon | .keyword .NULL
  | .keyword .TRUE | .keyword .FALSE | .keyword .CASE | .keyword .ARRAY => true
  | _ => false

/-- The signs and words that a phrase of a layer can begin with before its first unit. -/
def Layer.signs : Layer → List TokenType
  | .unit => []
  | .operand | .chain .product | .chain .sum | .comparison | .predicate => [.dash]
  | _ => [.dash, .keyword .NOT]

/-- The types of the tokens that a phrase of a layer can begin with, apart from parentheses. -/
def Layer.begins (layer : Layer) (type : TokenType) : Bool :=
  layer.signs.contains type || type.beginsUnit

theorem Layer.begins_of_signs {layer layer' : Layer} {type : TokenType}
    (hsigns : layer.signs ⊆ layer'.signs) (h : layer.begins type = true) :
    layer'.begins type = true := by
  unfold Layer.begins at h ⊢
  rw [Bool.or_eq_true, List.contains_iff_mem] at h ⊢
  exact h.imp_left fun hmem => hsigns hmem

theorem Layer.signs_subset (layer : Layer) : layer.signs ⊆ (Layer.chain .disjunction).signs := by
  cases layer with
  | chain c => cases c <;> decide
  | _ => decide

/-- Tokens that begin like a phrase of a layer. -/
inductive Begins : Layer → List Token → Prop where
  | token {layer : Layer} {token : Token} {more : List Token}
      (hbegins : layer.begins token.type = true) : Begins layer (token :: more)
  | opening {layer : Layer} {token : Token} {more : List Token} (htype : token.type = .lparen)
      (inner : Begins (.chain .disjunction) more) : Begins layer (token :: more)

namespace Begins

variable {layer layer' : Layer} {tokens : List Token} {type : TokenType}

theorem exists_cons (h : Begins layer tokens) : ∃ token more, tokens = token :: more := by
  cases h with
  | token => exact ⟨_, _, rfl⟩
  | opening => exact ⟨_, _, rfl⟩

theorem append (h : Begins layer tokens) (rest : List Token) : Begins layer (tokens ++ rest) := by
  induction h with
  | token hbegins => exact .token hbegins
  | opening htype _ ih => exact .opening htype ih

theorem of_type {token : Token} {more : List Token} (htype : token.type = type)
    (hbegins : layer.begins type = true) : Begins layer (token :: more) :=
  .token (htype.symm ▸ hbegins)

theorem mono (h : Begins layer tokens) (hsigns : layer.signs ⊆ layer'.signs) :
    Begins layer' tokens := by
  cases h with
  | token hbegins => exact .token (Layer.begins_of_signs hsigns hbegins)
  | opening htype inner => exact .opening htype inner

theorem headType_ne (h : Begins layer tokens) (rest : List Token)
    (hbegins : layer.begins type = false) (htype : type ≠ .lparen) :
    headType (tokens ++ rest) ≠ some type := by
  intro hnext
  cases h with
  | token hthis =>
      rw [← Option.some.inj hnext, hthis] at hbegins
      cases hbegins
  | opening hthis _ => exact htype (Option.some.inj hnext ▸ hthis)

/-- No query starts where a phrase does. -/
theorem startsQuery (h : Begins layer tokens) : startsQuery tokens = false := by
  rw [startsQuery_eq]
  generalize 0 = leading
  induction h generalizing leading with
  | @token layer token more hbegins =>
      have hloosest := Layer.begins_of_signs layer.signs_subset hbegins
      have hother : ∀ type, (Layer.chain .disjunction).begins type = false → token.type ≠ type := by
        intro type hnot htype
        rw [← htype, hloosest] at hnot
        cases hnot
      have hparen : token.type ≠ .lparen := hother _ rfl
      have hwith : token.type ≠ .keyword .WITH := hother _ rfl
      have hselect : token.type ≠ .keyword .SELECT := hother _ rfl
      rw [Lookahead.queryAfter, if_neg hparen, beq_false_of_ne hselect, beq_false_of_ne hwith]
      rfl
  | opening htype _ ih => rw [Lookahead.queryAfter_lparen htype, ih]

end Begins

theorem Token.begins_of_literal? {tag : Tag} {token : Token} {e : Expr}
    (h : token.literal? tag = some e) : token.type.beginsUnit = true := by
  have htype : token.type ∈ [.number, .string, .nationalString, .keyword .NULL, .keyword .TRUE,
      .keyword .FALSE] := by
    rcases literal?_eq_some h with ⟨htype, -⟩ | ⟨htype, -⟩ | ⟨htype, -⟩ | htruth
    · simp [htype]
    · simp [htype]
    · simp [htype]
    · rcases truth?_eq_some htruth with ⟨htype, -⟩ | ⟨htype, -⟩ | ⟨htype, -⟩ <;> simp [htype]
  generalize token.type = type at htype
  revert type
  decide

theorem Token.begins_of_sigil? {signs : List Token} {sigil : String}
    (h : sigil? (signs.map Token.type) = some sigil) (rest : List Token) :
    Begins .unit (signs ++ rest) := by
  cases signs with
  | nil => cases h
  | cons sign signs =>
      apply Begins.token
      rcases sigil?_eq_some h with ⟨hsigns, -⟩ | ⟨hsigns, -⟩ | ⟨hsigns, -⟩
      all_goals
        rw [(List.cons.inj hsigns).1]
        rfl

/-- Every phrase begins like a phrase of its layer. -/
theorem Derives.begins {tag : Tag} {layer : Layer} {tokens : List Token} {e : Expr}
    (h : Derives tag layer tokens e) : Begins layer tokens := by
  induction h with
  | @first c _ _ _ ih => exact ih.mono (by cases c <;> decide)
  | link _ _ _ ih _ => exact ih.append _
  | positive _ ih => exact ih.mono (by decide)
  | not hword _ _ => exact .of_type hword rfl
  | unclosed _ ih => exact ih.mono (by decide)
  | is _ _ _ _ ih => exact (ih.append _).mono (by decide)
  | between _ _ _ _ _ _ ih _ _ => exact (ih.append _).mono (by decide)
  | membership _ _ _ _ _ _ _ ih _ => exact (ih.append _).mono (by decide)
  | regexWord _ _ _ _ ih _ => exact (ih.append _).mono (by decide)
  | regexSign _ _ _ ih _ => exact (ih.append _).mono (by decide)
  | single _ ih => exact ih.mono (by decide)
  | compare _ _ _ ih _ => exact ih.append _
  | like _ _ _ _ ih _ => exact ih.append _
  | unsigned _ ih => exact ih.mono (by decide)
  | negate hsign _ _ _ => exact .of_type hsign rfl
  | negativeNumber hsign _ => exact .of_type hsign rfl
  | literal htoken => exact .token (Token.begins_of_literal? htoken)
  | column hname _ _ => exact .of_type hname rfl
  | parameter hsigns _ => exact Token.begins_of_sigil? hsigns _
  | call hname => exact .of_type hname rfl
  | caseOf hword => exact .of_type hword rfl
  | array hword => exact .of_type hword rfl
  | parenthesized hopening _ _ ih => exact .opening hopening (ih.append _)

end SqlTree

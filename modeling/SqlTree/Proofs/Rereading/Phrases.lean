import SqlTree.Proofs.Rereading.Spelling
import SqlTree.Proofs.Rereading.Written

/-!
# The phrases of a written tree

What the parts of a node are read as: names, the signs and words of operators, words that may be
left out, and lists.  A part is followed by a blank, a comma or something that closes it.
-/

namespace SqlTree

open Text Lexer

variable {maxSteps : Nat} {tag : Tag} {cs rest : List Char}

/-! ## What stands behind a part -/

/-- The characters that end a part of a node. -/
def endings : List Char := [' ', ')', ',', ']']

/-- A text starts with a character that ends a part of a node, if it is not empty. -/
def Delimited (rest : List Char) : Prop :=
  ∀ c, rest.head? = some c → c ∈ endings

namespace Delimited

theorem nil : Delimited [] :=
  fun _ hhead => nomatch hhead

theorem cons {c : Char} (hc : c ∈ endings) : Delimited (c :: cs) := by
  intro d hd
  cases hd
  exact hc

theorem stops {test : Char → Bool} (hrest : Delimited rest)
    (htest : endings.any test = false) : Stops test rest :=
  fun c hc => Bool.eq_false_iff.2 (List.any_eq_false.1 htest c (hrest c hc))

theorem word (hrest : Delimited rest) : Stops continuesWord rest :=
  hrest.stops (by decide +kernel)

theorem ne {c : Char} (hrest : Delimited rest) (hc : c ∉ endings) : rest.head? ≠ some c :=
  fun hhead => hc (hrest c hhead)

end Delimited

/-! ## Words -/

theorem stops_word {c : Char} (hc : c ∈ [' ', '(', '[', '.']) : Stops continuesWord (c :: cs) := by
  have hnone : [' ', '(', '[', '.'].any continuesWord = false := by decide +kernel
  exact stops_cons.2 (Bool.eq_false_iff.2 (List.any_eq_false.1 hnone c hc))

theorem PlainWord.spells {word : String} (hword : PlainWord word)
    (hrest : Stops continuesWord rest) :
    Spells (.postgreSql maxSteps) word.toList rest (Token.Alone .identifier word) := by
  have hplain := hword.plain
  have hfree := hword.free
  cases hchars : word.toList with
  | nil =>
      rw [hchars] at hplain
      cases hplain
  | cons first chars =>
      obtain rfl : String.ofList (first :: chars) = word := by
        rw [← hchars, String.ofList_toList]
      rw [hchars, isPlainWord, Bool.and_eq_true, List.all_eq_true] at hplain
      obtain ⟨hfirst, htail⟩ := hplain
      have hstarts : startsWord first = true := by
        rw [Bool.or_eq_true] at hfirst
        rw [startsWord, Bool.or_eq_true]
        exact hfirst.imp_left isAlphabetic_of_isAlpha
      have hcontinues : ∀ d ∈ first :: chars, continuesWord d = true := by
        intro d hd
        rcases List.mem_cons.1 hd with rfl | hd
        · exact continuesWord_of_startsWord hstarts
        · have hd := htail d hd
          simp only [Char.isAlphanum, Bool.or_eq_true, or_assoc] at hd
          simp only [continuesWord, Bool.or_eq_true, or_assoc]
          exact hd.imp isAlphabetic_of_isAlpha (.imp_left isNumeric_of_isDigit)
      exact .word hstarts hcontinues hfree hrest

/-- A word that is left out unless a condition holds. -/
theorem spells_writtenIf (word : Keyword) {text : String} {condition : Bool}
    {R : List Token → Prop} (hmem : (text, word) ∈ Dialect.postgreSql.keywords)
    (after : ∀ token : Option Token, Token.OptionallyOf (.keyword word) token →
      token.isSome = condition →
      Spells (.postgreSql maxSteps) cs rest fun more => R (token.toList ++ more)) :
    Spells (.postgreSql maxSteps) (writtenIf condition text ++ cs) rest R := by
  cases condition with
  | false => exact after none nofun rfl
  | true =>
      change Spells _ (text.toList ++ [' '] ++ cs) rest R
      rw [List.append_assoc]
      refine .reserved word text hmem (stops_word (by decide)) fun token htype => .blank ?_
      refine after (some token) ?_ rfl
      intro t ht
      cases ht
      exact htype

/-! ## Operators -/

namespace BinaryOp

def symbol? : BinaryOp → Option TokenType
  | .equal => some .eq
  | .notEqual => some .neq
  | .less => some .lt
  | .lessOrEqual => some .lte
  | .greater => some .gt
  | .greaterOrEqual => some .gte
  | .add => some .plus
  | .sub => some .dash
  | .mul => some .star
  | .div => some .slash
  | .mod => some .percent
  | .bitAnd => some .amp
  | .bitOr => some .pipe
  | .bitXor => some .caret
  | .concat => some .doublePipe
  | _ => none

def words? : BinaryOp → Option (Bool × String × Keyword)
  | .like => some (false, "LIKE", .LIKE)
  | .notLike => some (true, "LIKE", .LIKE)
  | .ilike => some (false, "ILIKE", .ILIKE)
  | .notILike => some (true, "ILIKE", .ILIKE)
  | .and => some (false, "AND", .AND)
  | .or => some (false, "OR", .OR)
  | .xor => some (false, "XOR", .XOR)
  | _ => none

theorem symbol_or_words (op : BinaryOp) :
    op ≠ .is → op ≠ .isNot → op.symbol?.isSome ∨ op.words?.isSome := by
  cases op <;> decide

inductive SignedBy : BinaryOp → List Token → Prop where
  | link {c : Chain} {op : BinaryOp} {sign : Token} (hsign : c.operator? sign.type = some op) :
      SignedBy op [sign]
  | compare {op : BinaryOp} {sign : Token} (hsign : sign.type.comparison? = some op) :
      SignedBy op [sign]
  | like {op negatedOp : BinaryOp} {word : Token} {negator : Option Token}
      (hnot : Token.OptionallyOf (.keyword .NOT) negator)
      (hword : word.type.likeness? = some (op, negatedOp)) :
      SignedBy (if negator.isSome then negatedOp else op) (negator.toList ++ [word])

end BinaryOp

theorem not_opensComment_of_ne {c d : Char} (hblock : (c, d) ≠ ('/', '*'))
    (hline : (c, d) ≠ ('-', '-')) : ¬OpensComment (c :: d :: cs) := by
  rintro (⟨tail, heq⟩ | ⟨tail, heq⟩)
  · cases heq
    exact hblock rfl
  · cases heq
    exact hline rfl

theorem BinaryOp.operator_of_symbol {op : BinaryOp} {type : TokenType}
    (hop : op.symbol? = some type) :
    type.comparison? = some op ∨ Chain.sum.operator? type = some op ∨
      Chain.product.operator? type = some op := by
  cases op <;> cases hop <;> decide

theorem BinaryOp.operator_of_words {op : BinaryOp} {negated : Bool} {text : String} {word : Keyword}
    (hop : op.words? = some (negated, text, word)) :
    (∃ plain negatedOp, (TokenType.keyword word).likeness? = some (plain, negatedOp) ∧
      op = if negated then negatedOp else plain) ∨
      ∃ c : Chain, c.operator? (.keyword word) = some op ∧ negated = false := by
  cases op <;> cases hop
  case and => exact .inr ⟨.conjunction, rfl, rfl⟩
  case or => exact .inr ⟨.disjunction, rfl, rfl⟩
  case xor => exact .inr ⟨.exclusion, rfl, rfl⟩
  all_goals exact .inl ⟨_, _, rfl, rfl⟩

/-- A symbol with a blank behind it is read as it is. -/
theorem BinaryOp.spells_symbol {op : BinaryOp} {type : TokenType} (hop : op.symbol? = some type) :
    Spells (.postgreSql maxSteps) op.text.toList (' ' :: rest) op.SignedBy := by
  have hfind : symbols.find? (fun entry => entry.1.isPrefixOf (op.text.toList ++ ' ' :: rest)) =
      some (op.text.toList, type) := by
    cases op <;> cases hop <;> rfl
  have hcomment : ¬OpensComment (op.text.toList ++ ' ' :: rest) := by
    cases op <;> cases hop <;> exact not_opensComment_of_ne (by decide) (by decide)
  have hquote : type ≠ .doubleQuote := by
    cases op <;> cases hop <;> decide
  refine (Spells.symbol hfind hcomment hquote).mono ?_
  rintro tokens ⟨sign, rfl, htype, -⟩
  obtain hcompare | hsum | hproduct := operator_of_symbol hop
  · exact .compare (htype ▸ hcompare)
  · exact .link (c := .sum) (htype ▸ hsum)
  · exact .link (c := .product) (htype ▸ hproduct)

/-- The words of an operator are read as they are, a `NOT` before them included. -/
theorem BinaryOp.spells_words {op : BinaryOp} {negated : Bool} {text : String} {word : Keyword}
    (hop : op.words? = some (negated, text, word)) :
    Spells (.postgreSql maxSteps) op.text.toList (' ' :: rest) op.SignedBy := by
  have htext : op.text.toList = writtenIf negated "NOT" ++ text.toList := by
    cases op <;> cases hop <;> rfl
  have hmem : (text, word) ∈ Dialect.postgreSql.keywords := by
    cases op <;> cases hop <;> decide
  rw [htext]
  refine spells_writtenIf .NOT (by decide) fun negator hnot hnegated => ?_
  refine (Spells.keyword hmem (stops_word (by decide))).mono ?_
  rintro tokens ⟨token, rfl, htype, -⟩
  obtain ⟨op', notOp, hlike, heq⟩ | ⟨c, hlink, rfl⟩ := operator_of_words hop
  · subst hnegated
    rw [heq]
    exact .like hnot (htype ▸ hlike)
  · cases negator with
    | none => exact .link (c := c) (htype ▸ hlink)
    | some t => cases hnegated

/-- An operator between blanks, but for the ones that a truth value stands behind. -/
theorem BinaryOp.spells {op : BinaryOp} (his : op ≠ .is) (hisNot : op ≠ .isNot) :
    Spells (.postgreSql maxSteps) op.text.toList (' ' :: rest) op.SignedBy := by
  rcases op.symbol_or_words his hisNot with hsymbol | hwords
  · obtain ⟨type, htype⟩ := Option.isSome_iff_exists.1 hsymbol
    exact spells_symbol htype
  · obtain ⟨words, hwords⟩ := Option.isSome_iff_exists.1 hwords
    exact spells_words hwords

end SqlTree

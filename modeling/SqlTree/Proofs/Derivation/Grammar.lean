import SqlTree.Grammar.Unit
import SqlTree.Proofs.Yield
import SqlTree.Token.Keyword

/-!
# The layered grammar of expressions

Expressions are defined here by what their tokens are, without any parser: a chain of operators
associates to the left, each layer is made of the next tighter one, and parentheses lead back to the
loosest.  `Derives` relates tokens to the tree they stand for.
-/

namespace SqlTree

/-- The layers of operators that associate to the left. -/
inductive Chain where
  | disjunction
  | exclusion
  | conjunction
  | sum
  | product
  deriving DecidableEq, Repr

/-- The layers of an expression, the loosest first but for `sum` and `product`, which stand between
`comparison` and `operand`. -/
inductive Layer where
  | chain (c : Chain)
  | negation
  | predicate
  | comparison
  | operand
  | unit
  deriving DecidableEq, Repr

namespace Chain

def operator? : Chain → TokenType → Option BinaryOp
  | .disjunction => TokenType.disjunction?
  | .exclusion => TokenType.exclusion?
  | .conjunction => TokenType.conjunction?
  | .sum => TokenType.additive?
  | .product => TokenType.multiplicative?

def operand : Chain → Layer
  | .disjunction => .chain .exclusion
  | .exclusion => .chain .conjunction
  | .conjunction => .negation
  | .sum => .chain .product
  | .product => .operand

end Chain

namespace TokenType

/-- The operators that a word gives, as it is and behind a `NOT`. -/
def likeness? : TokenType → Option (BinaryOp × BinaryOp)
  | .keyword .LIKE => some (.like, .notLike)
  | .keyword .ILIKE => some (.ilike, .notILike)
  | _ => none

theorem likeness?_eq_some {type : TokenType} {ops : BinaryOp × BinaryOp}
    (h : type.likeness? = some ops) :
    type = .keyword .LIKE ∧ ops = (.like, .notLike) ∨
      type = .keyword .ILIKE ∧ ops = (.ilike, .notILike) := by
  unfold likeness? at h
  split at h
  · exact .inl ⟨rfl, Option.some.inj h.symm⟩
  · exact .inr ⟨rfl, Option.some.inj h.symm⟩
  · cases h

end TokenType

namespace Token

def truth? (tag : Tag) (token : Token) : Option Expr :=
  match token.type with
  | .keyword .NULL => some (.node (.null tag))
  | .keyword .TRUE => some (.node (.bool true tag))
  | .keyword .FALSE => some (.node (.bool false tag))
  | _ => none

def literal? (tag : Tag) (token : Token) : Option Expr :=
  match token.type with
  | .number => some (.node (.number token.text tag))
  | .string => some (.node (.string token.text false tag))
  | .nationalString => some (.node (.string token.text true tag))
  | _ => token.truth? tag

theorem truth?_eq_some {tag : Tag} {token : Token} {e : Expr} (h : token.truth? tag = some e) :
    token.type = .keyword .NULL ∧ e = .node (.null tag) ∨
      token.type = .keyword .TRUE ∧ e = .node (.bool true tag) ∨
      token.type = .keyword .FALSE ∧ e = .node (.bool false tag) := by
  unfold truth? at h
  split at h
  · exact .inl ⟨‹_›, Option.some.inj h.symm⟩
  · exact .inr (.inl ⟨‹_›, Option.some.inj h.symm⟩)
  · exact .inr (.inr ⟨‹_›, Option.some.inj h.symm⟩)
  · cases h

theorem literal?_eq_some {tag : Tag} {token : Token} {e : Expr}
    (h : token.literal? tag = some e) :
    token.type = .number ∧ e = .node (.number token.text tag) ∨
      token.type = .string ∧ e = .node (.string token.text false tag) ∨
      token.type = .nationalString ∧ e = .node (.string token.text true tag) ∨
      token.truth? tag = some e := by
  unfold literal? at h
  split at h
  · exact .inl ⟨‹_›, Option.some.inj h.symm⟩
  · exact .inr (.inl ⟨‹_›, Option.some.inj h.symm⟩)
  · exact .inr (.inr (.inl ⟨‹_›, Option.some.inj h.symm⟩))
  · exact .inr (.inr (.inr h))

/-- The name that a plain word stands for. -/
def plainName (tag : Tag) (token : Token) : Identifier :=
  { value := token.text, tag }

/-- Whether a keyword is spelled as some dialect spells it, as the keywords of a lexer are. -/
def Spelled (token : Token) : Prop :=
  ∀ word, token.type = .keyword word → ∃ d : Dialect, d.keyword? token.text = some word

/-- A token that may be missing, and is of a type when it is there. -/
def OptionallyOf (type : TokenType) (token : Option Token) : Prop :=
  ∀ t ∈ token, t.type = type

/-- The sigil that the types of some tokens make up. -/
def sigil? : List TokenType → Option String
  | [.atSign] => some "@"
  | [.atSign, .atSign] => some "@@"
  | [.colon] => some ":"
  | _ => none

theorem sigil?_eq_some {signs : List TokenType} {sigil : String} (h : sigil? signs = some sigil) :
    signs = [.atSign] ∧ sigil = "@" ∨ signs = [.atSign, .atSign] ∧ sigil = "@@" ∨
      signs = [.colon] ∧ sigil = ":" := by
  unfold sigil? at h
  split at h
  · exact .inl ⟨rfl, Option.some.inj h.symm⟩
  · exact .inr (.inl ⟨rfl, Option.some.inj h.symm⟩)
  · exact .inr (.inr ⟨rfl, Option.some.inj h.symm⟩)
  · cases h

/-- The column that plain words with dots between them stand for. -/
def column? (tag : Tag) : List Token → Option Expr
  | [name] => some (.node (.identifier (name.plainName tag)))
  | [owner, name] =>
      some (.node (.property none (owner.plainName tag) (name.plainName tag) none tag))
  | [schema, owner, name] =>
    some (.node (.property (some (schema.plainName tag)) (owner.plainName tag)
      (name.plainName tag) none tag))
  | _ => none

end Token

/-- Some tokens and the tree they stand for. -/
structure Phrase where
  tokens : List Token
  tree : Expr

/-- The tokens of a phrase that may be missing and stands behind a word of its own. -/
def Phrase.behindWord (phrase : Option (Token × Phrase)) : List Token :=
  phrase.elim [] fun p => p.1 :: p.2.tokens

/-- Phrases with a comma before each but the first. -/
structure Items where
  first : Phrase
  further : List (Token × Phrase)

namespace Items

def phrases (items : Items) : List Phrase :=
  items.first :: items.further.map Prod.snd

def tokens (items : Items) : List Token :=
  items.first.tokens ++ items.further.flatMap fun item => item.1 :: item.2.tokens

def trees (items : Items) : List Expr :=
  items.phrases.map Phrase.tree

def Separated (items : Items) : Prop :=
  ∀ item ∈ items.further, item.1.type = .comma

end Items

/-- One branch of a `CASE`: its two words and what stands behind each. -/
structure Branch where
  whenWord : Token
  condition : Phrase
  thenWord : Token
  result : Phrase

namespace Branch

def tokens (b : Branch) : List Token :=
  b.whenWord :: (b.condition.tokens ++ b.thenWord :: b.result.tokens)

def item (tag : Tag) (b : Branch) : CaseItem Expr :=
  ⟨b.condition.tree, b.result.tree, tag⟩

def Worded (b : Branch) : Prop :=
  b.whenWord.type = .keyword .WHEN ∧ b.thenWord.type = .keyword .THEN

end Branch

/-- The tokens of a layer and the tree that they stand for.  Every node carries the same tag. -/
inductive Derives (tag : Tag) : Layer → List Token → Expr → Prop where
  /-- A chain of one operand. -/
  | first {c : Chain} {tokens : List Token} {e : Expr} (operand : Derives tag c.operand tokens e) :
      Derives tag (.chain c) tokens e
  /-- A chain, one of its operators and one more operand. -/
  | link {c : Chain} {tokens tokens' : List Token} {sign : Token} {op : BinaryOp} {e e' : Expr}
      (left : Derives tag (.chain c) tokens e) (hsign : c.operator? sign.type = some op)
      (right : Derives tag c.operand tokens' e') :
      Derives tag (.chain c) (tokens ++ sign :: tokens') (.node (.binary e op e' tag))
  | positive {tokens : List Token} {e : Expr} (predicate : Derives tag .predicate tokens e) :
      Derives tag .negation tokens e
  | not {word : Token} {tokens : List Token} {e : Expr} (hword : word.type = .keyword .NOT)
      (operand : Derives tag .negation tokens e) :
      Derives tag .negation (word :: tokens) (.node (.not e tag))
  /-- Comparisons without a closing predicate. -/
  | unclosed {tokens : List Token} {e : Expr} (comparison : Derives tag .comparison tokens e) :
      Derives tag .predicate tokens e
  | is {tokens : List Token} {e value : Expr} {word truth : Token} {negator : Option Token}
      (left : Derives tag .comparison tokens e) (hword : word.type = .keyword .IS)
      (hnot : Token.OptionallyOf (.keyword .NOT) negator) (htruth : truth.truth? tag = some value) :
      Derives tag .predicate (tokens ++ word :: (negator.toList ++ [truth]))
        (.node (.binary e (if negator.isSome then .isNot else .is) value tag))
  | between {tokens lower upper : List Token} {e low high : Expr} {word conjunct : Token}
      {negator : Option Token} (left : Derives tag .comparison tokens e)
      (hnot : Token.OptionallyOf (.keyword .NOT) negator) (hword : word.type = .keyword .BETWEEN)
      (lowest : Derives tag (.chain .sum) lower low) (hand : conjunct.type = .keyword .AND)
      (highest : Derives tag (.chain .sum) upper high) :
      Derives tag .predicate (tokens ++ (negator.toList ++ word :: (lower ++ conjunct :: upper)))
        (.node (.between e low high negator.isSome tag))
  | membership {tokens : List Token} {e : Expr} {word opening closing : Token}
      {negator : Option Token} {items : Items} (left : Derives tag .comparison tokens e)
      (hnot : Token.OptionallyOf (.keyword .NOT) negator) (hword : word.type = .keyword .IN)
      (hopening : opening.type = .lparen) (hcommas : items.Separated)
      (targets : ∀ p ∈ items.phrases, Derives tag (.chain .sum) p.tokens p.tree)
      (hclosing : closing.type = .rparen) :
      Derives tag .predicate
        (tokens ++ (negator.toList ++ word :: opening :: (items.tokens ++ [closing])))
        (.node (.membership e items.trees none negator.isSome tag))
  | regexWord {tokens tokens' : List Token} {e pattern : Expr} {word : Token}
      {negator : Option Token} (left : Derives tag .comparison tokens e)
      (hnot : Token.OptionallyOf (.keyword .NOT) negator) (hword : word.type = .keyword .REGEXP)
      (right : Derives tag (.chain .sum) tokens' pattern) :
      Derives tag .predicate (tokens ++ (negator.toList ++ word :: tokens'))
        (.node (.regex e pattern false negator.isSome tag))
  | regexSign {tokens tokens' : List Token} {e pattern : Expr} {sign : Token}
      {ignoresCase negated : Bool} (left : Derives tag .comparison tokens e)
      (hsign : sign.type.regexSign? = some (ignoresCase, negated))
      (right : Derives tag (.chain .sum) tokens' pattern) :
      Derives tag .predicate (tokens ++ sign :: tokens')
        (.node (.regex e pattern ignoresCase negated tag))
  /-- A sum that is not compared with anything. -/
  | single {tokens : List Token} {e : Expr} (sum : Derives tag (.chain .sum) tokens e) :
      Derives tag .comparison tokens e
  | compare {tokens tokens' : List Token} {e e' : Expr} {sign : Token} {op : BinaryOp}
      (left : Derives tag .comparison tokens e) (hsign : sign.type.comparison? = some op)
      (right : Derives tag (.chain .sum) tokens' e') :
      Derives tag .comparison (tokens ++ sign :: tokens') (.node (.binary e op e' tag))
  | like {tokens tokens' : List Token} {e e' : Expr} {word : Token} {op negatedOp : BinaryOp}
      {negator : Option Token} (left : Derives tag .comparison tokens e)
      (hnot : Token.OptionallyOf (.keyword .NOT) negator)
      (hword : word.type.likeness? = some (op, negatedOp))
      (right : Derives tag (.chain .sum) tokens' e') :
      Derives tag .comparison (tokens ++ (negator.toList ++ word :: tokens'))
        (.node (.binary e (if negator.isSome then negatedOp else op) e' tag))
  /-- An operand without a sign. -/
  | unsigned {tokens : List Token} {e : Expr} (unit : Derives tag .unit tokens e) :
      Derives tag .operand tokens e
  | negate {sign : Token} {tokens : List Token} {e : Expr} (hsign : sign.type = .dash)
      (hnumber : Parser.headType tokens ≠ some .number) (operand : Derives tag .operand tokens e) :
      Derives tag .operand (sign :: tokens) (.node (.negate e tag))
  | negativeNumber {sign number : Token} (hsign : sign.type = .dash)
      (hnumber : number.type = .number) :
      Derives tag .operand [sign, number] (.node (.number ("-" ++ number.text) tag))
  | literal {token : Token} {e : Expr} (htoken : token.literal? tag = some e) :
      Derives tag .unit [token] e
  | column {name : Token} {parts : List (Token × Token)} {e : Expr}
      (hname : name.type = .identifier)
      (hparts : ∀ part ∈ parts, part.1.type = .dot ∧ part.2.type = .identifier)
      (hcolumn : Token.column? tag (name :: parts.map Prod.snd) = some e) :
      Derives tag .unit (name :: parts.flatMap fun part => [part.1, part.2]) e
  | parameter {signs : List Token} {name : Token} {sigil : String}
      (hsigns : Token.sigil? (signs.map Token.type) = some sigil)
      (hname : name.type = .identifier) :
      Derives tag .unit (signs ++ [name]) (.node (.variable sigil name.text tag))
  | call {name opening closing : Token} {distinct : Option Token} {arguments : Option Items}
      (hname : name.type = .identifier) (hopening : opening.type = .lparen)
      (hdistinct : Token.OptionallyOf (.keyword .DISTINCT) distinct)
      (hcommas : ∀ items ∈ arguments, items.Separated)
      (each : ∀ items ∈ arguments, ∀ p ∈ items.phrases,
        Derives tag (.chain .disjunction) p.tokens p.tree)
      (hclosing : closing.type = .rparen) :
      Derives tag .unit
        (name :: opening :: (distinct.toList ++ (arguments.elim [] Items.tokens ++ [closing])))
        (.node (.call ⟨[], name.plainName tag, distinct.isSome, arguments.elim [] Items.trees,
          none, none, tag⟩))
  | caseOf {word ending : Token} {operand : Option Phrase} {branches : List Branch}
      {otherwise : Option (Token × Phrase)} (hword : word.type = .keyword .CASE)
      (subject : ∀ p ∈ operand, Derives tag (.chain .disjunction) p.tokens p.tree)
      (hbranches : branches ≠ []) (hwords : ∀ b ∈ branches, b.Worded)
      (conditions : ∀ b ∈ branches,
        Derives tag (.chain .disjunction) b.condition.tokens b.condition.tree)
      (results : ∀ b ∈ branches, Derives tag (.chain .disjunction) b.result.tokens b.result.tree)
      (helse : ∀ other ∈ otherwise, other.1.type = .keyword .ELSE)
      (default : ∀ other ∈ otherwise,
        Derives tag (.chain .disjunction) other.2.tokens other.2.tree)
      (hending : ending.type = .keyword .END) :
      Derives tag .unit
        (word :: (operand.elim [] Phrase.tokens ++
          (branches.flatMap Branch.tokens ++ (Phrase.behindWord otherwise ++ [ending]))))
        (.node (.caseOf (operand.map Phrase.tree) (branches.map (Branch.item tag))
          (otherwise.map fun other => other.2.tree) tag))
  | array {word opening closing : Token} {elements : Option Items}
      (hword : word.type = .keyword .ARRAY) (hopening : opening.type = .lbracket)
      (hcommas : ∀ items ∈ elements, items.Separated)
      (each : ∀ items ∈ elements, ∀ p ∈ items.phrases,
        Derives tag (.chain .disjunction) p.tokens p.tree)
      (hclosing : closing.type = .rbracket) :
      Derives tag .unit (word :: opening :: (elements.elim [] Items.tokens ++ [closing]))
        (.node (.array (elements.elim [] Items.trees) tag))
  /-- Parentheses leave no trace. -/
  | parenthesized {opening closing : Token} {tokens : List Token} {e : Expr}
      (hopening : opening.type = .lparen) (inner : Derives tag (.chain .disjunction) tokens e)
      (hclosing : closing.type = .rparen) :
      Derives tag .unit (opening :: (tokens ++ [closing])) e

namespace Derives

variable {tag : Tag} {tokens : List Token} {e : Expr}

/-! ## From a tighter layer to a looser one -/

theorem sum (h : Derives tag .operand tokens e) : Derives tag (.chain .sum) tokens e := by
  have hproduct : Derives tag (.chain .product) tokens e := .first h
  exact .first hproduct

theorem negation (h : Derives tag (.chain .sum) tokens e) : Derives tag .negation tokens e :=
  .positive (.unclosed (.single h))

theorem expression (h : Derives tag .negation tokens e) :
    Derives tag (.chain .disjunction) tokens e := by
  have hconjunction : Derives tag (.chain .conjunction) tokens e := .first h
  have hexclusion : Derives tag (.chain .exclusion) tokens e := .first hconjunction
  exact .first hexclusion

/-- A column of one name. -/
theorem name {word : Token} (hword : word.type = .identifier) :
    Derives tag .unit [word] (.node (.identifier (word.plainName tag))) := by
  have hnone : ∀ part ∈ ([] : List (Token × Token)),
      part.1.type = .dot ∧ part.2.type = .identifier :=
    fun _ hnone => absurd hnone List.not_mem_nil
  exact .column hword hnone rfl

end Derives

end SqlTree

import SqlTree.Grammar.Statement
import SqlTree.Proofs.Derivation.Ending

/-!
# Reading the layers

What it means that the grammar reads a phrase of a layer, and, for each rule of `Derives` above the
units, that the grammar reads the phrase when it reads the parts.  A chain is followed from its left
end: however far it has been read, its loop goes on from there.
-/

namespace SqlTree

open SqlTree.Parser

abbrev Settings.level (settings : Settings) (levels : Nat) : Level :=
  ⟨settings, Level.produce settings levels⟩

def Level.operandOf (g : Level) : Chain → Parser Expr
  | .disjunction => g.chain TokenType.exclusion? (g.chain TokenType.conjunction? g.negation)
  | .exclusion => g.chain TokenType.conjunction? g.negation
  | .conjunction => g.negation
  | .sum => g.multiplicative
  | .product => g.below .operand

def Level.turnOf (g : Level) (c : Chain) : Expr → Parser (Turn Expr) :=
  g.chainTurn c.operator? (g.operandOf c)

/-- The parser reads the phrase where a phrase with the limit can end. -/
def Whole (p : Parser Expr) (limit : Nat) (tokens : List Token) (e : Expr) : Prop :=
  ∀ rest, EndsBefore limit rest → Yields p tokens e rest

/-- The parser and the loop behind it have come to the end of the phrase, and the loop goes on from
there. -/
def Opens (p : Parser Expr) (turn : Expr → Parser (Turn Expr)) (limit : Nat) (tokens : List Token)
    (e : Expr) : Prop :=
  ∀ more b rest, EndsBefore limit (more ++ rest) → Yields.Ends turn e more b rest →
    Yields (p >>= loop turn) (tokens ++ more) b rest

/-- Tokens that can stand behind a phrase with the limit, and are not none. -/
def Continues (limit : Nat) (tokens : List Token) : Prop :=
  ∃ token more, tokens = token :: more ∧ token.Follows limit

/-- How the grammar reads a phrase of a layer with a number of nesting levels left. -/
def Accepted (settings : Settings) (levels : Nat) : Layer → List Token → Expr → Prop
  | .chain c =>
    Opens ((settings.level levels).operandOf c) ((settings.level levels).turnOf c) c.operand.limit
  | .negation => Whole (settings.level levels).negation Layer.negation.limit
  | .predicate => Whole (settings.level levels).relational Layer.predicate.limit
  | .comparison =>
    Opens (settings.level levels).additive (settings.level levels).predicate
      (Layer.chain .sum).limit
  | .operand => Whole ((settings.level levels).below .operand) Layer.operand.limit
  | .unit => Whole (settings.level (levels - 1)).unit Layer.unit.limit

section Opens

variable {p : Parser Expr} {turn : Expr → Parser (Turn Expr)} {limit : Nat}
variable {tokens more rest : List Token} {e e' : Expr}

theorem Opens.of_whole (h : Whole p limit tokens e) : Opens p turn limit tokens e := by
  intro more b rest hend hmore
  exact (h (more ++ rest) hend).bind (.loop hmore)

/-- The loop takes one more turn. -/
theorem Opens.extend (h : Opens p turn limit tokens e) (hcontinues : Continues limit more)
    (hturn : ∀ rest, EndsBefore limit rest → Yields (turn e) more (.again e') rest) :
    Opens p turn limit (tokens ++ more) e' := by
  obtain ⟨token, more, rfl, hfollows⟩ := hcontinues
  intro further b rest hend hfurther
  have hfirst : EndsBefore limit ((token :: more ++ further) ++ rest) := endsBefore_cons.2 hfollows
  have hloop := Yields.ends_again (hturn (further ++ rest) hend) hfurther
  rw [List.append_assoc]
  exact h _ b rest hfirst hloop

/-- The loop takes its last turn. -/
theorem Opens.close (h : Opens p turn limit tokens e) (hend : EndsBefore limit (more ++ rest))
    (hturn : Yields (turn e) more (.done e') rest) :
    Yields (p >>= loop turn) (tokens ++ more) e' rest :=
  h more e' rest hend (Yields.ends_done hturn)

/-- The loop ends without another turn. -/
theorem Opens.stop (h : Opens p turn limit tokens e) (hend : EndsBefore limit rest)
    (hturn : Yields (turn e) [] (.done e) rest) : Yields (p >>= loop turn) tokens e rest := by
  have hclose : Yields (p >>= loop turn) (tokens ++ []) e rest := h.close hend hturn
  rwa [List.append_nil] at hclose

end Opens

/-! ## Lists -/

section Lists

variable {construct : Construct} {cap limit : Nat} {item : Parser Expr} {rest : List Token}

theorem endsBefore_comma {comma : Token} (hcomma : comma.type = .comma) (hlimit : 0 < limit)
    (more : List Token) : EndsBefore limit (comma :: more) := by
  apply follows_of_binding (n := 0)
  · rw [hcomma]
    rfl
  · exact hlimit
  · intro word hword
    rw [hcomma] at hword
    cases hword

theorem yields_commaListFrom {first : Phrase} {further : List (Token × Phrase)} {n : Nat}
    {done : List Expr} (hlimit : 0 < limit) (hfirst : Whole item limit first.tokens first.tree)
    (hcommas : ∀ i ∈ further, i.1.type = .comma)
    (hitems : ∀ i ∈ further, Whole item limit i.2.tokens i.2.tree)
    (hcount : further.length < n) (hrest : EndsBefore limit rest)
    (hend : headType rest ≠ some .comma) :
    Yields (commaListFrom construct cap item n done)
      (first.tokens ++ further.flatMap fun i => i.1 :: i.2.tokens)
      (done.reverse ++ first.tree :: further.map fun i => i.2.tree) rest := by
  induction further generalizing first n done with
  | nil =>
      obtain ⟨n, rfl⟩ := Nat.exists_eq_add_one.2 (Nat.zero_lt_of_lt hcount)
      have hlast : Yields (pure (first.tree :: done).reverse : Parser (List Expr)) []
          (done.reverse ++ [first.tree]) rest := by
        rw [← List.reverse_cons]
        exact .pure
      rw [commaListFrom]
      exact (hfirst rest hrest).bind (.pass hend hlast)
  | cons i further ih =>
      obtain ⟨comma, phrase⟩ := i
      obtain ⟨n, rfl⟩ := Nat.exists_eq_add_one.2 (Nat.zero_lt_of_lt hcount)
      have hcomma : comma.type = .comma := hcommas _ (List.mem_cons_self ..)
      have hmore : Yields (commaListFrom construct cap item n (first.tree :: done))
          (phrase.tokens ++ further.flatMap fun i => i.1 :: i.2.tokens)
          ((first.tree :: done).reverse ++ phrase.tree :: further.map fun i => i.2.tree) rest :=
        ih (hitems _ (List.mem_cons_self ..)) (fun i hi => hcommas i (List.mem_cons_of_mem _ hi))
          (fun i hi => hitems i (List.mem_cons_of_mem _ hi)) (Nat.lt_of_succ_lt_succ hcount)
      rw [List.reverse_cons, List.append_assoc] at hmore
      rw [commaListFrom]
      exact (hfirst _ (endsBefore_comma hcomma hlimit _)).bind (.accept hcomma hmore)

/-- A list is read when its items are and it is not longer than the cap. -/
theorem yields_commaList {items : Items} (hlimit : 0 < limit)
    (hitems : ∀ p ∈ items.phrases, Whole item limit p.tokens p.tree) (hcommas : items.Separated)
    (hcount : items.further.length < cap) (hrest : EndsBefore limit rest)
    (hend : headType rest ≠ some .comma) :
    Yields (commaList construct cap item) items.tokens items.trees rest := by
  have hlist : Yields (commaListFrom construct cap item cap [])
      (items.first.tokens ++ items.further.flatMap fun i => i.1 :: i.2.tokens)
      ([].reverse ++ items.first.tree :: items.further.map fun i => i.2.tree) rest := by
    refine yields_commaListFrom hlimit (hitems _ (List.mem_cons_self ..)) hcommas ?_ hcount hrest
      hend
    intro i hi
    exact hitems i.2 (List.mem_cons_of_mem _ (List.mem_map_of_mem hi))
  have htrees : items.trees = items.first.tree :: items.further.map fun i => i.2.tree := by
    rw [Items.trees, Items.phrases, List.map_cons, List.map_map]
    rfl
  rw [htrees]
  exact hlist

end Lists

/-! ## Chains -/

section Rules

variable {settings : Settings} {n : Nat} {tokens tokens' rest : List Token} {e e' : Expr}

theorem yields_turnOf_stop {g : Level} {c : Chain} (h : EndsBefore (Layer.chain c).limit rest) :
    Yields (g.turnOf c e) [] (.done e) rest :=
  ⟨fun _ _ => Level.chainTurn_stop h.operator?_eq_none⟩

theorem yields_predicate_stop {g : Level} (h : EndsBefore Layer.predicate.limit rest) :
    Yields (g.predicate e) [] (.done e) rest :=
  ⟨fun behind depth => Level.predicate_stop (h.continuesPredicate behind depth)⟩

/-- A chain that has been read to its end. -/
theorem Accepted.chain {c : Chain} (h : Accepted settings n (.chain c) tokens e) :
    Whole ((settings.level n).chain c.operator? ((settings.level n).operandOf c))
      (Layer.chain c).limit tokens e := by
  intro rest hrest
  have hle : (Layer.chain c).limit ≤ c.operand.limit := by cases c <;> decide
  exact Opens.stop h (hrest.mono hle) (yields_turnOf_stop hrest)

theorem Accepted.operandOf {c : Chain} (h : Accepted settings n c.operand tokens e) :
    Whole ((settings.level n).operandOf c) c.operand.limit tokens e := by
  cases c with
  | disjunction => exact Accepted.chain (c := .exclusion) h
  | exclusion => exact Accepted.chain (c := .conjunction) h
  | conjunction => exact h
  | sum => exact Accepted.chain (c := .product) h
  | product => exact h

theorem Accepted.expression (h : Accepted settings n (.chain .disjunction) tokens e) :
    Whole (settings.level n).expression (Layer.chain .disjunction).limit tokens e :=
  h.chain

theorem Accepted.additive (h : Accepted settings n (.chain .sum) tokens e) :
    Whole (settings.level n).additive (Layer.chain .sum).limit tokens e :=
  h.chain

theorem Accepted.first {c : Chain} (h : Accepted settings n c.operand tokens e) :
    Accepted settings n (.chain c) tokens e :=
  Opens.of_whole h.operandOf

theorem Accepted.link {c : Chain} {sign : Token} {op : BinaryOp}
    (hleft : Accepted settings n (.chain c) tokens e) (hsign : c.operator? sign.type = some op)
    (hright : Accepted settings n c.operand tokens' e') (hspelled : sign.Spelled) :
    Accepted settings n (.chain c) (tokens ++ sign :: tokens')
      (.node (.binary e op e' settings.tag)) := by
  obtain ⟨hbinding, hlt⟩ := c.binding?_of_operator? hsign
  refine Opens.extend hleft ⟨sign, tokens', rfl, ⟨_, hbinding, hlt⟩, hspelled⟩ fun rest hrest => ?_
  refine .peekType ?_
  have hnext : (headType (sign :: tokens' ++ rest)).bind c.operator? = some op := hsign
  rw [hnext]
  exact .take ((hright.operandOf rest hrest).andThen .pure)

/-! ## Negation and predicates -/

theorem headType_cons_ne {token : Token} {type : TokenType} (htype : token.type ≠ type)
    (tokens : List Token) : headType (token :: tokens) ≠ some type :=
  fun hnext => htype (Option.some.inj hnext)

theorem headType_ne_of_eq {token : Token} {type other : TokenType} (htype : token.type = type)
    (hne : type ≠ other) (tokens : List Token) : headType (token :: tokens) ≠ some other :=
  headType_cons_ne (htype ▸ hne) tokens

theorem Accepted.positive (h : Accepted settings n .predicate tokens e)
    (hbegins : Begins .predicate tokens) : Accepted settings n .negation tokens e := by
  intro rest hrest
  exact .pass (hbegins.headType_ne rest rfl (by decide)) (h rest hrest)

theorem Accepted.not {word : Token} (h : Accepted settings n .negation tokens e)
    (hword : word.type = .keyword .NOT) :
    Accepted settings (n + 1) .negation (word :: tokens) (.node (.not e settings.tag)) := by
  intro rest hrest
  have hbelow : Yields ((settings.level (n + 1)).below .negation) tokens e rest :=
    (h rest hrest).nested
  exact .accept hword (hbelow.andThen .pure)

theorem Accepted.single (h : Accepted settings n (.chain .sum) tokens e) :
    Accepted settings n .comparison tokens e :=
  Opens.of_whole h.additive

theorem Accepted.unclosed (h : Accepted settings n .comparison tokens e) :
    Accepted settings n .predicate tokens e := by
  intro rest hrest
  exact Opens.stop h (hrest.mono (by decide)) (yields_predicate_stop hrest)

theorem Accepted.compare {sign : Token} {op : BinaryOp}
    (hleft : Accepted settings n .comparison tokens e) (hsign : sign.type.comparison? = some op)
    (hright : Accepted settings n (.chain .sum) tokens' e') (hspelled : sign.Spelled) :
    Accepted settings n .comparison (tokens ++ sign :: tokens')
      (.node (.binary e op e' settings.tag)) := by
  have hbinding : sign.type.binding? = some Layer.predicate.limit :=
    TokenType.binding?_of_predicate (.inl (Option.isSome_of_eq_some hsign))
  refine Opens.extend hleft ⟨sign, tokens', rfl, ⟨_, hbinding, by decide⟩, hspelled⟩ ?_
  intro rest hrest
  refine .peekType ?_
  have hnext : (headType (sign :: tokens' ++ rest)).bind TokenType.comparison? = some op := hsign
  rw [hnext]
  exact .take ((hright.additive rest hrest).andThen .pure)

/-- Signs and words of predicates go on with a sum. -/
theorem continues_of_predicate {token : Token}
    (htype : token.type.comparison?.isSome = true ∨ token.type = .keyword .IS ∨
      token.type.regexSign?.isSome = true ∨ token.type.takesNot = true ∨
      token.type = .keyword .NOT) (hspelled : token.Spelled) (more : List Token) :
    Continues (Layer.chain .sum).limit (token :: more) :=
  ⟨token, more, rfl, ⟨_, TokenType.binding?_of_predicate htype, by decide⟩, hspelled⟩

/-- A predicate that is closed by what the last turn of its loop reads. -/
theorem Accepted.close {more : List Token} (hleft : Accepted settings n .comparison tokens e)
    (hcontinues : Continues (Layer.chain .sum).limit more)
    (hturn : ∀ rest, EndsBefore Layer.predicate.limit rest →
      Yields ((settings.level n).predicate e) more (.done e') rest) :
    Accepted settings n .predicate (tokens ++ more) e' := by
  obtain ⟨token, more, rfl, hfollows⟩ := hcontinues
  intro rest hrest
  exact Opens.close hleft (endsBefore_cons.2 hfollows) (hturn rest hrest)

/-! ### `IS` -/

theorem yields_truthOrNull {truth : Token} {value : Expr}
    (htruth : truth.truth? settings.tag = some value) :
    Yields (settings.level n).truthOrNull [truth] value rest := by
  rcases Token.truth?_eq_some htruth with ⟨htype, rfl⟩ | ⟨htype, rfl⟩ | ⟨htype, rfl⟩
  · exact .accept htype .pure
  · refine .pass (headType_ne_of_eq htype (by decide) rest) ?_
    exact .accept htype .pure
  · refine .pass (headType_ne_of_eq htype (by decide) rest) ?_
    refine .pass (headType_ne_of_eq htype (by decide) rest) ?_
    exact .accept htype .pure

theorem yields_isPredicate {truth : Token} {value : Expr} {negator : Option Token}
    (hnot : Token.OptionallyOf (.keyword .NOT) negator)
    (htruth : truth.truth? settings.tag = some value) :
    Yields ((settings.level n).isPredicate e) (negator.toList ++ [truth])
      (.node (.binary e (if negator.isSome then .isNot else .is) value settings.tag)) rest := by
  have hvalue : Yields (settings.level n).truthOrNull [truth] value rest :=
    yields_truthOrNull htruth
  cases negator with
  | none =>
      have htype : truth.type ≠ .keyword .NOT := by
        intro htype
        rw [Token.truth?, htype] at htruth
        cases htruth
      exact .pass (headType_cons_ne htype rest) (hvalue.andThen .pure)
  | some word => exact .accept (hnot word rfl) (hvalue.andThen .pure)

theorem Accepted.is {word truth : Token} {value : Expr} {negator : Option Token}
    (hleft : Accepted settings n .comparison tokens e) (hword : word.type = .keyword .IS)
    (hnot : Token.OptionallyOf (.keyword .NOT) negator)
    (htruth : truth.truth? settings.tag = some value) (hspelled : word.Spelled) :
    Accepted settings n .predicate (tokens ++ word :: (negator.toList ++ [truth]))
      (.node (.binary e (if negator.isSome then .isNot else .is) value settings.tag)) := by
  refine hleft.close (continues_of_predicate (.inr (.inl hword)) hspelled _) fun rest hrest => ?_
  refine .peekType ?_
  have hnext : headType (word :: (negator.toList ++ [truth]) ++ rest) = some (.keyword .IS) :=
    congrArg some hword
  rw [hnext]
  exact .accept hword ((yields_isPredicate hnot htruth).andThen .pure)

/-! ### Regular expressions by sign -/

theorem yields_regex {ignoresCase negated : Bool}
    (hright : Accepted settings n (.chain .sum) tokens' e')
    (hrest : EndsBefore Layer.predicate.limit rest) :
    Yields ((settings.level n).regex e ignoresCase negated) tokens'
      (.node (.regex e e' ignoresCase negated settings.tag)) rest :=
  (hright.additive rest (hrest.mono (by decide))).andThen .pure

theorem Accepted.regexSign {sign : Token} {ignoresCase negated : Bool}
    (hleft : Accepted settings n .comparison tokens e)
    (hsign : sign.type.regexSign? = some (ignoresCase, negated))
    (hright : Accepted settings n (.chain .sum) tokens' e') (hspelled : sign.Spelled) :
    Accepted settings n .predicate (tokens ++ sign :: tokens')
      (.node (.regex e e' ignoresCase negated settings.tag)) := by
  have hsome : sign.type.regexSign?.isSome = true := Option.isSome_of_eq_some hsign
  have hcomparison : sign.type.comparison? = none := TokenType.comparison?_of_regexSign? hsign
  have his : sign.type ≠ .keyword .IS := by
    intro htype
    rw [htype] at hsign
    cases hsign
  refine hleft.close (continues_of_predicate (.inr (.inr (.inl hsome))) hspelled _) ?_
  intro rest hrest
  refine .peekType ?_
  have hnext : headType (sign :: tokens' ++ rest) = some sign.type := rfl
  rw [hnext, Option.bind_some, Option.bind_some, hcomparison, hsign]
  refine .pass (headType_cons_ne his _) ?_
  exact .take ((yields_regex hright hrest).andThen .pure)

/-! ### Words that `NOT` may stand before -/

/-- A word that `NOT` may stand before, with or without it. -/
theorem continues_of_takesNot {word : Token} {negator : Option Token}
    (hnot : Token.OptionallyOf (.keyword .NOT) negator) (hword : word.type.takesNot = true)
    (hspelled : ∀ t ∈ negator.toList ++ [word], t.Spelled) (more : List Token) :
    Continues (Layer.chain .sum).limit (negator.toList ++ word :: more) := by
  cases negator with
  | none =>
      have hthis := hspelled word (List.mem_singleton_self word)
      exact continues_of_predicate (.inr (.inr (.inr (.inl hword)))) hthis more
  | some t =>
      have hthis := hspelled t (List.mem_cons_self ..)
      exact continues_of_predicate (.inr (.inr (.inr (.inr (hnot t rfl))))) hthis (word :: more)

theorem yields_predicateNot {word : Token} {negator : Option Token}
    (hnot : Token.OptionallyOf (.keyword .NOT) negator) (hword : word.type.takesNot = true)
    (more : List Token) :
    Yields Level.predicateNot negator.toList negator.isSome (word :: more) := by
  cases negator with
  | none =>
      have hother : word.type ≠ .keyword .NOT := by
        intro htype
        rw [htype] at hword
        cases hword
      refine .test false (fun behind depth => ?_) .pure
      have hnext := headType_cons_ne hother more
      exact Bool.and_eq_false_imp.2 fun htrue => absurd (eq_of_beq htrue) hnext
  | some t =>
      have htype : t.type = .keyword .NOT := hnot t rfl
      refine .test true (fun behind depth => ?_) (.take .pure)
      simp [Cursor.isNegatedPredicate, Cursor.nextType, Cursor.secondType, htype, hword]

/-- A turn that starts neither with a sign of a predicate nor with `IS`. -/
theorem yields_predicate_of_word {g : Level} {token : Token} {more : List Token}
    {turn : Turn Expr} (htype : token.type.takesNot = true ∨ token.type = .keyword .NOT)
    (hword : Yields (g.wordPredicate e) (token :: more) turn rest) :
    Yields (g.predicate e) (token :: more) turn rest := by
  have hother : token.type.comparison? = none ∧ token.type ≠ .keyword .IS ∧
      token.type.regexSign? = none := by
    rcases htype with htakes | hnot
    · exact TokenType.opens_of_takesNot htakes
    · rw [hnot]
      decide
  obtain ⟨hcomparison, his, hregex⟩ := hother
  refine .peekType ?_
  have hnext : headType (token :: more ++ rest) = some token.type := rfl
  rw [hnext, Option.bind_some, Option.bind_some, hcomparison, hregex]
  exact .pass (headType_cons_ne his _) hword

theorem yields_predicate_of_takesNot {g : Level} {word : Token} {negator : Option Token}
    {more : List Token} {turn : Turn Expr} (hnot : Token.OptionallyOf (.keyword .NOT) negator)
    (hword : word.type.takesNot = true)
    (hturn : Yields (g.wordPredicate e) (negator.toList ++ word :: more) turn rest) :
    Yields (g.predicate e) (negator.toList ++ word :: more) turn rest := by
  cases negator with
  | none => exact yields_predicate_of_word (.inl hword) hturn
  | some t => exact yields_predicate_of_word (.inr (hnot t rfl)) hturn

/-- What a closing word reads behind it, with or without `NOT` before it. -/
theorem Accepted.closeWord {word : Token} {negator : Option Token} {more : List Token}
    (hleft : Accepted settings n .comparison tokens e)
    (hnot : Token.OptionallyOf (.keyword .NOT) negator) (hword : word.type.takesNot = true)
    (hspelled : ∀ t ∈ negator.toList ++ [word], t.Spelled)
    (hturn : ∀ rest, EndsBefore Layer.predicate.limit rest →
      Yields ((settings.level n).wordPredicate e) (negator.toList ++ word :: more)
        (.done e') rest) :
    Accepted settings n .predicate (tokens ++ (negator.toList ++ word :: more)) e' := by
  refine hleft.close (continues_of_takesNot hnot hword hspelled more) fun rest hrest => ?_
  exact yields_predicate_of_takesNot hnot hword (hturn rest hrest)

theorem Accepted.like {word : Token} {op negatedOp : BinaryOp} {negator : Option Token}
    (hleft : Accepted settings n .comparison tokens e)
    (hnot : Token.OptionallyOf (.keyword .NOT) negator)
    (hword : word.type.likeness? = some (op, negatedOp))
    (hright : Accepted settings n (.chain .sum) tokens' e')
    (hspelled : ∀ t ∈ negator.toList ++ [word], t.Spelled) :
    Accepted settings n .comparison (tokens ++ (negator.toList ++ word :: tokens'))
      (.node (.binary e (if negator.isSome then negatedOp else op) e' settings.tag)) := by
  have hlikeness := TokenType.likeness?_eq_some hword
  have htakes : word.type.takesNot = true := by
    rcases hlikeness with ⟨htype, -⟩ | ⟨htype, -⟩ <;> simp [htype, TokenType.takesNot]
  refine Opens.extend hleft (continues_of_takesNot hnot htakes hspelled tokens') ?_
  intro rest hrest
  refine yields_predicate_of_takesNot hnot htakes ?_
  refine (yields_predicateNot hnot htakes _).bind ?_
  have hpattern := hright.additive rest hrest
  rcases hlikeness with ⟨htype, hops⟩ | ⟨htype, hops⟩
  · cases hops
    exact .accept htype (hpattern.andThen .pure)
  · cases hops
    refine .pass (headType_ne_of_eq htype (by decide) _) ?_
    exact .accept htype (hpattern.andThen .pure)

theorem yields_between {conjunct : Token} {negated : Bool} {lower upper : List Token}
    {low high : Expr} (hlow : Accepted settings n (.chain .sum) lower low)
    (hand : conjunct.type = .keyword .AND) (hhigh : Accepted settings n (.chain .sum) upper high)
    (hspelled : conjunct.Spelled) (hrest : EndsBefore Layer.predicate.limit rest) :
    Yields ((settings.level n).between e negated) (lower ++ conjunct :: upper)
      (.node (.between e low high negated settings.tag)) rest := by
  -- the first `AND` ends the lower bound, which is a sum
  have hend : EndsBefore (Layer.chain .sum).limit (conjunct :: upper ++ rest) := by
    refine follows_of_binding (n := 3) ?_ (by decide) hspelled
    rw [hand]
    rfl
  have hupper := hhigh.additive rest (hrest.mono (by decide))
  exact (hlow.additive _ hend).bind (.expect hand (hupper.andThen .pure))

theorem Accepted.between {word conjunct : Token} {negator : Option Token}
    {lower upper : List Token} {low high : Expr}
    (hleft : Accepted settings n .comparison tokens e)
    (hnot : Token.OptionallyOf (.keyword .NOT) negator) (hword : word.type = .keyword .BETWEEN)
    (hlow : Accepted settings n (.chain .sum) lower low) (hand : conjunct.type = .keyword .AND)
    (hhigh : Accepted settings n (.chain .sum) upper high)
    (hspelled : ∀ t ∈ negator.toList ++ [word], t.Spelled) (hconjunct : conjunct.Spelled) :
    Accepted settings n .predicate
      (tokens ++ (negator.toList ++ word :: (lower ++ conjunct :: upper)))
      (.node (.between e low high negator.isSome settings.tag)) := by
  have htakes : word.type.takesNot = true := congrArg TokenType.takesNot hword
  refine hleft.closeWord hnot htakes hspelled fun rest hrest => ?_
  refine (yields_predicateNot hnot htakes _).bind ?_
  refine .pass (headType_ne_of_eq hword (by decide) _) ?_
  refine .pass (headType_ne_of_eq hword (by decide) _) ?_
  exact .accept hword ((yields_between hlow hand hhigh hconjunct hrest).andThen .pure)

theorem yields_targets {items : Items} {closing : Token}
    (hitems : ∀ p ∈ items.phrases, Accepted settings n (.chain .sum) p.tokens p.tree)
    (hbegins : Begins (.chain .sum) items.first.tokens) (hcommas : items.Separated)
    (hcount : items.further.length < settings.maxIterations) (hclosing : closing.type = .rparen) :
    Yields (settings.level n).targets items.tokens (items.trees, none) (closing :: rest) := by
  refine .test false (fun behind depth => ?_) ?_
  · exact ((hbegins.append _).append _).startsQuery
  · have hend : EndsBefore (Layer.chain .sum).limit (closing :: rest) := by
      have hbinding : closing.type.binding? = some 0 := congrArg TokenType.binding? hclosing
      refine endsBefore_cons.2 ⟨⟨0, hbinding, by decide⟩, fun word hword => ?_⟩
      rw [hclosing] at hword
      cases hword
    have hlist : Yields ((settings.level n).commaList .inList (settings.level n).additive)
        items.tokens items.trees (closing :: rest) :=
      yields_commaList (by decide) (fun p hp => (hitems p hp).additive) hcommas hcount hend
        (headType_ne_of_eq hclosing (by decide) rest)
    exact hlist.andThen .pure

theorem Accepted.membership {word opening closing : Token} {negator : Option Token} {items : Items}
    (hleft : Accepted settings n .comparison tokens e)
    (hnot : Token.OptionallyOf (.keyword .NOT) negator) (hword : word.type = .keyword .IN)
    (hopening : opening.type = .lparen) (hcommas : items.Separated)
    (hitems : ∀ p ∈ items.phrases, Accepted settings n (.chain .sum) p.tokens p.tree)
    (hbegins : Begins (.chain .sum) items.first.tokens)
    (hcount : items.further.length < settings.maxIterations) (hclosing : closing.type = .rparen)
    (hspelled : ∀ t ∈ negator.toList ++ [word], t.Spelled) :
    Accepted settings n .predicate
      (tokens ++ (negator.toList ++ word :: opening :: (items.tokens ++ [closing])))
      (.node (.membership e items.trees none negator.isSome settings.tag)) := by
  have htakes : word.type.takesNot = true := congrArg TokenType.takesNot hword
  refine hleft.closeWord hnot htakes hspelled fun rest hrest => ?_
  refine (yields_predicateNot hnot htakes _).bind ?_
  refine .pass (headType_ne_of_eq hword (by decide) _) ?_
  refine .pass (headType_ne_of_eq hword (by decide) _) ?_
  refine .pass (headType_ne_of_eq hword (by decide) _) ?_
  have htargets : Yields (settings.level n).targets items.tokens (items.trees, none)
      (closing :: rest) := yields_targets hitems hbegins hcommas hcount hclosing
  have hmembership : Yields ((settings.level n).membership e negator.isSome)
      (opening :: (items.tokens ++ [closing]))
      (.node (.membership e items.trees none negator.isSome settings.tag)) rest :=
    .expect hopening (htargets.bind (.expect hclosing .pure))
  exact .accept hword (hmembership.andThen .pure)

theorem Accepted.regexWord {word : Token} {negator : Option Token}
    (hleft : Accepted settings n .comparison tokens e)
    (hnot : Token.OptionallyOf (.keyword .NOT) negator) (hword : word.type = .keyword .REGEXP)
    (hright : Accepted settings n (.chain .sum) tokens' e')
    (hspelled : ∀ t ∈ negator.toList ++ [word], t.Spelled) :
    Accepted settings n .predicate (tokens ++ (negator.toList ++ word :: tokens'))
      (.node (.regex e e' false negator.isSome settings.tag)) := by
  have htakes : word.type.takesNot = true := congrArg TokenType.takesNot hword
  refine hleft.closeWord hnot htakes hspelled fun rest hrest => ?_
  refine (yields_predicateNot hnot htakes _).bind ?_
  refine .pass (headType_ne_of_eq hword (by decide) _) ?_
  refine .pass (headType_ne_of_eq hword (by decide) _) ?_
  refine .pass (headType_ne_of_eq hword (by decide) _) ?_
  refine .pass (headType_ne_of_eq hword (by decide) _) ?_
  exact .accept hword ((yields_regex hright hrest).andThen .pure)

end Rules

end SqlTree

import Mathlib.Data.List.Forall2
import SqlTree.Proofs.Brackets
import SqlTree.Proofs.Likeness.Value
import SqlTree.Proofs.Run

/-!
# Two readings side by side

Two parsers are kept alike when, from places in like tokens, both give like values at like places,
or both fail with errors of one class.  The judgement also follows the brackets that the first
reading has left open, so that reading like tokens tells as well that what was read is well
nested.  Here are the rules for the parts that every rule of the grammar is made of.
-/

namespace SqlTree

open SqlTree.Parser

variable {α β γ δ : Type}

namespace Likeness

structure Beside (L : Likeness) (c d : Cursor) : Prop where
  behind : List.Forall₂ L.token c.behind d.behind
  ahead : List.Forall₂ L.token c.ahead d.ahead
  depth : c.depth = d.depth

inductive LikeFound (L : Likeness) : Found → Found → Prop where
  | token {type : TokenType} {text text' : String} (h : L.Like text text') :
      LikeFound L (.token type text) (.token type text')
  | endOfInput : LikeFound L .endOfInput .endOfInput

/-- Why reading on is refused at like places. -/
inductive LikeCause (L : Likeness) : GrammarCause → GrammarCause → Prop where
  | expected {wanted : Wanted} {found found' : Found} (h : LikeFound L found found') :
      LikeCause L (.expected wanted found) (.expected wanted found')
  | inExpression {found found' : Found} (h : LikeFound L found found') :
      LikeCause L (.inExpression found) (.inExpression found')
  | afterStatement {found found' : Found} (h : LikeFound L found found') :
      LikeCause L (.afterStatement found) (.afterStatement found')
  | statementStart {found found' : Found} (h : LikeFound L found found') :
      LikeCause L (.statementStart found) (.statementStart found')
  | longTableName {parts parts' : List String} (h : L.Like parts parts') :
      LikeCause L (.longTableName parts) (.longTableName parts')
  | longColumnName {parts parts' : List String} (h : L.Like parts parts') :
      LikeCause L (.longColumnName parts) (.longColumnName parts')
  | missingIndex : LikeCause L .missingIndex .missingIndex

/-- Cursors at like places are the same if like tokens are. -/
theorem Beside.eq {L : Likeness} {c d : Cursor} (h : L.Beside c d)
    (htoken : ∀ {a b : Token}, L.token a b → a = b) : c = d := by
  have hlist : ∀ {as bs : List Token}, List.Forall₂ L.token as bs → as = bs :=
    fun h => List.forall₂_eq_eq_eq ▸ h.imp fun _ _ => htoken
  rw [Cursor.mk.injEq]
  exact ⟨hlist h.behind, hlist h.ahead, h.depth⟩

theorem LikeFound.eq {L : Likeness} {found found' : Found} (h : LikeFound L found found')
    (htext : ∀ {a b : String}, L.Like a b → a = b) : found = found' := by
  cases h with
  | token h => rw [htext h]
  | endOfInput => rfl

/-- Like causes are the same if like texts are. -/
theorem LikeCause.eq {L : Likeness} {cause cause' : GrammarCause} (h : LikeCause L cause cause')
    (htext : ∀ {a b : String}, L.Like a b → a = b) : cause = cause' := by
  cases h with
  | expected h => rw [h.eq htext]
  | inExpression h => rw [h.eq htext]
  | afterStatement h => rw [h.eq htext]
  | statementStart h => rw [h.eq htext]
  | longTableName h => rw [h.eq_of_forall htext]
  | longColumnName h => rw [h.eq_of_forall htext]
  | missingIndex => rfl

/-- Both readings are in a dialect, or neither of them is. -/
def SharesDialect (L : Likeness) (d : Dialect) : Prop :=
  (L.first.tag.dialect == some d) = (L.second.tag.dialect == some d)

def Linked (L : Likeness) (tokens : List Token) : Prop :=
  ∀ a b, [a, b] <:+: tokens → L.follows a b

/-- What a likeness has to respect so that the grammar cannot tell its two readings apart.  Caps
that differ may part them. -/
structure Lawful (L : Likeness) : Prop where
  limitStyle : L.first.limitStyle = L.second.limitStyle
  maxIterations : L.first.maxIterations = L.second.maxIterations ∨
    ∀ construct cap, L.parts (.statement (.tooManyIterations construct cap))
  maxDepth : L.first.maxDepth = L.second.maxDepth ∨ ∀ cap, L.parts (.statement (.tooDeep cap))
  /-- Where the tags part the readings, the tokens that would tell them apart do not occur. -/
  link : L.SharesDialect .oracle ∨ ∀ {a b : Token}, L.token a b → a.type ≠ .atSign
  into : L.SharesDialect .sqlServer ∨ ∀ {a b : Token}, L.token a b → a.type ≠ .keyword .INTO
  tableHints : L.SharesDialect .sqlServer ∨
    ∀ {a b : Token}, L.follows a b → a.type = .keyword .WITH → b.type ≠ .lparen
  tag : L.Like L.first.tag L.second.tag
  constant : ∀ text : String, L.Like text text
  append : ∀ {a a' b b' : String}, L.Like a b → L.Like a' b' → L.Like (a ++ a') (b ++ b')
  upper : ∀ {a b : String}, L.Like a b → L.Like (Text.upper a) (Text.upper b)
  type : ∀ {a b : Token}, L.token a b → a.type = b.type
  text : ∀ {a b : Token}, L.token a b → L.Like a.text b.text
  word : ∀ {a b : Token}, L.token a b → a.type.isWord = true → Text.upper a.text = Text.upper b.text
  escaped : ∀ {a b : Token}, L.token a b → a.type = .quotedIdentifier →
    L.Like (Identifier.escaped a.text L.first.tag) (Identifier.escaped b.text L.second.tag)
  same : ∀ e, L.error e e
  refused : ∀ {c d : Cursor} {cause cause' : GrammarCause}, L.Beside c d →
    LikeCause L cause cause' → L.error (c.error cause) (d.error cause')
  unsupported : ∀ feature, L.error
    (.unsupported feature (L.first.tag.dialect.elim "generic" Dialect.name))
    (.unsupported feature (L.second.tag.dialect.elim "generic" Dialect.name))

/-- Two results that are both values, or both errors at like places, unless one of them is an error
that parts the readings. -/
inductive Agree (L : Likeness) (S : α → β → Cursor → Cursor → Prop) :
    EStateM.Result Error Cursor α → EStateM.Result Error Cursor β → Prop where
  | ok {a : α} {b : β} {c d : Cursor} (h : S a b c d) : Agree L S (.ok a c) (.ok b d)
  | error {e f : Error} {c d : Cursor} (h : L.error e f) (hbeside : L.Beside c d) :
      Agree L S (.error e c) (.error f d)
  | first {e : Error} {c : Cursor} {y : EStateM.Result Error Cursor β} (h : L.parts e) :
      Agree L S (.error e c) y
  | second {f : Error} {d : Cursor} {x : EStateM.Result Error Cursor α} (h : L.parts f) :
      Agree L S x (.error f d)

/-- Cursors that stand at like places, the first of them behind `base` with some brackets open. -/
structure Abreast (L : Likeness) (base : Cursor) (opened : List Bracket) (c d : Cursor) : Prop
    extends L.Beside c d where
  linked : L.Linked c.ahead
  passed : ∃ tokens, base.Passes tokens c ∧ Bracket.after [] tokens = some opened

/-- Two parsers that go on alike from where the first one satisfies `φ`, and change the open
brackets from `s` to `t`. -/
def Reads (L : Likeness) (φ : Cursor → Prop) (V : α → β → Prop) (s t : List Bracket)
    (p : Parser α) (q : Parser β) : Prop :=
  ∀ base c d, L.Abreast base s c d → φ c →
    L.Agree (fun a b c d => V a b ∧ L.Abreast base t c d) (p c) (q d)

/-- Two parsers that go on alike from anywhere. -/
abbrev Moves (L : Likeness) (V : α → β → Prop) (s t : List Bracket)
    (p : Parser α) (q : Parser β) : Prop :=
  L.Reads (fun _ => True) V s t p q

/-- Two parsers that go on alike from anywhere, over well nested tokens. -/
def Kept (L : Likeness) (V : α → β → Prop) (p : Parser α) (q : Parser β) : Prop :=
  ∀ s, L.Moves V s s p q

variable {L : Likeness} {V : α → β → Prop} {W : γ → δ → Prop} {φ ψ : Cursor → Prop}
variable {s t u : List Bracket}

/-! ## Like cursors -/

namespace Abreast

variable {base c d : Cursor}

theorem head?_eq (hL : L.Lawful) {xs ys : List Token} (h : List.Forall₂ L.token xs ys) :
    xs.head?.map Token.type = ys.head?.map Token.type := by
  cases h with
  | nil => rfl
  | cons hhead _ => exact congrArg some (hL.type hhead)

theorem nextType (hL : L.Lawful) (h : L.Abreast base s c d) : c.nextType = d.nextType :=
  head?_eq hL h.ahead

theorem secondType (hL : L.Lawful) (h : L.Abreast base s c d) : c.secondType = d.secondType := by
  have htail := List.forall₂_drop 1 h.ahead
  rw [List.drop_one, List.drop_one] at htail
  exact head?_eq hL htail

theorem isAfterDot (hL : L.Lawful) (h : L.Abreast base s c d) : c.isAfterDot = d.isAfterDot := by
  rw [Cursor.isAfterDot, Cursor.isAfterDot, head?_eq hL h.behind]

/-- A type that no token of the first reading has is not found. -/
theorem nextType_ne {type : TokenType} (h : L.Abreast base s c d)
    (hnever : ∀ {a b : Token}, L.token a b → a.type ≠ type) : c.nextType ≠ some type := by
  intro hnext
  obtain ⟨token, tokens, hahead, rfl⟩ := Cursor.exists_ahead_of_nextType hnext
  obtain ⟨_, _, hhead, _⟩ := List.forall₂_cons_left_iff.1 (hahead ▸ h.ahead)
  exact hnever hhead rfl

/-- Types that never come after each other are not found together. -/
theorem secondType_ne {type type' : TokenType} (h : L.Abreast base s c d)
    (hnever : ∀ {a b : Token}, L.follows a b → a.type = type → b.type ≠ type')
    (hnext : c.nextType = some type) : c.secondType ≠ some type' := by
  intro hsecond
  obtain ⟨token, tokens, hahead, htype⟩ := Cursor.exists_ahead_of_nextType hnext
  rw [Cursor.secondType, hahead] at hsecond
  obtain ⟨second, hsecond, htype'⟩ := Option.map_eq_some_iff.1 hsecond
  cases tokens with
  | nil => cases hsecond
  | cons other tokens =>
      obtain rfl := Option.some.inj hsecond
      refine hnever (h.linked token other ?_) htype htype'
      rw [hahead]
      exact ⟨[], tokens, rfl⟩

/-- Both cursors step over the next token. -/
theorem step
    {a b : Token} {as bs : List Token} (h : L.Abreast base s c d)
    (hc : c.ahead = a :: as) (hd : d.ahead = b :: bs)
    (hstep : Bracket.step s a.type = some t) : L.Abreast base t c.step d.step := by
  have hahead := h.ahead
  rw [hc, hd] at hahead
  obtain ⟨hhead, htail⟩ := List.forall₂_cons.1 hahead
  obtain ⟨tokens, hpasses, hafter⟩ := h.passed
  refine ⟨⟨?_, ?_, ?_⟩, fun x y hxy => h.linked x y ?_, tokens ++ [a], hpasses.trans (.step hc), ?_⟩
  · simpa [Cursor.step, hc, hd] using ⟨hhead, h.behind⟩
  · simpa [Cursor.step, hc, hd] using htail
  · simpa [Cursor.step, hc, hd] using h.depth
  · rw [Cursor.step, hc] at hxy
    rw [hc]
    exact hxy.trans (List.suffix_cons a as).isInfix
  · rw [Bracket.after_append, hafter]
    simp [Bracket.after_cons, hstep]

end Abreast

theorem isThisWord_eq (hL : L.Lawful) {a b : Token} (h : L.token a b) (word : String) :
    a.isThisWord word = b.isThisWord word := by
  cases hword : a.type.isWord with
  | false =>
      rw [Token.isThisWord, Token.isThisWord, ← hL.type h, hword]
      rfl
  | true =>
      rw [Token.isThisWord, Token.isThisWord, ← hL.type h, Text.sameWord, Text.sameWord,
        hL.word h hword]

/-! ## Rules of the judgement -/

theorem Reads.pure {a : α} {b : β} (h : V a b) : L.Reads φ V s s (pure a) (pure b) :=
  fun _ _ _ habreast _ => .ok ⟨h, habreast⟩

theorem Moves.reads {p : Parser α} {q : Parser β} (h : L.Moves V s t p q) : L.Reads φ V s t p q :=
  fun base c d habreast _ => h base c d habreast trivial

theorem Reads.bind {p : Parser α} {q : Parser β} {f : α → Parser γ} {g : β → Parser δ}
    (hp : L.Reads φ V s t p q) (hf : ∀ a b, V a b → L.Moves W t u (f a) (g b)) :
    L.Reads φ W s u (p >>= f) (q >>= g) := by
  intro base c d habreast hφ
  change L.Agree _ (EStateM.bind p f c) (EStateM.bind q g d)
  unfold EStateM.bind
  have hagree := hp base c d habreast hφ
  generalize p c = x, q d = y at hagree
  cases hagree with
  | ok h => exact hf _ _ h.1 base _ _ h.2 trivial
  | error h hbeside => exact .error h hbeside
  | first h => exact .first h
  | second h => exact .second h

/-- The first part gives the same value on both sides. -/
theorem Reads.bind_eq {p q : Parser α} {f : α → Parser γ} {g : α → Parser δ}
    (hp : L.Reads φ Eq s t p q) (hf : ∀ a, L.Moves W t u (f a) (g a)) :
    L.Reads φ W s u (p >>= f) (q >>= g) :=
  hp.bind fun a _ hab => hab ▸ hf a

theorem Reads.map {p : Parser α} {q : Parser β} {f : α → γ} {g : β → δ}
    (hp : L.Reads φ V s t p q) (hf : ∀ a b, V a b → W (f a) (g b)) :
    L.Reads φ W s t (f <$> p) (g <$> q) := by
  rw [← bind_pure_comp, ← bind_pure_comp]
  exact hp.bind fun a b hab => .pure (hf a b hab)

/-- A test that comes out alike on both sides decides between two ways to go on. -/
theorem Reads.branch {p q : Parser Bool} {f f' : Parser γ} {g g' : Parser δ}
    (hp : L.Reads φ Eq s t p q) (hf : L.Moves W t u f g) (hf' : L.Moves W t u f' g') :
    L.Reads φ W s u (p >>= fun b => if b = true then f else f')
      (q >>= fun b => if b = true then g else g') := by
  refine hp.bind_eq fun result => ?_
  cases result with
  | true => exact hf
  | false => exact hf'

/-- An error of the first reading that parts the two. -/
theorem Reads.throwFirst {e : Error} (h : L.parts e) {q : Parser β} :
    L.Reads φ V s t (throw e : Parser α) q :=
  fun _ _ _ _ _ => .first h

/-- An error of the second reading that parts the two. -/
theorem Reads.throwSecond {f : Error} (h : L.parts f) {p : Parser α} :
    L.Reads φ V s t p (throw f : Parser β) :=
  fun _ _ _ _ _ => .second h

theorem Reads.throw {e f : Error} (h : L.error e f) :
    L.Reads φ V s t (throw e : Parser α) (throw f : Parser β) :=
  fun _ _ _ habreast _ => .error h habreast.toBeside

theorem Beside.found (hL : L.Lawful) {c d : Cursor} (h : L.Beside c d) :
    LikeFound L c.found d.found := by
  obtain ⟨behind, ahead, depth⟩ := c
  obtain ⟨behind', ahead', depth'⟩ := d
  cases h.ahead with
  | nil => exact .endOfInput
  | @cons a b _ _ hhead _ =>
      change LikeFound L (.token a.type a.text) (.token b.type b.text)
      rw [← hL.type hhead]
      exact .token (hL.text hhead)

theorem Reads.refuse (hL : L.Lawful) {cause cause' : GrammarCause} (h : LikeCause L cause cause') :
    L.Reads φ V s t (refuse cause : Parser α) (refuse cause' : Parser β) :=
  fun _ _ _ habreast _ => .error (hL.refused habreast.toBeside h) habreast.toBeside

theorem Reads.refuseFor (hL : L.Lawful) {wanted : Wanted} :
    L.Reads φ V s t (refuseFor wanted : Parser α) (refuseFor wanted : Parser β) :=
  fun _ _ _ habreast _ =>
    .error (hL.refused habreast.toBeside (.expected (habreast.found hL))) habreast.toBeside

theorem Reads.refuseFound (hL : L.Lawful) {cause cause' : Found → GrammarCause}
    (h : ∀ {found found'}, LikeFound L found found' → LikeCause L (cause found) (cause' found')) :
    L.Reads φ V s t (refuseFound cause : Parser α) (refuseFound cause' : Parser β) :=
  fun _ _ _ habreast _ =>
    .error (hL.refused habreast.toBeside (h (habreast.found hL))) habreast.toBeside

/-! ## Looking at the next tokens -/

/-- What looks the same from like places. -/
def Shared (L : Likeness) (look : Cursor → γ) : Prop :=
  ∀ ⦃base s c d⦄, L.Abreast base s c d → look c = look d

/-- What depends on the next type only looks the same from like places. -/
theorem Shared.ofNextType (hL : L.Lawful) (look : Option TokenType → γ) :
    L.Shared fun c => look c.nextType :=
  fun _ _ _ _ habreast => congrArg look (habreast.nextType hL)

/-- What depends on the next two types only looks the same from like places. -/
theorem Shared.ofTypes (hL : L.Lawful) (look : Option TokenType → Option TokenType → γ) :
    L.Shared fun c => look c.nextType c.secondType :=
  fun _ _ _ _ habreast =>
    congrArg₂ look (habreast.nextType hL) (habreast.secondType hL)

/-- What is told of the next token, if there is one, looks the same from like places when it is
shared by like tokens. -/
theorem Shared.ofNext {look : Token → Bool} (hlook : ∀ a b, L.token a b → look a = look b) :
    L.Shared fun c => (c.ahead.head?.map look).getD false := by
  intro base s c d habreast
  obtain ⟨behind, ahead, depth⟩ := c
  obtain ⟨behind', ahead', depth'⟩ := d
  cases habreast.ahead with
  | nil => rfl
  | cons hhead _ => exact hlook _ _ hhead

/-- What the next type is stays known until a token is taken. -/
theorem Moves.peekType {f : Option TokenType → Parser γ} {g : Option TokenType → Parser δ}
    (hL : L.Lawful) (hf : ∀ type, L.Reads (fun c => c.nextType = type) W s t (f type) (g type)) :
    L.Moves W s t (peekType >>= f) (peekType >>= g) := by
  intro base c d habreast _
  change L.Agree _ (f c.nextType c) (g d.nextType d)
  rw [← habreast.nextType hL]
  exact hf c.nextType base c d habreast rfl

/-- What a test has told stays known until a token is taken. -/
theorem Reads.test {look : Cursor → Bool} {f : Bool → Parser γ} {g : Bool → Parser δ}
    (hlook : L.Shared look) (hf : ∀ b, L.Reads (fun c => φ c ∧ look c = b) W s t (f b) (g b)) :
    L.Reads φ W s t (test look >>= f) (test look >>= g) := by
  intro base c d habreast hφ
  change L.Agree _ (f (look c) c) (g (look d) d)
  rw [← hlook habreast]
  exact hf (look c) base c d habreast ⟨hφ, rfl⟩

/-- A test decides between two ways to go on. -/
theorem Reads.testThen {look : Cursor → Bool} {f f' : Parser γ} {g g' : Parser δ}
    (hlook : L.Shared look) (hf : L.Reads (fun c => φ c ∧ look c = true) W s t f g)
    (hf' : L.Reads (fun c => φ c ∧ look c = false) W s t f' g') :
    L.Reads φ W s t (Parser.test look >>= fun b => if b = true then f else f')
      (Parser.test look >>= fun b => if b = true then g else g') := by
  refine .test hlook fun result => ?_
  cases result with
  | true => exact hf
  | false => exact hf'

/-- Looking whether the next token is of a type decides between two ways to go on. -/
theorem Reads.isNextThen (hL : L.Lawful) {type : TokenType} {f f' : Parser γ} {g g' : Parser δ}
    (hf : L.Reads (fun c => c.nextType = some type) W s t f g)
    (hf' : L.Reads φ W s t f' g') :
    L.Reads φ W s t (isNext type >>= fun b => if b = true then f else f')
      (isNext type >>= fun b => if b = true then g else g') :=
  .testThen (.ofNextType hL fun next => next == some type)
    (fun base c d habreast hφ => hf base c d habreast (eq_of_beq hφ.2))
    (fun base c d habreast hφ => hf' base c d habreast hφ.1)

/-- Takes a token of which something is known, and with it what is known of the next one. -/
theorem Reads.take (hL : L.Lawful) {f : Token → Parser γ} {g : Token → Parser δ}
    (hstep : ∀ c token tokens, φ c → c.ahead = token :: tokens →
      Bracket.step s token.type = some t)
    (hψ : ∀ c, φ c → ψ c.step)
    (hf : ∀ a b, L.token a b → L.Reads ψ W t u (f a) (g b)) :
    L.Reads φ W s u (take >>= f) (take >>= g) := by
  intro base c d habreast hφ
  have hahead := habreast.ahead
  obtain ⟨behind, ahead, depth⟩ := c
  obtain ⟨behind', ahead', depth'⟩ := d
  cases hahead with
  | nil => exact .error (hL.same _) habreast.toBeside
  | @cons a b as bs hab htail =>
      exact hf a b hab base _ _ (habreast.step rfl rfl (hstep _ _ _ hφ rfl)) (hψ _ hφ)

/-- Takes a token that is known to be no bracket. -/
theorem Reads.takePlain (hL : L.Lawful) {f : Token → Parser γ} {g : Token → Parser δ}
    (hplain : ∀ c type, φ c → c.nextType = some type → type.isBracket = false)
    (hf : ∀ a b, L.token a b → L.Moves W s u (f a) (g b)) :
    L.Reads φ W s u (Parser.take >>= f) (Parser.take >>= g) := by
  refine Reads.take hL (ψ := fun _ => True) (fun c token tokens hφ hahead => ?_)
    (fun _ _ => trivial) hf
  have htype : c.nextType = some token.type := Cursor.nextType_of_ahead hahead
  exact Bracket.step_of_not_isBracket (hplain c token.type hφ htype) s

/-- Takes a token whose type is known. -/
theorem Reads.takeOf (hL : L.Lawful) {type : TokenType} {f : Token → Parser γ}
    {g : Token → Parser δ}
    (hnext : ∀ c, φ c → c.nextType = some type) (hstep : Bracket.step s type = some t)
    (hf : ∀ a b, L.token a b → L.Moves W t u (f a) (g b)) :
    L.Reads φ W s u (Parser.take >>= f) (Parser.take >>= g) := by
  refine Reads.take hL (ψ := fun _ => True) (fun c token tokens hφ hahead => ?_)
    (fun _ _ => trivial) hf
  have htype := hnext c hφ
  rw [Cursor.nextType, hahead] at htype
  exact Option.some.inj htype ▸ hstep

/-- Takes two tokens of which something is known, the first of them no bracket. -/
theorem Reads.takeTwo (hL : L.Lawful) {f : Parser γ} {g : Parser δ}
    (hfirst : ∀ c type, φ c → c.nextType = some type → type.isBracket = false)
    (hsecond : ∀ c type, φ c → c.secondType = some type → Bracket.step s type = some t)
    (hf : L.Moves W t u f g) :
    L.Reads φ W s u (Parser.take >>= fun _ => Parser.take >>= fun _ => f)
      (Parser.take >>= fun _ => Parser.take >>= fun _ => g) := by
  refine .take hL (t := s) (ψ := fun c => ∀ type, c.nextType = some type →
    Bracket.step s type = some t) (fun c token tokens hφ hahead => ?_) (fun c hφ => ?_)
    fun _ _ _ => ?_
  · refine Bracket.step_of_not_isBracket (hfirst c token.type hφ ?_) s
    rw [Cursor.nextType, hahead]
    rfl
  · intro type htype
    refine hsecond c type hφ ?_
    obtain ⟨behind, _ | ⟨token, ahead⟩, depth⟩ := c
    · cases htype
    · exact htype
  · refine .take hL (ψ := fun _ => True) (fun c token tokens hnext hahead => ?_)
      (fun _ _ => trivial) fun _ _ _ => hf
    refine hnext token.type ?_
    rw [Cursor.nextType, hahead]
    rfl

/-- Takes the next token if it is of a type. -/
theorem Reads.accept (hL : L.Lawful) {type : TokenType} (hstep : Bracket.step s type = some t)
    {f f' : Parser γ} {g g' : Parser δ} (hf : L.Moves W t u f g) (hf' : L.Reads φ W s u f' g') :
    L.Reads φ W s u (accept type >>= fun b => if b = true then f else f')
      (accept type >>= fun b => if b = true then g else g') := by
  intro base c d habreast hφ
  change L.Agree _ (EStateM.bind (Parser.accept type) _ c) (EStateM.bind (Parser.accept type) _ d)
  unfold EStateM.bind Parser.accept
  rw [← habreast.nextType hL]
  by_cases htype : c.nextType = some type
  · rw [if_pos (by simp [htype]), if_pos (by simp [htype])]
    have hahead := habreast.ahead
    cases hc : c.ahead with
    | nil => simp [Cursor.nextType, hc] at htype
    | cons a as =>
        cases hd : d.ahead with
        | nil =>
            rw [hc, hd] at hahead
            cases hahead
        | cons b bs =>
            have ha : a.type = type := by simpa [Cursor.nextType, hc] using htype
            exact hf base _ _ (habreast.step hc hd (ha ▸ hstep)) trivial
  · rw [if_neg (by simpa using htype), if_neg (by simpa using htype)]
    exact hf' base c d habreast hφ

theorem kept_accept (hL : L.Lawful) {type : TokenType} (hplain : type.isBracket = false) :
    L.Kept Eq (accept type) (accept type) := by
  intro s
  have hstep := Bracket.step_of_not_isBracket hplain s
  have hbranch :
      L.Moves Eq s s (accept type >>= fun b => if b = true then pure true else pure false)
      (accept type >>= fun b => if b = true then pure true else pure false) :=
    .accept hL hstep (.pure rfl) (.pure rfl)
  rwa [bind_ite_pure] at hbranch

theorem kept_acceptKeyword (hL : L.Lawful) {word : Keyword} :
    L.Kept Eq (acceptKeyword word) (acceptKeyword word) :=
  kept_accept hL rfl

theorem kept_isNext (hL : L.Lawful) {type : TokenType} :
    L.Kept Eq (isNext type) (isNext type) := by
  intro s base c d habreast _
  exact .ok ⟨congrArg (· == some type) (habreast.nextType hL), habreast⟩

theorem kept_isNextKeyword (hL : L.Lawful) {word : Keyword} :
    L.Kept Eq (isNextKeyword word) (isNextKeyword word) :=
  kept_isNext hL

theorem kept_acceptWord (hL : L.Lawful) {word : String} :
    L.Kept Eq (acceptWord word) (acceptWord word) := by
  rintro s base ⟨behind, ahead, depth⟩ ⟨behind', ahead', depth'⟩ habreast -
  cases habreast.ahead with
  | nil => exact .ok ⟨rfl, habreast⟩
  | @cons a b as bs hab htail =>
      unfold acceptWord
      dsimp only
      rw [← isThisWord_eq hL hab word]
      by_cases hword : a.isThisWord word = true
      · rw [if_pos hword, if_pos hword]
        have hplain : a.type.isBracket = false := by
          simp only [Token.isThisWord, Bool.and_eq_true] at hword
          revert hword
          cases a.type <;> simp [TokenType.isWord, TokenType.isBracket]
        exact .ok ⟨rfl, habreast.step rfl rfl (Bracket.step_of_not_isBracket hplain s)⟩
      · rw [if_neg hword, if_neg hword]
        exact .ok ⟨rfl, habreast⟩

/-- Takes the next token, which has to be of a type. -/
theorem moves_expect (hL : L.Lawful) {type : TokenType} (hstep : Bracket.step s type = some t) :
    L.Moves L.token s t (expect type) (expect type) := by
  rintro base ⟨behind, ahead, depth⟩ ⟨behind', ahead', depth'⟩ habreast -
  have hfound := habreast.found hL
  have hcause : LikeCause L (.expected (.token type) _) (.expected (.token type) _) :=
    .expected hfound
  have hrefused := hL.refused habreast.toBeside hcause
  cases habreast.ahead with
  | nil => exact .error hrefused habreast.toBeside
  | @cons a b as bs hab htail =>
      unfold expect
      dsimp only
      rw [← hL.type hab]
      by_cases ha : a.type = type
      · rw [if_pos ha, if_pos ha]
        exact .ok ⟨hab, habreast.step rfl rfl (ha ▸ hstep)⟩
      · rw [if_neg ha, if_neg ha]
        exact .error hrefused habreast.toBeside

theorem kept_expectKeyword (hL : L.Lawful) {word : Keyword} :
    L.Kept L.token (expectKeyword word) (expectKeyword word) :=
  fun _ => moves_expect hL rfl

/-! ## Repeating -/

/-- Turns of a loop that leave like values and agree whether the loop goes on. -/
inductive Turns (V : α → β → Prop) : Turn α → Turn β → Prop where
  | again {a : α} {b : β} (h : V a b) : Turns V (.again a) (.again b)
  | done {a : α} {b : β} (h : V a b) : Turns V (.done a) (.done b)

theorem Kept.loop {turn : α → Parser (Turn α)} {turn' : β → Parser (Turn β)}
    (hturn : ∀ a b, V a b → L.Kept (Turns V) (turn a) (turn' b)) {a : α} {b : β} (hab : V a b) :
    L.Kept V (loop turn a) (loop turn' b) := by
  have hover : ∀ {xs ys : List Token}, xs.length = ys.length → ∀ {a b}, V a b →
      L.Kept V (loopOver turn xs a) (loopOver turn' ys b) := by
    intro xs
    induction xs with
    | nil =>
        intro ys hlength a b hab s
        obtain rfl := List.length_eq_zero_iff.1 hlength.symm
        rw [loopOver_nil, loopOver_nil]
        refine (hturn a b hab s).bind fun t t' ht => ?_
        cases ht with
        | again hab' => exact .pure hab'
        | done hab' => exact .pure hab'
    | cons x xs ih =>
        intro ys hlength a b hab s
        obtain ⟨y, ys, rfl⟩ := List.exists_cons_of_length_eq_add_one hlength.symm
        rw [loopOver_cons, loopOver_cons]
        refine (hturn a b hab s).bind fun t t' ht => ?_
        cases ht with
        | again hab' => exact ih (Nat.succ.inj hlength) hab' s
        | done hab' => exact .pure hab'
  intro s base c d habreast
  exact hover habreast.ahead.length_eq hab s base c d habreast

/-- What is left of two caps on the items of a construct: as much of one cap, unless running out
parts the readings. -/
def Counts (L : Likeness) (construct : Construct) (cap cap' n n' : Nat) : Prop :=
  (cap = cap' ∧ n = n') ∨ ∀ cap, L.parts (.statement (.tooManyIterations construct cap))

theorem Lawful.counts (hL : L.Lawful) (construct : Construct) :
    L.Counts construct L.first.maxIterations L.second.maxIterations L.first.maxIterations
      L.second.maxIterations :=
  hL.maxIterations.imp (fun hcap => ⟨hcap, hcap⟩) fun hparts => hparts construct

namespace Counts

variable {construct : Construct} {cap cap' n n' : Nat}

theorem pred (h : L.Counts construct cap cap' (n + 1) (n' + 1)) :
    L.Counts construct cap cap' n n' :=
  h.imp_left fun ⟨hcap, hn⟩ => ⟨hcap, Nat.succ.inj hn⟩

/-- Both caps are met. -/
theorem throwBoth (hL : L.Lawful) (h : L.Counts construct cap cap' 0 0) :
    L.Reads φ V s t (throw (.statement (.tooManyIterations construct cap)) : Parser α)
      (throw (.statement (.tooManyIterations construct cap')) : Parser β) := by
  rcases h with ⟨rfl, -⟩ | hparts
  · exact .throw (hL.same _)
  · exact .throwFirst (hparts cap)

theorem throwFirst (h : L.Counts construct cap cap' 0 (n' + 1)) {q : Parser β} :
    L.Reads φ V s t (throw (.statement (.tooManyIterations construct cap)) : Parser α) q := by
  rcases h with ⟨-, hn⟩ | hparts
  · cases hn
  · exact .throwFirst (hparts cap)

theorem throwSecond (h : L.Counts construct cap cap' (n + 1) 0) {p : Parser α} :
    L.Reads φ V s t p (throw (.statement (.tooManyIterations construct cap')) : Parser β) := by
  rcases h with ⟨-, hn⟩ | hparts
  · cases hn
  · exact .throwSecond (hparts cap')

end Counts

theorem kept_commaListFrom [Relabels α] (hL : L.Lawful) {construct : Construct}
    {cap cap' n n' : Nat} (hcounts : L.Counts construct cap cap' n n') {item item' : Parser α}
    (hitem : L.Kept L.Like item item') {done done' : List α} (hdone : L.Like done done') :
    L.Kept L.Like (commaListFrom construct cap item n done)
      (commaListFrom construct cap' item' n' done') := by
  induction n generalizing n' done done' with
  | zero =>
      cases n' with
      | zero => exact fun _ => hcounts.throwBoth hL
      | succ n' => exact fun _ => hcounts.throwFirst
  | succ n ih =>
      cases n' with
      | zero => exact fun _ => hcounts.throwSecond
      | succ n' =>
          intro s
          refine (hitem s).bind fun a b hab => ?_
          have hnext : L.Like (a :: done) (b :: done') := .cons hab hdone
          exact .branch (kept_accept hL rfl s) (ih hcounts.pred hnext s) (.pure hnext.reverse)

theorem kept_afterKeyword [Relabels α] (hL : L.Lawful) {word : Keyword} {p q : Parser α}
    (hp : L.Kept L.Like p q) : L.Kept L.Like (afterKeyword word p) (afterKeyword word q) :=
  fun s => .branch (kept_acceptKeyword hL s) ((hp s).map fun _ _ => .some) (.pure .none)

/-- Going one nesting level further down on both sides. -/
theorem Kept.nested {p : Parser α} {q : Parser β} (hp : L.Kept V p q) :
    L.Kept V (nested p) (nested q) := by
  intro s base c d habreast _
  obtain ⟨tokens, hpasses, hafter⟩ := habreast.passed
  have hdown : L.Abreast { base with depth := base.depth + 1 } s
      { c with depth := c.depth + 1 } { d with depth := d.depth + 1 } :=
    ⟨⟨habreast.behind, habreast.ahead, congrArg (· + 1) habreast.depth⟩, habreast.linked, tokens,
      ⟨hpasses.ahead, hpasses.behind, congrArg (· + 1) hpasses.depth⟩, hafter⟩
  have hagree := hp s _ _ _ hdown trivial
  unfold Parser.nested
  generalize p { c with depth := c.depth + 1 } = x, q { d with depth := d.depth + 1 } = y at hagree
  cases hagree with
  | ok h =>
      obtain ⟨hab, ⟨hbehind, hahead, hdepth⟩, hlinked, tokens', hpasses', hafter'⟩ := h
      refine .ok ⟨hab, ⟨hbehind, hahead, congrArg (· - 1) hdepth⟩, hlinked, tokens', ?_, hafter'⟩
      exact ⟨hpasses'.ahead, hpasses'.behind, congrArg (· - 1) hpasses'.depth⟩
  | error h hbeside =>
      exact .error h ⟨hbeside.behind, hbeside.ahead, congrArg (· - 1) hbeside.depth⟩
  | first h => exact .first h
  | second h => exact .second h

/-! ## Levels -/

/-- Levels that read with the settings of a likeness, and whose productions keep to it. -/
structure Levels (L : Likeness) (g g' : Level) : Prop where
  lawful : L.Lawful
  settings : g.settings = L.first
  settings' : g'.settings = L.second
  below : ∀ production, L.Kept L.Like (g.below production) (g'.below production)

namespace Levels

variable {g g' : Level}

theorem tag (h : L.Levels g g') : L.Like g.tag g'.tag := by
  rw [Level.tag, Level.tag, h.settings, h.settings']
  exact h.lawful.tag

theorem counts (h : L.Levels g g') {construct : Construct} :
    L.Counts construct g.settings.maxIterations g'.settings.maxIterations
      g.settings.maxIterations g'.settings.maxIterations := by
  rw [h.settings, h.settings']
  exact h.lawful.counts construct

theorem commaList [Relabels α] (h : L.Levels g g') {construct : Construct} {item item' : Parser α}
    (hitem : L.Kept L.Like item item') :
    L.Kept L.Like (g.commaList construct item) (g'.commaList construct item') :=
  kept_commaListFrom h.lawful h.counts hitem .nil

theorem binary (h : L.Levels g g') {left left' right right' : Expr} {op : BinaryOp}
    (hleft : L.Like left left') (hright : L.Like right right') :
    L.Like (g.binary left op right) (g'.binary left' op right') :=
  .binary hleft hright h.tag

theorem number (h : L.Levels g g') {text text' : String} (htext : L.Like text text') :
    L.Like (g.number text) (g'.number text') :=
  .number htext h.tag

theorem bool (h : L.Levels g g') {value : Bool} : L.Like (g.bool value) (g'.bool value) :=
  .bool h.tag

theorem null (h : L.Levels g g') : L.Like g.null g'.null :=
  .null h.tag

theorem subquery (h : L.Levels g g') {query query' : Expr} (hquery : L.Like query query') :
    L.Like (g.subquery query) (g'.subquery query') :=
  .select hquery .none h.tag

end Levels

end Likeness

end SqlTree

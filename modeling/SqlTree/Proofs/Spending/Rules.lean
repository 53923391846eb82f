import SqlTree.Grammar.Statement
import SqlTree.Proofs.Brackets
import SqlTree.Proofs.Run

/-!
# What a reading spends

However a reading ends, it has moved over some tokens and left the nesting level as it was.
Tokens are spent on the way, and they pay for what the caps limit: as long as a nesting level or
an item of a list costs a token, caps above the number of tokens are never met.  A parser is
followed from a place at which a number of tokens have been spent to one at which more have been
(`Parser.Spends`); the errors that it may meet are bounded by an `Allowance` of tokens.  Here are
the rules for the parts that every rule of the grammar is made of.
-/

namespace SqlTree

/-- A comparison of counts that their form decides, so that instance search finds it. -/
class AtMost (n k : Nat) : Prop where
  le : n ≤ k

namespace AtMost

variable {n k m : Nat}

instance refl : AtMost n n := ⟨Nat.le_refl n⟩

instance zero : AtMost 0 k := ⟨Nat.zero_le k⟩

instance add [h : AtMost n k] : AtMost n (k + m) := ⟨Nat.le_add_right_of_le h.le⟩

instance succ_succ [h : AtMost n k] : AtMost (n + 1) (k + 1) := ⟨Nat.succ_le_succ h.le⟩

end AtMost

/-- How many tokens there may be so that a cap cannot be met. -/
structure Allowance where
  /-- The nesting level that is read on. -/
  depth : Nat
  /-- For so many tokens the nesting levels below suffice. -/
  levels : Nat
  /-- For so many tokens the cap on the items of a list suffices. -/
  items : Nat

/-- An error that can be met where there are a number of tokens: no broken promise but that of a
query before which no queries can be named, and no cap that the allowance rules out. -/
structure Error.Within (a : Allowance) (tokens : Nat) (e : Error) : Prop where
  internal : ∀ cause, e = .internal cause → ∃ kind, cause = .withOn kind
  levels : tokens ≤ a.levels → ∀ cap, e ≠ .statement (.tooDeep cap)
  items : tokens ≤ a.items → ∀ construct cap, e ≠ .statement (.tooManyIterations construct cap)

/-- An error that has nothing to do with caps and promises. -/
theorem Error.Within.plain {a : Allowance} {tokens : Nat} {e : Error}
    (hinternal : ∀ cause, e ≠ .internal cause) (hdeep : ∀ cap, e ≠ .statement (.tooDeep cap))
    (hmany : ∀ construct cap, e ≠ .statement (.tooManyIterations construct cap)) :
    e.Within a tokens :=
  ⟨fun cause h => (hinternal cause h).elim, fun _ => hdeep, fun _ => hmany⟩

theorem Error.Within.mono {a : Allowance} {n m : Nat} {e : Error} (h : e.Within a n) (hle : n ≤ m) :
    e.Within a m :=
  ⟨h.internal, fun hm => h.levels (Nat.le_trans hle hm), fun hm => h.items (Nat.le_trans hle hm)⟩

namespace Parser

variable {α β : Type}

/-- A result of reading from `c`, where `k` tokens have been spent before and at least `n` have been
where it is a value. -/
inductive Ends (a : Allowance) (c : Cursor) (k n : Nat) : EStateM.Result Error Cursor α → Prop where
  | ok {x : α} {d : Cursor} {tokens : List Token} (passes : c.Passes tokens d)
      (spent : n ≤ k + tokens.length) : Ends a c k n (.ok x d)
  | error {e : Error} {d : Cursor} {tokens : List Token} (passes : c.Passes tokens d)
      (within : e.Within a (c.ahead.length + k)) : Ends a c k n (.error e d)

/-- From where `φ` holds and `k` tokens have been spent the parser ends in order, with at least `n`
tokens spent where it gives a value. -/
def Spends (a : Allowance) (φ : Cursor → Prop) (k n : Nat) (p : Parser α) : Prop :=
  ∀ c, φ c → c.depth = a.depth → Ends a c k n (p c)

variable {a : Allowance} {φ ψ : Cursor → Prop} {k m n : Nat} {p : Parser α} {f : α → Parser β}
  {c d : Cursor}

namespace Ends

variable {r : EStateM.Result Error Cursor α}

/-- What starts further on is part of what started before. -/
theorem further {tokens : List Token} (hpasses : c.Passes tokens d)
    (h : Ends a d (k + tokens.length) n r) : Ends a c k n r := by
  have hlength := hpasses.length_ahead
  cases h with
  | ok hpasses' hspent =>
      refine .ok (hpasses.trans hpasses') ?_
      rwa [List.length_append, ← Nat.add_assoc]
  | error hpasses' hwithin =>
      exact .error (hpasses.trans hpasses') (hwithin.mono (by omega))

/-- More tokens may have been spent before. -/
theorem later (h : Ends a c k n r) (hle : k ≤ m) : Ends a c m n r := by
  cases h with
  | ok hpasses hspent => exact .ok hpasses (by omega)
  | error hpasses hwithin => exact .error hpasses (hwithin.mono (by omega))

/-- Fewer tokens may be counted. -/
theorem less (h : Ends a c k m r) (hle : n ≤ m) : Ends a c k n r := by
  cases h with
  | ok hpasses hspent => exact .ok hpasses (Nat.le_trans hle hspent)
  | error hpasses hwithin => exact .error hpasses hwithin

/-- One parser after another, where the second one may use what the first one has spent. -/
theorem bind (hp : Ends a c k m (p c))
    (hf : ∀ x d tokens, c.Passes tokens d → m ≤ k + tokens.length →
      Ends a d (k + tokens.length) n (f x d)) :
    Ends a c k n ((p >>= f) c) := by
  change Ends a c k n (EStateM.bind p f c)
  unfold EStateM.bind
  generalize p c = r at hp
  cases hp with
  | ok hpasses hspent => exact (hf _ _ _ hpasses hspent).further hpasses
  | error hpasses hwithin => exact .error hpasses hwithin

end Ends

namespace Spends

theorem mono (h : Spends a φ k n p) (hφ : ∀ c, ψ c → φ c) : Spends a ψ k n p :=
  fun c hc => h c (hφ c hc)

/-- What was known of the place need not be used. -/
theorem anywhere (h : Spends a (fun _ => True) k n p) : Spends a φ k n p :=
  h.mono fun _ _ => trivial

/-- What a parser does from a place on the right level. -/
theorem ends (h : Spends a (fun _ => True) k n p) (hdepth : c.depth = a.depth) :
    Ends a c k n (p c) :=
  h c trivial hdepth

/-- Fewer tokens may be counted. -/
theorem less (h : Spends a φ k m p) [AtMost n m] : Spends a φ k n p :=
  fun c hc hdepth => (h c hc hdepth).less AtMost.le

/-- More tokens may have been spent before. -/
theorem later (h : Spends a φ k n p) [AtMost k m] : Spends a φ m n p :=
  fun c hc hdepth => (h c hc hdepth).later AtMost.le

theorem pure {x : α} [AtMost n k] : Spends a φ k n (pure x) :=
  fun c _ _ => .ok (.refl c) AtMost.le

theorem bind (hp : Spends a φ k m p) (hf : ∀ x, Spends a (fun _ => True) m n (f x)) :
    Spends a φ k n (p >>= f) :=
  fun c hc hdepth => (hp c hc hdepth).bind fun x _ _ hpasses hspent =>
    ((hf x).ends (hpasses.depth.trans hdepth)).later hspent

theorem map {g : α → β} (hp : Spends a φ k n p) : Spends a φ k n (g <$> p) := by
  rw [← bind_pure_comp]
  exact hp.bind fun _ => pure

/-- What is read is put into a value. -/
theorem returns {g : α → β} (hp : Spends a φ k m p) [AtMost n m] :
    Spends a φ k n (p >>= fun x => Pure.pure (g x)) :=
  hp.bind fun _ => pure

/-! ## Refusing -/

/-- Where no levels are left, fewer tokens have been spent. -/
theorem tooDeep {cap : Nat} (hlevels : a.levels < k) :
    Spends a φ k n (throw (.statement (.tooDeep cap)) : Parser α) := by
  refine fun c _ _ => .error (.refl c) ⟨fun _ => nofun, fun hle => ?_, fun _ _ => nofun⟩
  omega

theorem throw {e : Error} (hwithin : ∀ tokens, e.Within a tokens) :
    Spends a φ k n (throw e : Parser α) :=
  fun c _ _ => .error (.refl c) (hwithin _)

theorem refuse {cause : GrammarCause} : Spends a φ k n (refuse cause : Parser α) :=
  fun c _ _ => .error (.refl c) (.plain (fun _ => nofun) (fun _ => nofun) fun _ _ => nofun)

theorem refuseFor {wanted : Wanted} : Spends a φ k n (refuseFor wanted : Parser α) :=
  fun c _ _ => .error (.refl c) (.plain (fun _ => nofun) (fun _ => nofun) fun _ _ => nofun)

theorem refuseFound {cause : Found → GrammarCause} :
    Spends a φ k n (refuseFound cause : Parser α) :=
  fun c _ _ => .error (.refl c) (.plain (fun _ => nofun) (fun _ => nofun) fun _ _ => nofun)

/-! ## Looking ahead -/

/-- Either of two ways to go on. -/
theorem branch {p : Parser Bool} {f g : Parser β} (hp : Spends a φ k m p)
    (hf : Spends a (fun _ => True) m n f) (hg : Spends a (fun _ => True) m n g) :
    Spends a φ k n (p >>= fun b => if b = true then f else g) := by
  refine hp.bind fun b => ?_
  cases b with
  | true => exact hf
  | false => exact hg

/-- What a test has told stays known until a token is taken. -/
theorem testThen {look : Cursor → Bool} {f g : Parser β}
    (hf : Spends a (fun c => φ c ∧ look c = true) k n f) (hg : Spends a φ k n g) :
    Spends a φ k n (test look >>= fun b => if b = true then f else g) := by
  intro c hc hdepth
  change Ends a c k n ((if look c = true then f else g) c)
  split
  case isTrue hlook => exact hf c ⟨hc, hlook⟩ hdepth
  case isFalse => exact hg c hc hdepth

theorem isNextThen {type : TokenType} {f g : Parser β}
    (hf : Spends a (fun c => c.nextType = some type) k n f) (hg : Spends a φ k n g) :
    Spends a φ k n (isNext type >>= fun b => if b = true then f else g) :=
  .testThen (hf.mono fun _ hc => eq_of_beq hc.2) hg

/-- What the next type is stays known until a token is taken. -/
theorem peekType {f : Option TokenType → Parser β}
    (hf : ∀ next, Spends a (fun c => c.nextType = next) k n (f next)) :
    Spends a φ k n (peekType >>= f) :=
  fun c _ hdepth => hf c.nextType c rfl hdepth

/-! ## Taking tokens -/

/-- Taking a token spends it. -/
theorem step {token : Token} {tokens : List Token} (hahead : c.ahead = token :: tokens)
    (hdepth : c.depth = a.depth) (h : Spends a (fun _ => True) (k + 1) n p) :
    Ends a c k n (p c.step) :=
  have hpasses := Cursor.Passes.step hahead
  Ends.further hpasses (h.ends (hpasses.depth.trans hdepth))

/-- Takes the next token where there is one. -/
theorem take {f : Token → Parser β} (hnext : ∀ c, φ c → c.ahead ≠ [])
    (hf : ∀ token, Spends a (fun _ => True) (k + 1) n (f token)) :
    Spends a φ k n (take >>= f) := by
  intro c hc hdepth
  obtain ⟨token, tokens, hahead⟩ := List.exists_cons_of_ne_nil (hnext c hc)
  rw [bind_of_ok (take_of_ahead hahead)]
  exact (hf token).step hahead hdepth

/-- Takes the next token, whose type is known. -/
theorem takeOf {type : TokenType} {f : Token → Parser β}
    (hf : ∀ token, Spends a (fun _ => True) (k + 1) n (f token)) :
    Spends a (fun c => c.nextType = some type) k n (Parser.take >>= f) := by
  refine take (fun c hc hnil => ?_) hf
  rw [Cursor.nextType, hnil] at hc
  cases hc

/-- Takes the next token after a look at it that would have failed at the end. -/
theorem takeIf {look : Cursor → Bool} {f : Token → Parser β} {g : Parser β}
    (hlook : ∀ behind depth, look ⟨behind, [], depth⟩ = false)
    (hf : ∀ token, Spends a (fun _ => True) (k + 1) n (f token)) (hg : Spends a φ k n g) :
    Spends a φ k n (test look >>= fun b => if b = true then Parser.take >>= f else g) := by
  refine testThen (take (fun c hc hnil => ?_) hf) hg
  obtain ⟨behind, ahead, depth⟩ := c
  rw [show ahead = [] from hnil, hlook] at hc
  exact Bool.false_ne_true hc.2

/-- Takes the next two tokens where there are two. -/
theorem takeTwo {f : Parser β} (hnext : ∀ c, φ c → 2 ≤ c.ahead.length)
    (hf : Spends a (fun _ => True) (k + 1 + 1) n f) :
    Spends a φ k n (Parser.take >>= fun _ => Parser.take >>= fun _ => f) := by
  intro c hc hdepth
  obtain ⟨behind, _ | ⟨first, _ | ⟨second, ahead⟩⟩, depth⟩ := c
  · exact absurd (hnext _ hc) (by simp)
  · exact absurd (hnext _ hc) (by simp)
  · rw [bind_of_ok (take_of_ahead rfl), bind_of_ok (take_of_ahead rfl)]
    have hpasses := (Cursor.Passes.step (c := ⟨behind, first :: second :: ahead, depth⟩) rfl).trans
      (Cursor.Passes.step rfl)
    exact Ends.further hpasses (hf.ends (hpasses.depth.trans hdepth))

/-- Takes the next token if it is of a type. -/
theorem acceptThen {type : TokenType} {f g : Parser β}
    (hf : Spends a (fun _ => True) (k + 1) n f) (hg : Spends a φ k n g) :
    Spends a φ k n (accept type >>= fun b => if b = true then f else g) := by
  intro c hc hdepth
  by_cases hnext : c.nextType = some type
  · obtain ⟨token, tokens, hahead, -⟩ := Cursor.exists_ahead_of_nextType hnext
    rw [branch_of_true (accept_of_next hnext)]
    exact hf.step hahead hdepth
  · rw [branch_of_false (accept_of_not_next hnext)]
    exact hg c hc hdepth

theorem accept {type : TokenType} : Spends a φ k k (accept type) := by
  have hthen : Spends a φ k k (Parser.accept type >>= fun b =>
      if b = true then Pure.pure true else Pure.pure false) := acceptThen pure pure
  rwa [bind_ite_pure] at hthen

/-- Takes the next token if it is a plain word. -/
theorem acceptWordThen {word : String} {f g : Parser β}
    (hf : Spends a (fun _ => True) (k + 1) n f) (hg : Spends a φ k n g) :
    Spends a φ k n (acceptWord word >>= fun b => if b = true then f else g) := by
  intro c hc hdepth
  cases hahead : c.ahead with
  | nil =>
      have hword : acceptWord word c = .ok false c := by rw [acceptWord, hahead]
      rw [branch_of_false hword]
      exact hg c hc hdepth
  | cons token tokens =>
      by_cases hthis : token.isThisWord word = true
      · have hword : acceptWord word c = .ok true c.step := by
          rw [acceptWord, hahead]
          exact if_pos hthis
        rw [branch_of_true hword]
        exact hf.step hahead hdepth
      · have hword : acceptWord word c = .ok false c := by
          rw [acceptWord, hahead]
          exact if_neg hthis
        rw [branch_of_false hword]
        exact hg c hc hdepth

theorem acceptWord {word : String} : Spends a φ k k (acceptWord word) := by
  have hthen : Spends a φ k k (Parser.acceptWord word >>= fun b =>
      if b = true then Pure.pure true else Pure.pure false) := acceptWordThen pure pure
  rwa [bind_ite_pure] at hthen

theorem isNext {type : TokenType} : Spends a φ k k (isNext type) :=
  fun c _ _ => .ok (.refl c) (Nat.le_refl _)

theorem expect {type : TokenType} : Spends a φ k (k + 1) (expect type) := by
  rintro ⟨behind, _ | ⟨token, ahead⟩, depth⟩ - hdepth
  · exact refuseFor.ends hdepth
  · by_cases htype : token.type = type
    · have hread : Parser.expect type ⟨behind, token :: ahead, depth⟩ = .ok token _ :=
        expect_eq_ok.2 ⟨ahead, rfl, htype, rfl⟩
      rw [hread]
      exact .ok (.step rfl) (Nat.le_refl _)
    · have hread : Parser.expect type ⟨behind, token :: ahead, depth⟩ =
          Parser.refuseFor (.token type) ⟨behind, token :: ahead, depth⟩ := if_neg htype
      rw [hread]
      exact refuseFor.ends hdepth

/-- Reads something if a keyword stands before it. -/
theorem afterKeyword {word : Keyword} (hp : Spends a (fun _ => True) (k + 1) n p) [AtMost k n] :
    Spends a φ k k (afterKeyword word p) :=
  acceptThen hp.map.less pure

/-! ## Repeating -/

/-- A loop spends what its turns do. -/
theorem loop {turn : α → Parser (Turn α)} (hturn : ∀ x, Spends a (fun _ => True) k k (turn x))
    {x : α} : Spends a φ k k (loop turn x) := by
  have hover : ∀ tokens x, Spends a (fun _ => True) k k (loopOver turn tokens x) :=
    loopOver_induction (J := fun _ => Spends a (fun _ => True) k k) (fun _ => pure)
      fun x _ hgoOn => (hturn x).bind hgoOn
  exact fun c _ => hover c.ahead x c trivial

/-- Items pay for themselves: as long as fewer tokens are left than items may follow, the cap on the
items is not met. -/
theorem commaListFrom {construct : Construct} {cap items i : Nat} {done : List α}
    (hitem : Spends a (fun _ => True) k (k + 1) p) (hdepth : c.depth = a.depth) (hle : k ≤ i)
    (hroom : c.ahead.length + i ≤ a.items → c.ahead.length < items) :
    Ends a c i (k + 1) (commaListFrom construct cap p items done c) := by
  induction items generalizing c i done with
  | zero =>
      refine .error (.refl c) ⟨fun _ => nofun, fun _ _ => nofun, fun hle => ?_⟩
      exact absurd (hroom hle) (Nat.not_lt_zero _)
  | succ items ih =>
      unfold Parser.commaListFrom
      refine Ends.bind ((hitem.ends hdepth).later hle) fun x d tokens hpasses hspent => ?_
      have hlength := hpasses.length_ahead
      have hdepth' := hpasses.depth.trans hdepth
      by_cases hcomma : d.nextType = some .comma
      · obtain ⟨token, rest, hahead, -⟩ := Cursor.exists_ahead_of_nextType hcomma
        rw [branch_of_true (accept_of_next hcomma)]
        have hstep := Cursor.Passes.step hahead
        have hshorter := hstep.length_ahead
        refine Ends.further hstep (ih (hstep.depth.trans hdepth') ?_ fun hroom' => ?_)
        · omega
        · simp only [List.length_singleton] at hshorter hroom'
          have hspare := hroom (by omega)
          omega
      · rw [branch_of_false (accept_of_not_next hcomma)]
        exact .ok (.refl d) hspent

/-- A list of items that each take a token. -/
theorem commaList {construct : Construct} {cap : Nat} (hitem : Spends a (fun _ => True) k (k + 1) p)
    (hroom : a.items < cap + k) : Spends a φ k (k + 1) (commaList construct cap p) :=
  fun _ _ hdepth => commaListFrom hitem hdepth (Nat.le_refl k) fun _ => by omega

/-! ## Nesting levels -/

/-- One nesting level further down there is one level less, which a token has paid for. -/
theorem nested (hp : Spends ⟨a.depth + 1, a.levels - 1, a.items - 1⟩ (fun _ => True) k n p) :
    Spends a φ (k + 1) (n + 1) (nested p) := by
  intro c _ hdepth
  have hends := hp { c with depth := c.depth + 1 } trivial (congrArg (· + 1) hdepth)
  unfold Parser.nested
  generalize p { c with depth := c.depth + 1 } = r at hends
  have hback : ∀ {d : Cursor} {tokens : List Token},
      Cursor.Passes { c with depth := c.depth + 1 } tokens d →
        c.Passes tokens { d with depth := d.depth - 1 } :=
    fun hpasses => ⟨hpasses.ahead, hpasses.behind, congrArg (· - 1) hpasses.depth⟩
  cases hends with
  | ok hpasses hspent => exact .ok (hback hpasses) (by omega)
  | error hpasses hwithin =>
      have hmore : c.ahead.length + (k + 1) = c.ahead.length + k + 1 := rfl
      refine .error (hback hpasses) ⟨hwithin.internal, fun hle => ?_, fun hle => ?_⟩
      · exact hwithin.levels (Nat.le_sub_of_add_le (hmore ▸ hle))
      · exact hwithin.items (Nat.le_sub_of_add_le (hmore ▸ hle))

end Spends

end Parser

open SqlTree.Parser

/-! ## Levels -/

/-- How many tokens have been spent where a production is read.  An operand, and thus a negation
too, can start with the token that its level starts with; a second negation cannot. -/
abbrev Production.cost : Production → Nat
  | .negation => 2
  | .query | .source | .operand | .intervalValue => 1

theorem Production.cost_pos (production : Production) : 1 ≤ production.cost := by
  cases production <;> decide

/-- A level that keeps to an allowance. -/
structure Level.KeepsTo (g : Level) (a : Allowance) : Prop where
  below : ∀ production {k : Nat} [AtMost production.cost k],
    Spends a (fun _ => True) k (k + 1) (g.below production)
  items : a.items ≤ g.settings.maxIterations + 1

end SqlTree

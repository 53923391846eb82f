import SqlTree.Grammar.Level
import SqlTree.Proofs.Brackets
import SqlTree.Proofs.Outcome
import SqlTree.Proofs.Payload.Field

/-!
# Keeping an account of the payload

Between two places of a cursor an account is kept: some fields keep the payload of the tokens that
were passed.  A parser adds to the account when it leads from the fields before it to those after
it, and it keeps its own payload when it leads from none to the fields of its value.  Here are the
rules for the parts that every rule of the grammar is made of.

Accounts are kept for tokens in which no collation is followed by another one, with nothing but
closing parentheses between the two: there the second one replaces the first.
-/

namespace SqlTree

/-- Somewhere a collation follows the name of another one, maybe after closing parentheses. -/
def RepeatsCollation (tokens : List Token) : Prop :=
  ∃ before first name closing second after,
    tokens = before ++ first :: name :: (closing ++ second :: after) ∧
      first.type = .keyword .COLLATE ∧ (∀ token ∈ closing, token.type = .rparen) ∧
      second.type = .keyword .COLLATE

/-- A plain word is no payload. -/
theorem Token.not_isPayload_of_isThisWord {token : Token} {word : String}
    (hword : token.isThisWord word = true) : token.type.isPayload = false := by
  simp only [Token.isThisWord, Bool.and_eq_true] at hword
  revert hword
  cases token.type <;> simp [TokenType.isWord, TokenType.isPayload]

namespace Cursor

/-- The cursor is behind `base`, and the fields keep the payload of the tokens between the two. -/
def Account (base : Cursor) (fields : Multiset Field) (c : Cursor) : Prop :=
  ¬RepeatsCollation c.tokens ∧ ∃ tokens, base.Passes tokens c ∧ Kept fields (payload tokens)

namespace Account

variable {base c d : Cursor} {fields more : Multiset Field}

theorem start (hrepeats : ¬RepeatsCollation c.tokens) : c.Account 0 c :=
  ⟨hrepeats, [], .refl c, .zero⟩

/-- Two accounts are one, if the second starts where the first ends. -/
theorem trans (h : base.Account fields c) (hmore : c.Account more d) :
    base.Account (fields + more) d := by
  obtain ⟨-, tokens, hpasses, hkept⟩ := h
  obtain ⟨hrepeats, others, hpasses', hkept'⟩ := hmore
  refine ⟨hrepeats, tokens ++ others, hpasses.trans hpasses', ?_⟩
  rw [payload_append]
  exact hkept.add hkept'

/-- A step adds fields that keep the next token. -/
theorem step {token : Token} {tokens : List Token} (h : base.Account fields c)
    (hahead : c.ahead = token :: tokens) (hkept : Kept more (payload [token])) :
    base.Account (fields + more) c.step := by
  have hpasses := Passes.step hahead
  refine h.trans ⟨?_, [token], hpasses, hkept⟩
  rw [hpasses.tokens_eq]
  exact h.1

/-- A step over a token that is no payload adds nothing. -/
theorem stepPlain {token : Token} {tokens : List Token} (h : base.Account fields c)
    (hahead : c.ahead = token :: tokens) (hplain : token.type.isPayload = false) :
    base.Account fields c.step := by
  have hstep := h.step hahead (kept_plain hplain)
  rwa [add_zero] at hstep

/-- An account of a deeper nesting level counts when that level is closed. -/
theorem up (h : ({ c with depth := c.depth + 1 } : Cursor).Account fields d) :
    c.Account fields { d with depth := d.depth - 1 } := by
  obtain ⟨hrepeats, tokens, hpasses, hkept⟩ := h
  exact ⟨hrepeats, tokens, ⟨hpasses.ahead, hpasses.behind, congrArg (· - 1) hpasses.depth⟩, hkept⟩

end Account

end Cursor

namespace Parser

open Cursor (Account)

variable {α β γ : Type} {φ ψ : Cursor → Prop} {F : α → Multiset Field} {G : β → Multiset Field}
  {R : Multiset Field} {p : Parser α} {f : α → Parser β}

/-- From where `φ` holds, the parser leads from an account of `R` to one of the fields `F` of its
value. -/
def Adds (φ : Cursor → Prop) (R : Multiset Field) (p : Parser α) (F : α → Multiset Field) : Prop :=
  ∀ base, Leads (fun c => Account base R c ∧ φ c) p fun a c => Account base (F a) c

/-- From anywhere, the parser leads from an account of `R` to one of the fields `F` of its value. -/
abbrev Grows (R : Multiset Field) (p : Parser α) (F : α → Multiset Field) : Prop :=
  Adds (fun _ => True) R p F

/-- The fields of the value of the parser keep the payload that it passes. -/
abbrev Keeps (F : α → Multiset Field) (p : Parser α) : Prop :=
  Grows 0 p F

/-- The parser passes no payload. -/
abbrev Skips (p : Parser α) : Prop :=
  Keeps (fun _ => 0) p

namespace Adds

theorem mono (h : Adds φ R p F) (hφ : ∀ c, ψ c → φ c) : Adds ψ R p F :=
  fun base => (h base).mono (fun c hc => ⟨hc.1, hφ c hc.2⟩) fun _ _ => id

/-- What was known of the place need not be used. -/
theorem anywhere (h : Grows R p F) : Adds φ R p F :=
  h.mono fun _ _ => trivial

/-- The fields to start from may be put together in another way. -/
theorem ofEq {R' : Multiset Field} (h : Adds φ R' p F) (hR : R' = R) : Adds φ R p F :=
  hR ▸ h

theorem pure {a : α} (h : F a = R) : Adds φ R (pure a) F :=
  fun _ => Leads.pure fun _ hc => h ▸ hc.1

theorem bind (hp : Adds φ R p F) (hf : ∀ a, Grows (F a) (f a) G) :
    Adds φ R (p >>= f) G :=
  fun base => (hp base).bind fun a =>
    (hf a base).mono (fun _ hc => ⟨hc, trivial⟩) fun _ _ => id

/-- A turn of a loop that goes on with what it reads. -/
theorem again (hp : Adds φ R p F) :
    Adds φ R (p >>= fun a => Pure.pure (Turn.again a)) fun t => F t.value :=
  hp.bind fun _ => pure rfl

/-- A turn of a loop that ends it with what it reads. -/
theorem last (hp : Adds φ R p F) :
    Adds φ R (p >>= fun a => Pure.pure (Turn.done a)) fun t => F t.value :=
  hp.bind fun _ => pure rfl

/-- What a parser keeps comes on top of any account. -/
theorem frame (hp : Adds φ 0 p F) : Adds φ R p fun a => R + F a := by
  intro base c a d hc ha
  exact hc.1.trans (hp c c a d ⟨.start hc.1.1, hc.2⟩ ha)

/-- What is read first keeps its payload. -/
theorem after (hp : Adds φ 0 p F) (hf : ∀ a, Grows (R + F a) (f a) G) :
    Adds φ R (p >>= f) G :=
  (frame hp).bind hf

/-- What is read first is known to be of a kind. -/
theorem bindGives {V : α → Prop} (hp : Adds φ R p F) (hV : Gives V p)
    (hf : ∀ a, V a → Grows (F a) (f a) G) : Adds φ R (p >>= f) G := by
  intro base c b d hc hb
  obtain ⟨a, c', ha, hb⟩ := bind_eq_ok.1 hb
  exact hf a (hV c a c' trivial ha) base c' b d ⟨hp base c a c' hc ha, trivial⟩ hb

/-- What is read first passes no payload. -/
theorem skip (hp : Adds φ 0 p fun _ => 0) (hf : ∀ a, Grows R (f a) G) :
    Adds φ R (p >>= f) G :=
  hp.after fun a => (add_zero R).symm ▸ hf a

theorem map {f : α → β} (hp : Adds φ R p F) (hf : ∀ a, G (f a) = F a) : Adds φ R (f <$> p) G := by
  rw [← bind_pure_comp]
  exact hp.bind fun a => pure (hf a)

/-- A test decides between two ways to go on. -/
theorem branch {p : Parser Bool} {f f' : Parser β} (hp : Adds φ 0 p fun _ => 0)
    (hf : Grows R f G) (hf' : Grows R f' G) :
    Adds φ R (p >>= fun b => if b = true then f else f') G := by
  refine hp.skip fun result => ?_
  cases result with
  | true => exact hf
  | false => exact hf'

theorem throw {e : Error} : Adds φ R (throw e : Parser α) F :=
  fun _ => Leads.throw

theorem refuse {cause : GrammarCause} : Adds φ R (refuse cause : Parser α) F :=
  fun _ => Leads.refuse

theorem refuseFor {wanted : Wanted} : Adds φ R (refuseFor wanted : Parser α) F :=
  fun _ => Leads.refuseFor

theorem refuseFound {cause : Found → GrammarCause} :
    Adds φ R (refuseFound cause : Parser α) F :=
  fun _ => Leads.refuseFound

/-! ## Looking at tokens and taking them -/

/-- What a test has told stays known until a token is taken. -/
theorem testThen {look : Cursor → Bool} {f f' : Parser β}
    (hf : Adds (fun c => φ c ∧ look c = true) R f G)
    (hf' : Adds (fun c => φ c ∧ look c = false) R f' G) :
    Adds φ R (test look >>= fun b => if b = true then f else f') G := by
  intro base
  refine .testThen ?_ ?_
  · exact (hf base).mono (fun _ hc => ⟨hc.1.1, hc.1.2, hc.2⟩) fun _ _ => id
  · exact (hf' base).mono (fun _ hc => ⟨hc.1.1, hc.1.2, hc.2⟩) fun _ _ => id

/-- What is known of the place does not matter for the test, nor what the test tells. -/
theorem test {look : Cursor → Bool} {f f' : Parser β} (hf : Grows R f G)
    (hf' : Grows R f' G) :
    Adds φ R (test look >>= fun b => if b = true then f else f') G :=
  testThen hf.anywhere hf'.anywhere

/-- The next token is known to be of a type until a token is taken. -/
theorem isNextThen {type : TokenType} {f f' : Parser β}
    (hf : Adds (fun c => c.nextType = some type) R f G) (hf' : Grows R f' G) :
    Adds φ R (isNext type >>= fun b => if b = true then f else f') G :=
  testThen (hf.mono fun _ hc => eq_of_beq hc.2) hf'.anywhere

/-- What the next type is stays known until a token is taken. -/
theorem peekType {f : Option TokenType → Parser β}
    (hf : ∀ next, Adds (fun c => c.nextType = next) R (f next) G) :
    Adds φ R (peekType >>= f) G :=
  fun base => .peekType fun next =>
    (hf next base).mono (fun _ hc => ⟨hc.1.1, hc.2⟩) fun _ _ => id

/-- Takes a token and keeps it. -/
theorem take {F : Token → Multiset Field}
    (hkept : ∀ c token, φ c → c.nextType = some token.type → Kept (F token) (payload [token])) :
    Adds φ 0 take F := by
  intro base c token d hc htake
  obtain ⟨behind, _ | ⟨head, ahead⟩, depth⟩ := c
  · cases htake
  · cases htake
    have hstep := hc.1.step rfl (hkept _ token hc.2 rfl)
    rwa [zero_add] at hstep

/-- Takes a token and keeps its text. -/
theorem takeText {f : Token → Parser β}
    (hf : ∀ token, Grows (R + {.text token.text}) (f token) G) :
    Adds φ R (Parser.take >>= f) G :=
  (take fun _ token _ _ => kept_text token).after hf

/-- Takes a token that is known to be no payload. -/
theorem takePlain {f : Token → Parser β}
    (hplain : ∀ c type, φ c → c.nextType = some type → type.isPayload = false)
    (hf : ∀ token, Grows R (f token) G) : Adds φ R (Parser.take >>= f) G := by
  exact (take fun c token hφ hnext => kept_plain (hplain c token.type hφ hnext)).skip hf

/-- Takes a token that is known to be of a type which is no payload. -/
theorem takeNext {type : TokenType} {f : Token → Parser β} (hplain : type.isPayload = false)
    (hf : ∀ token, Grows R (f token) G) :
    Adds (fun c => c.nextType = some type) R (Parser.take >>= f) G := by
  refine takePlain (fun c next hc hnext => ?_) hf
  rw [hc] at hnext
  cases hnext
  exact hplain

/-- Takes two tokens that are known to be no payload. -/
theorem takeTwo {f : Parser β}
    (hplain : ∀ c first second tokens, φ c → c.ahead = first :: second :: tokens →
      first.type.isPayload = false ∧ second.type.isPayload = false)
    (hf : Grows R f G) :
    Adds φ R (Parser.take >>= fun _ => Parser.take >>= fun _ => f) G := by
  intro base c b d hc hb
  obtain ⟨first, c', hfirst, hrest⟩ := bind_eq_ok.1 hb
  obtain ⟨second, c'', hsecond, hrest⟩ := bind_eq_ok.1 hrest
  obtain ⟨behind, _ | ⟨_, _ | ⟨_, ahead⟩⟩, depth⟩ := c
  · cases hfirst
  · cases hfirst
    cases hsecond
  · cases hfirst
    cases hsecond
    obtain ⟨hfirst, hsecond⟩ := hplain _ first second ahead hc.2 rfl
    exact hf base _ b d ⟨(hc.1.stepPlain rfl hfirst).stepPlain rfl hsecond, trivial⟩ hrest

end Adds

section Skips

variable {type : TokenType} {word : Keyword}

theorem keeps_expect {F : Token → Multiset Field}
    (hkept : ∀ token : Token, token.type = type → Kept (F token) (payload [token])) :
    Keeps F (expect type) := by
  intro base c token d hc hexpect
  obtain ⟨tokens, hahead, htype, rfl⟩ := expect_eq_ok.1 hexpect
  have hstep := hc.1.step hahead (hkept token htype)
  rwa [zero_add] at hstep

theorem skips_expect (hplain : type.isPayload = false) : Skips (expect type) :=
  keeps_expect fun _ htype => kept_plain (htype ▸ hplain)

theorem skips_expectKeyword : Skips (expectKeyword word) :=
  skips_expect rfl

theorem skips_accept (hplain : type.isPayload = false) : Skips (accept type) := by
  intro base c taken d hc haccept
  by_cases hnext : c.nextType = some type
  · obtain ⟨token, tokens, hahead, htype⟩ := Cursor.exists_ahead_of_nextType hnext
    rw [accept_of_next hnext] at haccept
    cases haccept
    exact hc.1.stepPlain hahead (htype ▸ hplain)
  · rw [accept_of_not_next hnext] at haccept
    cases haccept
    exact hc.1

theorem skips_acceptKeyword : Skips (acceptKeyword word) :=
  skips_accept rfl

theorem skips_test {look : Cursor → Bool} : Skips (test look) := by
  intro base c a d hc htest
  cases htest
  exact hc.1

theorem skips_acceptWord {word : String} : Skips (acceptWord word) := by
  intro base c taken d hc haccept
  unfold acceptWord at haccept
  cases hahead : c.ahead with
  | nil =>
      rw [hahead] at haccept
      cases haccept
      exact hc.1
  | cons token tokens =>
      rw [hahead] at haccept
      cases hword : token.isThisWord word with
      | true =>
          simp only [hword, if_pos] at haccept
          cases haccept
          exact hc.1.stepPlain hahead (Token.not_isPayload_of_isThisWord hword)
      | false =>
          simp only [hword] at haccept
          cases haccept
          exact hc.1

/-- Where a token is not accepted, what was known of the place stays known. -/
theorem Adds.acceptThen {f f' : Parser β} (hplain : type.isPayload = false) (hf : Grows R f G)
    (hf' : Adds φ R f' G) : Adds φ R (accept type >>= fun b => if b = true then f else f') G := by
  intro base c b d hc hb
  by_cases hnext : c.nextType = some type
  · obtain ⟨token, tokens, hahead, htype⟩ := Cursor.exists_ahead_of_nextType hnext
    rw [bind_of_ok (accept_of_next hnext)] at hb
    exact hf base _ b d ⟨hc.1.stepPlain hahead (htype ▸ hplain), trivial⟩ hb
  · rw [bind_of_ok (accept_of_not_next hnext)] at hb
    exact hf' base c b d hc hb

end Skips

/-! ## Repeating and going down -/

namespace Adds

/-- Each turn leads from the fields of a value to those of the next. -/
theorem loop {turn : α → Parser (Turn α)} {a : α} (ha : F a = R)
    (hturn : ∀ a, Grows (F a) (turn a) fun t => F t.value) :
    Adds φ R (loop turn a) F := by
  intro base
  subst ha
  have hloop : Leads (Account base (F a)) (Parser.loop turn a) fun b => Account base (F b) :=
    .loop (I := fun b => Account base (F b))
      (fun b => (hturn b base).mono (fun _ hc => ⟨hc, trivial⟩) fun _ _ => id) a
  exact hloop.mono (fun _ hc => hc.1) fun _ _ => id

end Adds

theorem keeps_commaList {construct : Construct} {cap : ℕ} (hp : Keeps F p) :
    Keeps (each F) (commaList construct cap p) := by
  intro base
  have hlist : Leads (Account base (each F [])) (commaList construct cap p) fun as c =>
      as ≠ [] ∧ Account base (each F as.reverse) c := by
    refine .commaListFrom (I := fun done c => Account base (each F done) c) (fun done => ?_)
      (fun done => ?_) []
    · refine (Adds.frame hp base).mono (fun _ hc => ⟨hc, trivial⟩) fun a c hc => ?_
      rwa [each_cons, add_comm]
    · refine (Adds.frame (skips_accept rfl) base).mono (fun _ hc => ⟨hc, trivial⟩) fun _ c hc => ?_
      rwa [add_zero] at hc
  refine hlist.mono (fun _ hc => hc.1) fun as c hc => ?_
  rw [← each_reverse]
  exact hc.2

theorem keeps_afterKeyword {word : Keyword} (hp : Keeps F p) :
    Keeps (ifAny F) (afterKeyword word p) :=
  .branch skips_acceptKeyword (hp.map fun _ => rfl) (.pure rfl)

/-- What is kept one nesting level further down is kept. -/
theorem Keeps.nested (hp : Keeps F p) : Keeps F (nested p) := by
  intro base c a d hc ha
  obtain ⟨d', hnested, rfl⟩ := nested_eq_ok.1 ha
  let deeper : Cursor := { c with depth := c.depth + 1 }
  have hdown := hp deeper deeper a d' ⟨.start hc.1.1, trivial⟩ hnested
  have hup := hc.1.trans hdown.up
  rwa [zero_add] at hup

end Parser

end SqlTree

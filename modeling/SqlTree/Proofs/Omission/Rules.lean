import SqlTree.Proofs.Advancing
import SqlTree.Proofs.Omission.Place

/-!
# Two readings, one without `AS`

A parser is followed from one set of places where the first reading may be stuck to another one
(`Omission.Follows`): as long as the first reading is not stuck, the second one gives the same
values at the places that are apart from those of the first.  Here are the rules for the parts
that every rule of the grammar is made of.
-/

namespace SqlTree

open SqlTree.Parser

namespace Omission

variable {o : Omission} {S S' T T' : Cursor → Prop}

/-! ## The judgement -/

variable {α β : Type} {φ ψ : Cursor → Prop} {p : Parser α} {f : α → Parser β}

/-- From places of which `φ` is true.  A parser that succeeds among the tokens with the word gives
the same without it, unless the first reading is stuck at the end, in `T`; and where the first
reading is stuck from the start, in `S`, it is stuck at the end. -/
structure Follows (o : Omission) (φ S T : Cursor → Prop) (p : Parser α) : Prop where
  together : ∀ {c d : Cursor} {a : α} {c' : Cursor}, o.Apart c d → φ c → p c = .ok a c' →
    T c' ∨ ∃ d', p d = .ok a d' ∧ o.Apart c' d'
  stuck : ∀ {c : Cursor} {a : α} {c' : Cursor}, S c → φ c → p c = .ok a c' → T c'

/-- A test comes out alike with the word and without it, and fails where the first reading is
stuck. -/
structure Shared (o : Omission) (φ S : Cursor → Prop) (look : Cursor → Bool) : Prop where
  apart : ∀ c d, o.Apart c d → φ c → look c = look d
  stuck : ∀ c, S c → φ c → look c = false

namespace Shared

/-- A test that fails unless a token of a steady type comes next. -/
theorem ofHead [Stuck o S] {look : Cursor → Bool}
    (hhead : ∀ c, look c = true → ∃ type, c.nextType = some type ∧ type.isSteady = true)
    (hlook : ∀ c d, o.Apart c d → ¬o.AtWord c → look c = look d) : o.Shared φ S look := by
  have hfalse : ∀ {c : Cursor}, (∀ {type}, type.isSteady = true → c.nextType ≠ some type) →
      look c = false := by
    intro c hne
    rw [Bool.eq_false_iff]
    intro htrue
    obtain ⟨type, hnext, htype⟩ := hhead c htrue
    exact hne htype hnext
  refine ⟨fun c d hapart _ => ?_, fun c hs _ => hfalse (Stuck.at (o := o) hs).nextType_ne⟩
  by_cases hat : o.AtWord c
  · rw [hfalse hat.nextType_ne, hfalse (hapart.nextType_ne hat)]
  · exact hlook c d hapart hat

/-- A test made where the word does not come next. -/
theorem offWord {look : Cursor → Bool} (hφ : ∀ c, φ c → ¬o.AtWord c)
    (hlook : ∀ c d, o.Apart c d → ¬o.AtWord c → look c = look d) : o.Shared φ Never look :=
  ⟨fun c d hapart hc => hlook c d hapart (hφ c hc), fun _ => False.elim⟩

theorem ofSteady [Stuck o S] {type : TokenType} (htype : type.isSteady = true) :
    o.Shared φ S fun c => c.nextType == some type :=
  ofHead (fun _ hlook => ⟨type, eq_of_beq hlook, htype⟩) fun _ _ hapart _ =>
    hapart.nextType_beq htype

theorem startsQuery [Stuck o S] : o.Shared φ S fun c => startsQuery c.ahead := by
  refine ofHead (fun c hlook => ?_) fun _ _ hapart _ => hapart.startsQuery_eq
  obtain ⟨behind, _ | ⟨token, tokens⟩, depth⟩ := c
  · cases hlook
  · refine ⟨token.type, rfl, ?_⟩
    rw [SqlTree.startsQuery_eq, Lookahead.queryAfter] at hlook
    split at hlook
    case isTrue hparen =>
      rw [hparen]
      rfl
    case isFalse =>
      rcases Bool.or_eq_true_iff.1 (Bool.and_eq_true_iff.1 hlook).1 with htype | htype
      · rw [eq_of_beq htype]
        rfl
      · rw [eq_of_beq htype]
        rfl

end Shared

namespace Follows

theorem mono (h : o.Follows φ S T p) [Within T T'] : o.Follows φ S T' p where
  together hapart hφ hp := (h.together hapart hφ hp).imp_left (Within.imp _)
  stuck hs hφ hp := Within.imp _ (h.stuck hs hφ hp)

/-- Fewer places may be stuck at the start. -/
theorem of (h : o.Follows φ T T' p) [Within S T] : o.Follows φ S T' p where
  together := h.together
  stuck hs := h.stuck (Within.imp _ hs)

theorem when (h : o.Follows φ S T p) (hψ : ∀ c, ψ c → φ c) : o.Follows ψ S T p where
  together hapart hc := h.together hapart (hψ _ hc)
  stuck hs hc := h.stuck hs (hψ _ hc)

/-- What is known of the place need not be used. -/
theorem anywhere (h : o.Follows (fun _ => True) S T p) : o.Follows φ S T p :=
  h.when fun _ _ => trivial

/-- Where the first reading cannot succeed, there is nothing to follow. -/
theorem fails (hfails : ∀ c a c', φ c → p c ≠ .ok a c') : o.Follows φ S T p where
  together _ hφ hp := (hfails _ _ _ hφ hp).elim
  stuck _ hφ hp := (hfails _ _ _ hφ hp).elim

theorem pure {a : α} [Within S T] : o.Follows φ S T (pure a) where
  together hapart _ hp := by
    obtain ⟨rfl, rfl⟩ := pure_eq_ok.1 hp
    exact .inr ⟨_, rfl, hapart⟩
  stuck hs _ hp := by
    obtain ⟨-, rfl⟩ := pure_eq_ok.1 hp
    exact Within.imp _ hs

/-- One parser after another, where something is known of the place between them. -/
theorem bindKnowing (hp : o.Follows φ S T p) (hψ : ∀ c a c', φ c → p c = .ok a c' → ψ c')
    (hf : ∀ a, o.Follows ψ T T' (f a)) : o.Follows φ S T' (p >>= f) where
  together hapart hφ hbind := by
    obtain ⟨a, c', ha, hb⟩ := bind_eq_ok.1 hbind
    have hc' := hψ _ a c' hφ ha
    rcases hp.together hapart hφ ha with hstuck | ⟨d', hd, hapart'⟩
    · exact .inl ((hf a).stuck hstuck hc' hb)
    · rw [bind_of_ok hd]
      exact (hf a).together hapart' hc' hb
  stuck hs hφ hbind := by
    obtain ⟨a, c', ha, hb⟩ := bind_eq_ok.1 hbind
    exact (hf a).stuck (hp.stuck hs hφ ha) (hψ _ a c' hφ ha) hb

theorem bind (hp : o.Follows φ S T p) (hf : ∀ a, o.Follows (fun _ => True) T T' (f a)) :
    o.Follows φ S T' (p >>= f) :=
  hp.bindKnowing (fun _ _ _ _ _ => trivial) hf

theorem map {g : α → β} (hp : o.Follows φ S T p) : o.Follows φ S T (g <$> p) := by
  rw [← bind_pure_comp]
  exact hp.bind fun _ => pure

/-- What is read is put into a value. -/
theorem returns {g : α → β} (hp : o.Follows φ S T p) [Within T T'] :
    o.Follows φ S T' (p >>= fun a => Pure.pure (g a)) :=
  hp.bind fun _ => pure

theorem throw {e : Error} : o.Follows φ S T (throw e : Parser α) :=
  fails fun _ _ _ _ hp => nomatch hp

theorem refuse {cause : GrammarCause} : o.Follows φ S T (refuse cause : Parser α) :=
  fails fun _ _ _ _ hp => nomatch hp

theorem refuseFor {wanted : Wanted} : o.Follows φ S T (refuseFor wanted : Parser α) :=
  fails fun _ _ _ _ hp => nomatch hp

theorem refuseFound {cause : Found → GrammarCause} :
    o.Follows φ S T (refuseFound cause : Parser α) :=
  fails fun _ _ _ _ hp => nomatch hp

/-- Where the first reading cannot succeed, it may start as well. -/
theorem orFails (h : o.Follows φ Never T p) (hfails : ∀ c a d, S c → p c ≠ .ok a d) :
    o.Follows φ S T p where
  together := h.together
  stuck hs _ hp := (hfails _ _ _ hs hp).elim

/-- Before the word the first reading cannot succeed, so both readings have the same token next. -/
theorem unlessAtWord (hfails : ∀ c a c', o.AtWord c → p c ≠ .ok a c')
    (h : o.Follows (fun c => φ c ∧ ¬o.AtWord c) Never T p) : o.Follows φ Never T p where
  together hapart hφ hp :=
    h.together hapart ⟨hφ, fun hat => hfails _ _ _ hat hp⟩ hp
  stuck := False.elim

/-! ## Looking ahead -/

/-- A test on which the two readings agree unless it fails where the first one is then stuck.
What it has told stays known until a token is taken. -/
theorem testThenOr {U : Cursor → Prop} {look : Cursor → Bool} {f k : Parser β}
    (hlook : ∀ c d, o.Apart c d → φ c → look c = look d ∨ look c = false ∧ U c)
    (hstuck : ∀ c, S c → φ c → look c = false ∧ U c)
    (hf : o.Follows (fun c => φ c ∧ look c = true) Never T f) (hk : o.Follows φ U T k) :
    o.Follows φ S T (test look >>= fun b => if b = true then f else k) where
  together {c d} _ _ hapart hφ hp := by
    change (if look c = true then f else k) c = _ at hp
    change _ ∨ ∃ d', (if look d = true then f else k) d = _ ∧ _
    rcases hlook c d hapart hφ with hsame | ⟨hfalse, hU⟩
    · rw [← hsame]
      split at hp
      case isTrue htrue =>
        rw [if_pos htrue]
        exact hf.together hapart ⟨hφ, htrue⟩ hp
      case isFalse hfalse =>
        rw [if_neg hfalse]
        exact hk.together hapart hφ hp
    · rw [hfalse, if_neg Bool.false_ne_true] at hp
      exact .inl (hk.stuck hU hφ hp)
  stuck {c} _ _ hs hφ hp := by
    obtain ⟨hfalse, hU⟩ := hstuck c hs hφ
    change (if look c = true then f else k) c = _ at hp
    rw [hfalse, if_neg Bool.false_ne_true] at hp
    exact hk.stuck hU hφ hp

theorem testThen {look : Cursor → Bool} {f g : Parser β} (hlook : o.Shared φ S look)
    (hf : o.Follows (fun c => φ c ∧ look c = true) Never T f) (hg : o.Follows φ S T g) :
    o.Follows φ S T (test look >>= fun b => if b = true then f else g) :=
  testThenOr (fun c d hapart hφ => .inl (hlook.apart c d hapart hφ))
    (fun c hs hφ => ⟨hlook.stuck c hs hφ, hs⟩) hf hg

/-- A test that fails before the word, and then nothing can be read. -/
theorem testOrFail {look : Cursor → Bool} {f g : Parser β}
    (hword : ∀ c, o.AtWord c → look c = false)
    (hlook : ∀ c d, o.Apart c d → ¬o.AtWord c → look c = look d)
    (hf : o.Follows (fun c => ¬o.AtWord c) Never T f) (hg : ∀ c a d, g c ≠ .ok a d) :
    o.Follows φ Never T (test look >>= fun b => if b = true then f else g) := by
  refine unlessAtWord (fun c a c' hat hp => ?_) ?_
  · change (if look c = true then f else g) c = _ at hp
    rw [if_neg (Bool.eq_false_iff.1 (hword c hat))] at hp
    exact hg c a c' hp
  · exact testThen (.offWord (fun _ hc => hc.2) hlook) (hf.when fun _ hc => hc.1.2)
      (fails fun c a d _ => hg c a d)

/-- Looking whether the next token is of a steady type decides between two ways to go on. -/
theorem isNextThen [Stuck o S] {type : TokenType} (htype : type.isSteady = true) {f g : Parser β}
    (hf : o.Follows (fun c => c.nextType = some type) Never T f) (hg : o.Follows φ S T g) :
    o.Follows φ S T (isNext type >>= fun b => if b = true then f else g) :=
  testThen (.ofSteady htype) (hf.when fun _ hc => eq_of_beq hc.2) hg

theorem isNext [Stuck o S] {type : TokenType} (htype : type.isSteady = true) :
    o.Follows φ S S (isNext type) where
  together {c d} _ _ hapart _ hp := by
    cases hp
    exact .inr ⟨d, congrArg (EStateM.Result.ok · d) (hapart.nextType_beq htype).symm, hapart⟩
  stuck hs _ hp := by
    cases hp
    exact hs

/-- What the next type is stays known until a token is taken. -/
theorem peekType {f : Option TokenType → Parser β}
    (hname : f (some o.name.type) = f (some (.keyword .AS)))
    (hf : ∀ next, o.Follows (fun c => φ c ∧ c.nextType = next) S T (f next)) :
    o.Follows φ S T (peekType >>= f) where
  together {c d} _ _ hapart hφ hp := by
    change f c.nextType c = _ at hp
    change _ ∨ ∃ d', f d.nextType d = _ ∧ _
    have hsame : f d.nextType = f c.nextType := by
      cases hapart.next with
      | word hat hc hd =>
          rw [Cursor.nextType_of_ahead hd, hname, hat.nextType]
      | none hc hd => rw [Cursor.nextType, Cursor.nextType, hc, hd]
      | token hc hd => rw [Cursor.nextType_of_ahead hc, Cursor.nextType_of_ahead hd]
    rw [hsame]
    exact (hf c.nextType).together hapart ⟨hφ, rfl⟩ hp
  stuck {c} _ _ hs hφ hp := (hf c.nextType).stuck hs ⟨hφ, rfl⟩ hp

/-- Unless the word comes next, both readings see the same type. -/
theorem peekOffWord {f : Option TokenType → Parser β} (hφ : ∀ c, φ c → ¬o.AtWord c)
    (hf : ∀ next, o.Follows (fun c => φ c ∧ c.nextType = next) Never T (f next)) :
    o.Follows φ Never T (Parser.peekType >>= f) where
  together {c d} _ _ hapart hc hp := by
    change f c.nextType c = _ at hp
    change _ ∨ ∃ d', f d.nextType d = _ ∧ _
    rw [← hapart.nextType_eq (hφ c hc)]
    exact (hf c.nextType).together hapart ⟨hc, rfl⟩ hp
  stuck := False.elim

/-! ## Taking tokens -/

/-- Takes the next token, which is the same for both readings. -/
theorem take {f : Token → Parser β} (hφ : ∀ c, φ c → ¬o.AtWord c) (hs : ∀ c, S c → ¬φ c)
    (hψ : ∀ c, φ c → ψ c.step) (hf : ∀ token, o.Follows ψ Never T (f token)) :
    o.Follows φ S T (Parser.take >>= f) where
  together {c d} _ _ hapart hc hp := by
    have hstep := hapart.step (hφ c hc)
    have hsame := hapart.head_eq (hφ c hc)
    obtain ⟨behind, _ | ⟨token, more⟩, depth⟩ := c
    · obtain ⟨token, c', htake, -⟩ := bind_eq_ok.1 hp
      cases htake
    · obtain ⟨more', hahead⟩ := List.head?_eq_some_iff.1 hsame.symm
      rw [bind_of_ok (take_of_ahead rfl)] at hp
      rw [bind_of_ok (take_of_ahead hahead)]
      exact (hf token).together hstep (hψ _ hc) hp
  stuck {c} _ _ h hc _ := (hs c h hc).elim

/-- Takes the next token where `AS` would not be left out. -/
theorem takeOffWord {f : Token → Parser β} (hφ : ∀ c, φ c → ¬o.AtWord c)
    (hf : ∀ token, o.Follows (fun _ => True) Never T (f token)) :
    o.Follows φ Never T (Parser.take >>= f) :=
  take hφ (fun _ => False.elim) (fun _ _ => trivial) hf

/-- Takes the next token, whose type is known and steady, and with it what is known of the one after
it. -/
theorem takeKnowing [Stuck o S] {type : TokenType} (htype : type.isSteady = true)
    {f : Token → Parser β} (hφ : ∀ c, φ c → c.nextType = some type) (hψ : ∀ c, φ c → ψ c.step)
    (hf : ∀ token, o.Follows ψ Never T (f token)) : o.Follows φ S T (Parser.take >>= f) := by
  refine take (fun c hc hat => ?_) (fun c hs hc => ?_) hψ hf
  · have hnext := (hφ c hc).symm.trans hat.nextType
    cases hnext
    cases htype
  · exact (Stuck.at (o := o) hs).nextType_ne htype (hφ c hc)

/-- Takes the next token, whose type is known and steady. -/
theorem takeOf [Stuck o S] {type : TokenType} (htype : type.isSteady = true) {f : Token → Parser β}
    (hf : ∀ token, o.Follows (fun _ => True) Never T (f token)) :
    o.Follows (fun c => c.nextType = some type) S T (Parser.take >>= f) :=
  takeKnowing htype (fun _ => id) (fun _ _ => trivial) hf

/-- Takes the next token if it is of a type, which is known thereafter, where `AS` would not be left
out. -/
theorem acceptOffWord {type : TokenType} {f g : Parser β} (hφ : ∀ c, φ c → ¬o.AtWord c)
    (hf : o.Follows (fun c => c.behind.head?.map Token.type = some type) Never T f)
    (hg : o.Follows φ Never T g) :
    o.Follows φ Never T (Parser.accept type >>= fun b => if b = true then f else g) where
  together {c d} _ _ hapart hc hp := by
    have hsame := hapart.nextType_eq (hφ c hc)
    by_cases hnext : c.nextType = some type
    · obtain ⟨token, more, hahead, rfl⟩ := Cursor.exists_ahead_of_nextType hnext
      rw [branch_of_true (accept_of_next hnext)] at hp
      rw [branch_of_true (accept_of_next (hsame ▸ hnext))]
      refine hf.together (hapart.step (hφ c hc)) ?_ hp
      rw [Cursor.step, hahead]
      rfl
    · rw [branch_of_false (accept_of_not_next hnext)] at hp
      rw [branch_of_false (accept_of_not_next (hsame ▸ hnext))]
      exact hg.together hapart hc hp
  stuck := False.elim

/-- Takes the next token if it is of a steady type, which is known thereafter. -/
theorem acceptKnowing [Stuck o S] {type : TokenType} (htype : type.isSteady = true) {f g : Parser β}
    (hf : o.Follows (fun c => c.behind.head?.map Token.type = some type) Never T f)
    (hg : o.Follows φ S T g) :
    o.Follows φ S T (Parser.accept type >>= fun b => if b = true then f else g) where
  together {c d} _ _ hapart hc hp := by
    by_cases hat : o.AtWord c
    · rw [branch_of_false (accept_of_not_next (hat.nextType_ne htype))] at hp
      rw [branch_of_false (accept_of_not_next (hapart.nextType_ne hat htype))]
      exact hg.together hapart hc hp
    · have hoff : o.Follows (fun c => φ c ∧ ¬o.AtWord c) Never T g := hg.of.when fun _ h => h.1
      exact (acceptOffWord (fun _ h => h.2) hf hoff).together hapart ⟨hc, hat⟩ hp
  stuck {c} _ _ hs hc hp := by
    have hne := (Stuck.at (o := o) hs).nextType_ne htype
    rw [branch_of_false (accept_of_not_next hne)] at hp
    exact hg.stuck hs hc hp

/-- Takes the next token if it is of a steady type. -/
theorem acceptThen [Stuck o S] {type : TokenType} (htype : type.isSteady = true) {f g : Parser β}
    (hf : o.Follows (fun _ => True) Never T f) (hg : o.Follows φ S T g) :
    o.Follows φ S T (Parser.accept type >>= fun b => if b = true then f else g) :=
  acceptKnowing htype hf.anywhere hg

theorem accept [Stuck o S] {type : TokenType} (htype : type.isSteady = true) :
    o.Follows φ S S (Parser.accept type) := by
  have hthen : o.Follows φ S S (Parser.accept type >>= fun b =>
      if b = true then Pure.pure true else Pure.pure false) := acceptThen htype pure pure
  rwa [bind_ite_pure] at hthen

theorem acceptWord_of_ahead {word : String} {c : Cursor} {token : Token} {more : List Token}
    (hahead : c.ahead = token :: more) : Parser.acceptWord word c =
      if token.isThisWord word = true then .ok true c.step else .ok false c := by
  rw [Parser.acceptWord, hahead]

theorem acceptWord_of_nil {word : String} {c : Cursor} (hahead : c.ahead = []) :
    Parser.acceptWord word c = .ok false c := by
  rw [Parser.acceptWord, hahead]

/-- Takes the next token if it is a plain word.  Without `AS` the name itself may be the word;
then the first reading is stuck before `AS`. -/
theorem acceptWordThen {word : String} (hword : Text.upper word ∉ stuckWords) {f g : Parser β}
    (hf : o.Follows (fun _ => True) Never T f) (hg : o.Follows φ o.Foreign T g) :
    o.Follows φ o.Foreign T (Parser.acceptWord word >>= fun b => if b = true then f else g) := by
  have hstuck : ∀ {c : Cursor}, o.Foreign c → Parser.acceptWord word c = .ok false c := by
    intro c hs
    obtain ⟨token, rest, hahead, -, htext⟩ := hs.next
    rw [acceptWord_of_ahead hahead]
    refine if_neg fun hthis => hword ?_
    rwa [← Text.sameWord_iff.1 (Bool.and_eq_true_iff.1 hthis).2]
  refine ⟨fun {c d} _ _ hapart hφ hp => ?_, fun hs hφ hp => ?_⟩
  · cases hapart.next with
    | word hat hc hd =>
        have hs : o.Foreign c := by
          obtain ⟨behind, ahead, depth⟩ := c
          cases hc
          exact .word
        rw [branch_of_false (hstuck hs)] at hp
        exact .inl (hg.stuck hs hφ hp)
    | none hc hd =>
        rw [branch_of_false (acceptWord_of_nil hc)] at hp
        rw [branch_of_false (acceptWord_of_nil hd)]
        exact hg.together hapart hφ hp
    | @token token _ _ hc hd hstep =>
        have hread : Parser.acceptWord word c = _ := acceptWord_of_ahead hc
        have hread' : Parser.acceptWord word d = _ := acceptWord_of_ahead hd
        by_cases hthis : token.isThisWord word = true
        · rw [if_pos hthis] at hread hread'
          rw [branch_of_true hread] at hp
          rw [branch_of_true hread']
          exact hf.together hstep trivial hp
        · rw [if_neg hthis] at hread hread'
          rw [branch_of_false hread] at hp
          rw [branch_of_false hread']
          exact hg.together hapart hφ hp
  · rw [branch_of_false (hstuck hs)] at hp
    exact hg.stuck hs hφ hp

theorem acceptWord {word : String} (hword : Text.upper word ∉ stuckWords) :
    o.Follows φ o.Foreign o.Foreign (Parser.acceptWord word) := by
  have hthen : o.Follows φ o.Foreign o.Foreign (Parser.acceptWord word >>= fun b =>
      if b = true then Pure.pure true else Pure.pure false) := acceptWordThen hword pure pure
  rwa [bind_ite_pure] at hthen

/-- Takes the next token where `AS` would not be left out. -/
theorem expectOffWord {type : TokenType} (hφ : ∀ c, φ c → ¬o.AtWord c) :
    o.Follows φ Never Never (Parser.expect type) where
  together {c d} token _ hapart hc hp := by
    obtain ⟨more, hahead, htype, rfl⟩ := expect_eq_ok.1 hp
    have hsame := hapart.head_eq (hφ c hc)
    rw [hahead] at hsame
    obtain ⟨more', hahead'⟩ := List.head?_eq_some_iff.1 hsame.symm
    exact .inr ⟨_, expect_eq_ok.2 ⟨more', hahead', htype, rfl⟩, hapart.step (hφ c hc)⟩
  stuck := False.elim

/-- Takes the next token, which has to be of a steady type. -/
theorem expect [Stuck o S] {type : TokenType} (htype : type.isSteady = true) :
    o.Follows φ S Never (Parser.expect type) where
  together {c d} token _ hapart _ hp := by
    refine (expectOffWord (φ := fun c => c.nextType = some type) fun c hc hat => ?_).together hapart
      ?_ hp
    · exact hat.nextType_ne htype hc
    · obtain ⟨more, hahead, rfl, -⟩ := expect_eq_ok.1 hp
      exact Cursor.nextType_of_ahead hahead
  stuck {c} token _ hs _ hp := by
    obtain ⟨more, hahead, rfl, -⟩ := expect_eq_ok.1 hp
    exact (Stuck.at (o := o) hs).nextType_ne htype (Cursor.nextType_of_ahead hahead)

/-- Reads something if a keyword stands before it. -/
theorem afterKeyword [Stuck o S] [Within S T] {word : Keyword}
    (hword : (TokenType.keyword word).isSteady = true) (hp : o.Follows (fun _ => True) Never T p) :
    o.Follows φ S T (Parser.afterKeyword word p) :=
  acceptThen hword hp.map pure

/-- Reads a clause of a query, if it stands here. -/
theorem clause [Within T o.Foreign] {word : Keyword}
    (hword : (TokenType.keyword word).isSteady = true) (hp : o.Follows (fun _ => True) Never T p) :
    o.Follows φ o.Foreign o.Foreign (Parser.afterKeyword word p) :=
  afterKeyword hword hp.mono

/-! ## Repeating and nesting -/

theorem commaList [Stuck o T] {construct : Construct} {cap : Nat}
    (hitem : o.Follows (fun _ => True) Never T p) :
    o.Follows φ Never T (commaList construct cap p) := by
  have hfrom :
      ∀ n done, o.Follows (fun _ => True) Never T (commaListFrom construct cap p n done) := by
    intro n
    induction n with
    | zero => exact fun _ => throw
    | succ n ih => exact fun done => hitem.bind fun a => acceptThen rfl (ih (a :: done)) pure
  exact (hfrom cap []).anywhere

theorem nested [Stuck o T] (hp : o.Follows (fun _ => True) Never T p) :
    o.Follows φ Never T (nested p) where
  together {c d} a _ hapart _ hnested := by
    obtain ⟨c', ha, rfl⟩ := nested_eq_ok.1 hnested
    have hdown : o.Apart { c with depth := c.depth + 1 } { d with depth := d.depth + 1 } := by
      rw [← hapart.depth_eq]
      exact hapart.withDepth (c.depth + 1)
    rcases hp.together hdown trivial ha with hstuck | ⟨d', hd, hapart'⟩
    · exact .inl (Stuck.withDepth (o := o) c' _ hstuck)
    · refine .inr ⟨_, nested_of_ok hd, ?_⟩
      rw [← hapart'.depth_eq]
      exact hapart'.withDepth (c'.depth - 1)
  stuck := False.elim

end Follows

/-! ## Loops -/

theorem Apart.length_le {c d : Cursor} (h : o.Apart c d) : d.ahead.length ≤ c.ahead.length := by
  cases h with
  | before => simp
  | past => exact Nat.le_refl _

/-- A loop whose turns are followed from where they may end. -/
theorem Follows.loop {turn : α → Parser (Turn α)}
    (hturn : ∀ a, o.Follows (fun _ => True) T T (turn a)) (hadvances : ∀ a, Advances (turn a))
    {a : α} :
    o.Follows φ T T (loop turn a) := by
  have hover : ∀ tokens a, o.Follows (fun _ => True) T T (loopOver turn tokens a) :=
    loopOver_induction (J := fun _ => o.Follows (fun _ => True) T T) (fun _ => pure)
      fun a _ hgoOn => (hturn a).bind hgoOn
  constructor
  · intro c d b c' hapart _ hp
    unfold Parser.loop at hp ⊢
    -- There may be one token less behind the word, and so one turn less.
    rw [loopOver_eq hadvances (Nat.le_refl _) hapart.length_le]
    exact (hover c.ahead a).together hapart trivial hp
  · exact fun {c} _ _ hs _ hp => (hover c.ahead a).stuck hs trivial hp

end Omission

end SqlTree

import SqlTree.Proofs.Confinement.Issuing
import SqlTree.Proofs.Likeness.Diagonal
import SqlTree.Proofs.Outcome

/-!
# Reading tokens that a dialect issues

As long as the dialect issues all tokens that are ahead, a parser that takes a token of some type
tells that the dialect issues this type.  The rules below carry that through the ways in which
parsers are put together: a parser gives values of a kind, and leaves only such tokens ahead
again.
-/

namespace SqlTree

open SqlTree.Parser

variable {α β : Type} {d : Dialect}

namespace Dialect

def IssuesAhead (d : Dialect) (c : Cursor) : Prop :=
  ∀ token ∈ c.ahead, d.issues token.type = true

/-- From tokens that the dialect issues, the parser gives only values of which `V` is true, and
leaves only such tokens ahead. -/
def Gives (d : Dialect) (V : α → Prop) (p : Parser α) : Prop :=
  Leads d.IssuesAhead p fun a c => V a ∧ d.IssuesAhead c

/-- From tokens that the dialect issues, the parser leaves only such tokens ahead. -/
abbrev Keeps (d : Dialect) (p : Parser α) : Prop :=
  d.Gives (fun _ => True) p

theorem IssuesAhead.step {c : Cursor} (h : d.IssuesAhead c) : d.IssuesAhead c.step := by
  obtain ⟨behind, _ | ⟨token, tokens⟩, depth⟩ := c
  · exact h
  · exact (List.forall_mem_cons.1 h).2

theorem IssuesAhead.issues {c : Cursor} {type : TokenType} (h : d.IssuesAhead c)
    (hnext : c.nextType = some type) : d.issues type = true := by
  obtain ⟨token, tokens, hahead, rfl⟩ := Cursor.exists_ahead_of_nextType hnext
  exact h token (hahead ▸ List.mem_cons_self)

variable {V V' : α → Prop} {W : β → Prop} {p : Parser α} {f : α → Parser β}

namespace Gives

theorem mono (h : d.Gives V p) (hV : ∀ a, V a → V' a) : d.Gives V' p :=
  Leads.mono h (fun _ => id) fun a _ ha => ⟨hV a ha.1, ha.2⟩

/-- Nothing has to be known of the values. -/
theorem keeps (h : d.Gives V p) : d.Keeps p :=
  h.mono fun _ _ => trivial

/-- What is known of the values from anywhere is known of them here. -/
theorem of_keeps (hp : d.Keeps p) (hV : Parser.Gives V p) : d.Gives V p :=
  fun c a e hc ha => ⟨hV c a e trivial ha, (hp c a e hc ha).2⟩

theorem pure {a : α} (h : V a) : d.Gives V (pure a) :=
  Leads.pure fun _ hc => ⟨h, hc⟩

theorem bind (hp : d.Gives V p) (hf : ∀ a, V a → d.Gives W (f a)) : d.Gives W (p >>= f) :=
  Leads.bind hp fun a c b e ha hb => hf a ha.1 c b e ha.2 hb

/-- A turn of a loop that goes on with what it reads. -/
theorem again (hp : d.Gives V p) :
    d.Gives (fun t => V t.value) (p >>= fun a => Pure.pure (Turn.again a)) :=
  hp.bind fun _ ha => pure ha

/-- A turn of a loop that ends it with what it reads. -/
theorem last (hp : d.Gives V p) :
    d.Gives (fun t => V t.value) (p >>= fun a => Pure.pure (Turn.done a)) :=
  hp.bind fun _ ha => pure ha

/-- Nothing has to be known of what is read first. -/
theorem after (hp : d.Keeps p) (hf : ∀ a, d.Gives W (f a)) : d.Gives W (p >>= f) :=
  hp.bind fun a _ => hf a

/-- Something that may be missing is there. -/
theorem pureSome {a : α} (h : V a) :
    d.Gives (fun a? => ∀ a ∈ a?, V a) (Pure.pure (some a)) :=
  pure (forall_mem_some h)

/-- Something that may be missing is missing. -/
theorem pureNone : d.Gives (fun a? => ∀ a ∈ a?, V a) (Pure.pure none) :=
  pure forall_mem_none

theorem mapSome (hp : d.Gives V p) : d.Gives (fun a? => ∀ a ∈ a?, V a) (some <$> p) := by
  rw [← bind_pure_comp]
  exact hp.bind fun _ ha => pureSome ha

theorem throw {e : Error} : d.Gives V (throw e) :=
  Leads.throw

theorem refuse {cause : GrammarCause} : d.Gives V (refuse cause) :=
  Leads.refuse

theorem refuseFor {wanted : Wanted} : d.Gives V (refuseFor wanted) :=
  Leads.refuseFor

theorem refuseFound {cause : Found → GrammarCause} : d.Gives V (refuseFound cause) :=
  Leads.refuseFound

/-- A test decides between two ways to go on, of which the first one may use what has been found. -/
theorem branchOn {X : Bool → Prop} {p : Parser Bool} {f g : Parser β} (hp : d.Gives X p)
    (hf : X true → d.Gives W f) (hg : d.Gives W g) :
    d.Gives W (p >>= fun b => if b = true then f else g) := by
  refine hp.bind fun b hb => ?_
  cases b with
  | true => exact hf hb
  | false => exact hg

/-- Either of two ways to go on. -/
theorem branch {p : Parser Bool} {f g : Parser β} (hp : d.Keeps p) (hf : d.Gives W f)
    (hg : d.Gives W g) : d.Gives W (p >>= fun b => if b = true then f else g) :=
  branchOn hp (fun _ => hf) hg

/-! ## Looking ahead and taking tokens -/

/-- The type of the next token is one that the dialect issues. -/
theorem peekType : d.Gives (fun next => ∀ type ∈ next, d.issues type = true) peekType := by
  rintro c next e hc ⟨⟩
  exact ⟨fun type htype => hc.issues htype, hc⟩

/-- A test that succeeds does so somewhere. -/
theorem test {look : Cursor → Bool} :
    d.Gives (fun found => found = true → ∃ c, look c = true) (test look) := by
  rintro c found e hc ⟨⟩
  exact ⟨fun hfound => ⟨c, hfound⟩, hc⟩

theorem isNext {type : TokenType} :
    d.Gives (fun found => found = true → d.issues type = true) (isNext type) := by
  rintro c found e hc ⟨⟩
  exact ⟨fun hfound => hc.issues (eq_of_beq hfound), hc⟩

theorem take : d.Gives (fun token => d.issues token.type = true) take := by
  rintro ⟨behind, _ | ⟨token, tokens⟩, depth⟩ a e hc ha
  · cases ha
  · cases ha
    exact ⟨hc token List.mem_cons_self, hc.step⟩

theorem accept {type : TokenType} :
    d.Gives (fun taken => taken = true → d.issues type = true) (accept type) := by
  intro c taken e hc htaken
  by_cases hnext : c.nextType = some type
  · rw [accept_of_next hnext] at htaken
    cases htaken
    exact ⟨fun _ => hc.issues hnext, hc.step⟩
  · rw [accept_of_not_next hnext] at htaken
    cases htaken
    exact ⟨nofun, hc⟩

theorem expect {type : TokenType} : d.Gives (fun _ => d.issues type = true) (expect type) := by
  intro c token e hc htoken
  obtain ⟨tokens, hahead, rfl, rfl⟩ := expect_eq_ok.1 htoken
  exact ⟨hc token (hahead ▸ List.mem_cons_self), hc.step⟩

/-- Where a token is accepted, the dialect issues its type. -/
theorem acceptThen {type : TokenType} {f g : Parser β} (hf : d.issues type = true → d.Gives W f)
    (hg : d.Gives W g) : d.Gives W (Parser.accept type >>= fun b => if b = true then f else g) :=
  branchOn accept (fun htaken => hf (htaken rfl)) hg

theorem afterKeyword {word : Keyword} (hp : d.issues (.keyword word) = true → d.Gives V p) :
    d.Gives (fun a? => ∀ a ∈ a?, V a) (afterKeyword word p) :=
  acceptThen (fun hissues => (hp hissues).mapSome) pureNone

/-! ## Repeating and nesting -/

theorem loop {turn : α → Parser (Turn α)} {a : α} (ha : V a)
    (hturn : ∀ a, V a → d.Gives (fun t => V t.value) (turn a)) : d.Gives V (loop turn a) := by
  have hloop : Leads (fun c => V a ∧ d.IssuesAhead c) (Parser.loop turn a)
      fun b c => V b ∧ d.IssuesAhead c :=
    Leads.loop (I := fun b c => V b ∧ d.IssuesAhead c)
      (fun b c t e hc ht => hturn b hc.1 c t e hc.2 ht) a
  exact Leads.mono hloop (fun _ hc => ⟨ha, hc⟩) fun _ _ => id

theorem commaList {construct : Construct} {cap : Nat} (hp : d.Gives V p) :
    d.Gives (fun as => ∀ a ∈ as, V a) (commaList construct cap p) := by
  have hlist : Leads (fun c => (∀ a ∈ [], V a) ∧ d.IssuesAhead c)
      (Parser.commaList construct cap p)
      fun as c => as ≠ [] ∧ (∀ a ∈ as.reverse, V a) ∧ d.IssuesAhead c := by
    refine Leads.commaListFrom (I := fun done c => (∀ a ∈ done, V a) ∧ d.IssuesAhead c)
      (fun done c a e hc ha => ?_) (fun done c taken e hc htaken => ?_) []
    · have hnext := hp c a e hc.2 ha
      exact ⟨List.forall_mem_cons.2 ⟨hnext.1, hc.1⟩, hnext.2⟩
    · exact ⟨hc.1, (accept c taken e hc.2 htaken).2⟩
  refine Leads.mono hlist (fun _ hc => ⟨List.forall_mem_nil _, hc⟩) fun as _ has => ?_
  exact ⟨fun a ha => has.2.1 a (List.mem_reverse.2 ha), has.2.2⟩

theorem nested (hp : d.Gives V p) : d.Gives V (nested p) := by
  intro c a e hc hnested
  obtain ⟨e', ha, rfl⟩ := nested_eq_ok.1 hnested
  exact hp { c with depth := c.depth + 1 } a e' hc ha

end Gives

namespace Keeps

/-- A parser that reads alike with itself goes over tokens only. -/
theorem ofKept {settings : Settings} {R : α → α → Prop}
    (hp : (Likeness.diagonal settings).Kept R p p) : d.Keeps p := by
  intro c a e hc ha
  obtain ⟨tokens, hpasses, -⟩ := hp.passes ha
  refine ⟨trivial, fun token htoken => hc token ?_⟩
  rw [hpasses.ahead]
  exact List.mem_append_right _ htoken

theorem test {look : Cursor → Bool} : d.Keeps (test look) :=
  Gives.test.keeps

theorem isNext {type : TokenType} : d.Keeps (isNext type) :=
  Gives.test.keeps

theorem take : d.Keeps take :=
  Gives.take.keeps

theorem accept {type : TokenType} : d.Keeps (accept type) :=
  Gives.accept.keeps

theorem expect {type : TokenType} : d.Keeps (expect type) :=
  Gives.expect.keeps

theorem acceptWord {word : String} : d.Keeps (acceptWord word) :=
  ofKept (Likeness.kept_acceptWord (Likeness.lawful_diagonal ⟨{}, none, 0, 0⟩))

end Keeps

end Dialect

end SqlTree

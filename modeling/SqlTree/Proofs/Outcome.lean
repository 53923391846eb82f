import SqlTree.Grammar.Statement
import SqlTree.Proofs.Run

/-!
# What holds where a parser succeeds

A parser leads from one condition to another when, started where the first one holds, it gives
values and ends at places of which the second one is true; where it fails, nothing is said.  The
rules below follow the ways in which parsers are put together.  A parser gives values of a kind
when it does so from anywhere.
-/

namespace SqlTree

/-- What holds of something holds of it where it may be missing. -/
theorem forall_mem_some {α : Type} {V : α → Prop} {a : α} (h : V a) : ∀ b ∈ some a, V b := by
  intro b hb
  cases hb
  exact h

theorem forall_mem_none {α : Type} {V : α → Prop} : ∀ b ∈ (none : Option α), V b :=
  fun _ hnone => nomatch hnone

namespace Parser

variable {α β : Type} {P P' : Cursor → Prop} {Q Q' : α → Cursor → Prop} {R : β → Cursor → Prop}
  {p : Parser α} {f : α → Parser β}

/-- From where `P` holds, the parser gives only values and ends only at places of which `Q` is
true. -/
def Leads (P : Cursor → Prop) (p : Parser α) (Q : α → Cursor → Prop) : Prop :=
  ∀ c a d, P c → p c = .ok a d → Q a d

namespace Leads

theorem mono (h : Leads P p Q) (hP : ∀ c, P' c → P c) (hQ : ∀ a c, Q a c → Q' a c) :
    Leads P' p Q' :=
  fun c a d hc hp => hQ a d (h c a d (hP c hc) hp)

theorem pure {a : α} (h : ∀ c, P c → Q a c) : Leads P (pure a) Q := by
  intro c b d hc hp
  obtain ⟨rfl, rfl⟩ := pure_eq_ok.1 hp
  exact h c hc

theorem bind (hp : Leads P p Q) (hf : ∀ a, Leads (Q a) (f a) R) : Leads P (p >>= f) R := by
  intro c b d hc hbind
  obtain ⟨a, c', ha, hb⟩ := bind_eq_ok.1 hbind
  exact hf a c' b d (hp c a c' hc ha) hb

/-- Nothing has to be known of what is read first. -/
theorem after (hf : ∀ a, Leads (fun _ => True) (f a) R) : Leads P (p >>= f) R :=
  bind (Q := fun _ _ => True) (fun _ _ _ _ _ => trivial) hf

theorem throw {e : Error} : Leads P (throw e : Parser α) Q :=
  fun _ _ _ _ hp => nomatch hp

theorem refuse {cause : GrammarCause} : Leads P (refuse cause : Parser α) Q :=
  fun _ _ _ _ hp => nomatch hp

theorem refuseFor {wanted : Wanted} : Leads P (refuseFor wanted : Parser α) Q :=
  fun _ _ _ _ hp => nomatch hp

theorem refuseFound {cause : Found → GrammarCause} : Leads P (refuseFound cause : Parser α) Q :=
  fun _ _ _ _ hp => nomatch hp

/-! ## Looking ahead -/

/-- What the next type is stays known until a token is taken. -/
theorem peekType {f : Option TokenType → Parser β}
    (hf : ∀ next, Leads (fun c => P c ∧ c.nextType = next) (f next) R) :
    Leads P (peekType >>= f) R := by
  intro c b d hc hb
  obtain ⟨next, c', hnext, hresult⟩ := bind_eq_ok.1 hb
  cases hnext
  exact hf _ c b d ⟨hc, rfl⟩ hresult

/-- What a test has told stays known until a token is taken. -/
theorem testThen {look : Cursor → Bool} {f f' : Parser β}
    (hf : Leads (fun c => P c ∧ look c = true) f R)
    (hf' : Leads (fun c => P c ∧ look c = false) f' R) :
    Leads P (test look >>= fun b => if b = true then f else f') R := by
  intro c b d hc hb
  obtain ⟨result, c', htest, hresult⟩ := bind_eq_ok.1 hb
  cases htest
  cases hlook : look c with
  | true =>
      rw [if_pos hlook] at hresult
      exact hf c b d ⟨hc, hlook⟩ hresult
  | false =>
      rw [if_neg (Bool.eq_false_iff.1 hlook)] at hresult
      exact hf' c b d ⟨hc, hlook⟩ hresult

/-- Where a token is accepted, it is the one taken last; where not, nothing changes. -/
theorem acceptThen {type : TokenType} {f f' : Parser β}
    (hf : Leads (fun c => c.behind.head?.map Token.type = some type) f R)
    (hf' : Leads (fun c => P c ∧ c.nextType ≠ some type) f' R) :
    Leads P (accept type >>= fun b => if b = true then f else f') R := by
  intro c b d hc hb
  obtain ⟨taken, c', haccept, hresult⟩ := bind_eq_ok.1 hb
  by_cases hnext : c.nextType = some type
  · obtain ⟨token, tokens, hahead, htype⟩ := Cursor.exists_ahead_of_nextType hnext
    rw [accept_of_next hnext] at haccept
    cases haccept
    refine hf _ b d ?_ hresult
    rw [Cursor.step, hahead]
    exact congrArg some htype
  · rw [accept_of_not_next hnext] at haccept
    cases haccept
    exact hf' c b d ⟨hc, hnext⟩ hresult

/-! ## Repeating -/

/-- A condition that every turn keeps holds when the loop ends. -/
theorem loop {I : α → Cursor → Prop} {turn : α → Parser (Turn α)}
    (hturn : ∀ a, Leads (I a) (turn a) fun t => I t.value) (a : α) :
    Leads (I a) (loop turn a) I := by
  have hover : ∀ tokens a, Leads (I a) (loopOver turn tokens a) I :=
    loopOver_induction (J := fun a p => Leads (I a) p I) (fun _ => pure fun _ => id)
      fun a _ hgoOn => (hturn a).bind hgoOn
  exact fun c => hover c.ahead a c

/-- A condition on the items read so far, the last one first, that every item keeps. -/
theorem commaListFrom {I : List α → Cursor → Prop} {construct : Construct} {cap n : Nat}
    (hitem : ∀ done, Leads (I done) p fun a => I (a :: done))
    (hcomma : ∀ done, Leads (I done) (accept .comma) fun _ => I done) (done : List α) :
    Leads (I done) (commaListFrom construct cap p n done)
      fun as c => as ≠ [] ∧ I as.reverse c := by
  induction n generalizing done with
  | zero => exact throw
  | succ n ih =>
      refine (hitem done).bind fun a => ?_
      refine (hcomma _).bind fun more => ?_
      cases more with
      | true => exact ih (a :: done)
      | false =>
          refine pure fun c hc => ⟨?_, ?_⟩
          · simp
          · rwa [List.reverse_reverse]

end Leads

/-! ## Values of a kind -/

/-- The parser gives only values of which `V` is true. -/
abbrev Gives (V : α → Prop) (p : Parser α) : Prop :=
  Leads (fun _ => True) p fun a _ => V a

namespace Gives

variable {V V' : α → Prop} {W : β → Prop}

theorem mono (h : Gives V p) (hV : ∀ a, V a → V' a) : Gives V' p :=
  Leads.mono h (fun _ => id) fun a _ => hV a

theorem pure {a : α} (h : V a) : Gives V (pure a) :=
  Leads.pure fun _ _ => h

theorem bind (hp : Gives V p) (hf : ∀ a, V a → Gives W (f a)) : Gives W (p >>= f) :=
  Leads.bind hp fun a c b d ha hb => hf a ha c b d trivial hb

/-- A turn of a loop that goes on with what it reads. -/
theorem again (hp : Gives V p) :
    Gives (fun t => V t.value) (p >>= fun a => Pure.pure (Turn.again a)) :=
  hp.bind fun _ ha => pure ha

/-- A turn of a loop that ends it with what it reads. -/
theorem last (hp : Gives V p) :
    Gives (fun t => V t.value) (p >>= fun a => Pure.pure (Turn.done a)) :=
  hp.bind fun _ ha => pure ha

/-- Nothing has to be known of what is read first. -/
theorem after (hf : ∀ a, Gives W (f a)) : Gives W (p >>= f) :=
  Leads.after hf

theorem map {f : α → β} (hp : Gives V p) (hf : ∀ a, V a → W (f a)) : Gives W (f <$> p) := by
  rw [← bind_pure_comp]
  exact hp.bind fun a ha => pure (hf a ha)

/-- Either of two ways to go on. -/
theorem branch {p : Parser Bool} {f g : Parser β} (hf : Gives W f) (hg : Gives W g) :
    Gives W (p >>= fun b => if b = true then f else g) := by
  refine after fun b => ?_
  cases b with
  | true => exact hf
  | false => exact hg

theorem loop {turn : α → Parser (Turn α)} {a : α} (ha : V a)
    (hturn : ∀ a, V a → Gives (fun t => V t.value) (turn a)) : Gives V (loop turn a) := by
  have hloop : Leads (fun _ => V a) (Parser.loop turn a) fun b _ => V b :=
    Leads.loop (fun b c t d hb ht => hturn b hb c t d trivial ht) a
  exact hloop.mono (fun _ _ => ha) fun _ _ => id

theorem commaList {construct : Construct} {cap : Nat} (hp : Gives V p) :
    Gives (fun as => as ≠ [] ∧ ∀ a ∈ as, V a) (commaList construct cap p) := by
  have hlist : Leads (fun _ => ∀ a ∈ [], V a) (Parser.commaList construct cap p)
      fun as _ => as ≠ [] ∧ ∀ a ∈ as.reverse, V a := by
    refine Leads.commaListFrom (I := fun done _ => ∀ a ∈ done, V a)
      (fun done c a d hdone ha => ?_) (fun _ _ _ _ hdone _ => hdone) []
    exact List.forall_mem_cons.2 ⟨hp c a d trivial ha, hdone⟩
  refine hlist.mono (fun _ _ => List.forall_mem_nil _) fun as _ has => ⟨has.1, fun a ha => ?_⟩
  exact has.2 a (List.mem_reverse.2 ha)

theorem afterKeyword {word : Keyword} (hp : Gives V p) :
    Gives (fun a? => ∀ a ∈ a?, V a) (afterKeyword word p) :=
  branch (hp.map fun _ ha => forall_mem_some ha) (pure forall_mem_none)

theorem nested (hp : Gives V p) : Gives V (nested p) := by
  intro c a d _ hnested
  obtain ⟨d', ha, -⟩ := nested_eq_ok.1 hnested
  exact hp _ a d' trivial ha

end Gives

end Parser

open SqlTree.Parser in
/-- A statement that is read has taken all tokens. -/
theorem Level.leads_statement (g : Level) :
    Leads (fun _ => True) g.statement fun _ c => c.ahead = [] := by
  refine .after fun e => ?_
  refine .after fun _ => ?_
  refine .testThen (.pure fun c hc => ?_) .refuseFound
  exact List.isEmpty_iff.1 hc.2

end SqlTree

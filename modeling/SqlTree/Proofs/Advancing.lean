import SqlTree.Proofs.Spending.Rules

/-!
# Loops that advance

A loop has as many turns as there are tokens ahead, and a last one.  Where each turn that goes on
takes a token (`Parser.Advances`) that is enough, and more turns make no difference
(`Parser.loopOver_eq`).
-/

namespace SqlTree

namespace Parser

variable {α β : Type} {p : Parser α} {f : α → Parser β}

/-- No tokens come back. -/
def Forward (p : Parser α) : Prop :=
  ∀ c a d, p c = .ok a d → d.ahead.length ≤ c.ahead.length

/-- What spends tokens does not bring them back.  It does not matter how many have been spent
before; two are enough to pay for any production. -/
theorem Forward.spends (h : ∀ depth, Spends ⟨depth, 0, 0⟩ (fun _ => True) 2 2 p) : Forward p := by
  intro c a d hp
  have hends := (h c.depth).ends rfl
  rw [hp] at hends
  cases hends with
  | ok hpasses =>
      have := hpasses.length_ahead
      omega

theorem Forward.pure {a : α} : Forward (pure a) := by
  intro c b d hp
  cases hp
  exact Nat.le_refl _

theorem Forward.bind (hp : Forward p) (hf : ∀ a, Forward (f a)) : Forward (p >>= f) := by
  intro c b d hbind
  obtain ⟨a, c', ha, hb⟩ := bind_eq_ok.1 hbind
  exact Nat.le_trans (hf a c' b d hb) (hp c a c' ha)

theorem Forward.returns {g : α → β} (hp : Forward p) : Forward (p >>= fun a => Pure.pure (g a)) :=
  hp.bind fun _ => .pure

theorem Forward.branch {p : Parser Bool} {f g : Parser β} (hp : Forward p) (hf : Forward f)
    (hg : Forward g) : Forward (p >>= fun b => if b = true then f else g) := by
  refine hp.bind fun b => ?_
  cases b with
  | true => exact hf
  | false => exact hg

theorem Forward.refuseFor {wanted : Wanted} : Forward (refuseFor wanted : Parser α) :=
  fun _ _ _ hp => nomatch hp

theorem Forward.take : Forward take := by
  intro c token d hp
  obtain ⟨behind, _ | ⟨next, tokens⟩, depth⟩ := c
  · cases hp
  · cases hp
    exact Nat.le_succ tokens.length

def Advances (p : Parser (Turn α)) : Prop :=
  ∀ c a d, p c = .ok (.again a) d → d.ahead.length < c.ahead.length

namespace Advances

/-- A turn that spends a token in any case. -/
theorem spends {p : Parser (Turn α)}
    (h : ∀ depth, Spends ⟨depth, 0, 0⟩ (fun _ => True) 2 3 p) : Advances p := by
  intro c a d hp
  have hends := (h c.depth).ends rfl
  rw [hp] at hends
  cases hends with
  | ok hpasses hspent =>
      have := hpasses.length_ahead
      omega

/-- A turn that ends the loop. -/
theorem done {a : α} : Advances (pure (.done a)) :=
  fun _ _ _ hp => nomatch hp

theorem bind {f : α → Parser (Turn β)} (hp : Forward p) (hf : ∀ a, Advances (f a)) :
    Advances (p >>= f) := by
  intro c b d hbind
  obtain ⟨a, c', ha, hb⟩ := bind_eq_ok.1 hbind
  exact Nat.lt_of_lt_of_le (hf a c' b d hb) (hp c a c' ha)

/-- A turn that ends the loop with what it reads. -/
theorem last {f : α → β} : Advances (p >>= fun a => pure (.done (f a))) := by
  intro c b d hbind
  obtain ⟨a, c', -, hb⟩ := bind_eq_ok.1 hbind
  cases hb

/-- Either of two ways to go on. -/
theorem branch {p : Parser Bool} {f g : Parser (Turn β)} (hp : Forward p) (hf : Advances f)
    (hg : Advances g) : Advances (p >>= fun b => if b = true then f else g) := by
  refine bind hp fun b => ?_
  cases b with
  | true => exact hf
  | false => exact hg

theorem testThen {look : Cursor → Bool} {f g : Parser (Turn β)} (hf : Advances f)
    (hg : Advances g) : Advances (test look >>= fun b => if b = true then f else g) := by
  intro c b d hp
  change (if look c = true then f else g) c = _ at hp
  split at hp
  case isTrue => exact hf c b d hp
  case isFalse => exact hg c b d hp

theorem peekType {f : Option TokenType → Parser (Turn β)} (hf : ∀ next, Advances (f next)) :
    Advances (peekType >>= f) :=
  fun c => hf c.nextType c

theorem take {f : Token → Parser (Turn β)} (hf : ∀ token, Forward (f token)) :
    Advances (take >>= f) := by
  intro c b d hp
  obtain ⟨behind, _ | ⟨token, tokens⟩, depth⟩ := c
  · obtain ⟨token, c', htake, -⟩ := bind_eq_ok.1 hp
    cases htake
  · rw [bind_of_ok (take_of_ahead rfl)] at hp
    exact Nat.lt_succ_of_le (hf token _ _ d hp)

theorem acceptThen {type : TokenType} {f g : Parser (Turn β)} (hf : Forward f) (hg : Advances g) :
    Advances (accept type >>= fun b => if b = true then f else g) := by
  intro c b d hp
  by_cases hnext : c.nextType = some type
  · rw [branch_of_true (accept_of_next hnext)] at hp
    obtain ⟨token, tokens, hahead, -⟩ := Cursor.exists_ahead_of_nextType hnext
    have hle := hf c.step _ d hp
    rw [Cursor.step_ahead hahead] at hle
    rw [hahead]
    exact Nat.lt_succ_of_le hle
  · rw [branch_of_false (accept_of_not_next hnext)] at hp
    exact hg c b d hp

end Advances

/-- Where each turn that goes on takes a token, it does not matter how many more turns than there
are tokens a loop may have. -/
theorem loopOver_eq {turn : α → Parser (Turn α)} (hturn : ∀ a, Advances (turn a))
    {tokens tokens' : List Token} {a : α} {c : Cursor} (hle : c.ahead.length ≤ tokens.length)
    (hle' : c.ahead.length ≤ tokens'.length) :
    loopOver turn tokens a c = loopOver turn tokens' a c := by
  induction tokens generalizing tokens' a c with
  | nil =>
      cases hread : turn a c with
      | error e d => cases tokens' <;> simp only [loopOver, hread]
      | ok t d =>
          cases t with
          | done b => cases tokens' <;> simp only [loopOver, hread]
          | again b =>
              have hlt := hturn a c b d hread
              exact absurd (Nat.lt_of_lt_of_le hlt hle) (Nat.not_lt_zero _)
  | cons token tokens ih =>
      cases hread : turn a c with
      | error e d => cases tokens' <;> simp only [loopOver, hread]
      | ok t d =>
          cases t with
          | done b => cases tokens' <;> simp only [loopOver, hread]
          | again b =>
              have hlt := hturn a c b d hread
              cases tokens' with
              | nil => exact absurd (Nat.lt_of_lt_of_le hlt hle') (Nat.not_lt_zero _)
              | cons token' tokens' =>
                  simp only [loopOver, hread]
                  rw [List.length_cons] at hle hle'
                  exact ih (by omega) (by omega)

/-- A loop is its first turn, and the loop again where that turn goes on. -/
theorem loop_eq {turn : α → Parser (Turn α)} (hturn : ∀ a, Advances (turn a)) (a : α) :
    loop turn a = turn a >>= Turn.further (loop turn) := by
  funext c
  change loopOver turn c.ahead a c = _
  cases hread : turn a c with
  | error e d =>
      rw [bind_of_error hread]
      cases c.ahead <;> simp only [loopOver, hread]
  | ok t d =>
      rw [bind_of_ok hread]
      cases t with
      | done b => exact loopOver_of_done hread c.ahead
      | again b =>
          have hlt := hturn a c b d hread
          cases hahead : c.ahead with
          | nil => exact absurd (hahead ▸ hlt) (Nat.not_lt_zero _)
          | cons token tokens =>
              rw [hahead, List.length_cons] at hlt
              rw [loopOver_cons, bind_of_ok hread]
              exact loopOver_eq hturn (Nat.le_of_lt_succ hlt) (Nat.le_refl _)

end Parser

end SqlTree

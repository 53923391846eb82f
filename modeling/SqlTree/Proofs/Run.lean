import SqlTree.Grammar.Cursor

/-!
# Running parsers

What it means for a parser to succeed, part by part: a sequence succeeds when its parts do, one
after the other, and so on for the other ways to put parsers together.
-/

namespace SqlTree

namespace Cursor

variable {c : Cursor}

theorem nextType_of_ahead {token : Token} {tokens : List Token}
    (hahead : c.ahead = token :: tokens) :
    c.nextType = some token.type := by
  rw [nextType, hahead]
  rfl

theorem exists_ahead_of_nextType {type : TokenType} (hnext : c.nextType = some type) :
    ∃ token tokens, c.ahead = token :: tokens ∧ token.type = type := by
  obtain ⟨behind, _ | ⟨token, tokens⟩, depth⟩ := c
  · cases hnext
  · exact ⟨token, tokens, rfl, Option.some.inj hnext⟩

theorem step_ahead {token : Token} {tokens : List Token} (hahead : c.ahead = token :: tokens) :
    c.step.ahead = tokens := by
  rw [step, hahead]

end Cursor

namespace Parser

variable {α β : Type} {c d : Cursor} {a : α} {b : β}

theorem bind_of_ok {p : Parser α} (hp : p c = .ok a d) (f : α → Parser β) :
    (p >>= f) c = f a d := by
  change EStateM.bind p f c = _
  rw [EStateM.bind, hp]

/-- A condition that is read to hold takes the first branch. -/
theorem branch_of_true {p : Parser Bool} (hp : p c = .ok true d) (yes no : Parser α) :
    (p >>= fun holds => if holds = true then yes else no) c = yes d := by
  rw [bind_of_ok hp, if_pos rfl]

/-- A condition that is read not to hold takes the second branch. -/
theorem branch_of_false {p : Parser Bool} (hp : p c = .ok false d) (yes no : Parser α) :
    (p >>= fun holds => if holds = true then yes else no) c = no d := by
  rw [bind_of_ok hp, if_neg Bool.false_ne_true]

theorem bind_of_error {p : Parser α} {e : Error} (hp : p c = .error e d) (f : α → Parser β) :
    (p >>= f) c = .error e d := by
  change EStateM.bind p f c = _
  rw [EStateM.bind, hp]

theorem bind_eq_ok {p : Parser α} {f : α → Parser β} :
    (p >>= f) c = .ok b d ↔ ∃ a c', p c = .ok a c' ∧ f a c' = .ok b d := by
  constructor
  · intro hbind
    change EStateM.bind p f c = _ at hbind
    unfold EStateM.bind at hbind
    cases hp : p c with
    | ok a c' =>
        rw [hp] at hbind
        exact ⟨a, c', rfl, hbind⟩
    | error e c' =>
        rw [hp] at hbind
        cases hbind
  · rintro ⟨a, c', hp, hf⟩
    rw [bind_of_ok hp, hf]

theorem pure_eq_ok {b : α} : (pure a : Parser α) c = .ok b d ↔ a = b ∧ c = d := by
  constructor
  · intro h
    cases h
    exact ⟨rfl, rfl⟩
  · rintro ⟨rfl, rfl⟩
    rfl

theorem nested_of_ok {p : Parser α} (hp : p { c with depth := c.depth + 1 } = .ok a d) :
    nested p c = .ok a { d with depth := d.depth - 1 } := by
  rw [nested, hp]

theorem nested_eq_ok {p : Parser α} :
    nested p c = .ok a d ↔
      ∃ d', p { c with depth := c.depth + 1 } = .ok a d' ∧
        d = { d' with depth := d'.depth - 1 } := by
  constructor
  · intro hnested
    unfold nested at hnested
    cases hp : p { c with depth := c.depth + 1 } with
    | ok a' d' =>
        rw [hp] at hnested
        cases hnested
        exact ⟨d', rfl, rfl⟩
    | error e d' =>
        rw [hp] at hnested
        cases hnested
  · rintro ⟨d', hp, rfl⟩
    exact nested_of_ok hp

theorem accept_of_next {type : TokenType} (hnext : c.nextType = some type) :
    accept type c = .ok true c.step := by
  rw [accept, hnext, beq_self_eq_true, if_pos rfl]

theorem accept_of_not_next {type : TokenType} (hnext : c.nextType ≠ some type) :
    accept type c = .ok false c := by
  rw [accept, beq_eq_false_iff_ne.2 hnext, if_neg Bool.false_ne_true]

theorem expect_eq_ok {type : TokenType} {token : Token} :
    expect type c = .ok token d ↔
      ∃ tokens, c.ahead = token :: tokens ∧ token.type = type ∧ d = c.step := by
  obtain ⟨behind, _ | ⟨head, tail⟩, depth⟩ := c
  · simp [expect]
  · by_cases htype : head.type = type
    · simp only [expect, if_pos htype, EStateM.Result.ok.injEq, List.cons.injEq]
      constructor
      · rintro ⟨rfl, rfl⟩
        exact ⟨tail, ⟨rfl, rfl⟩, htype, rfl⟩
      · rintro ⟨tokens, ⟨rfl, rfl⟩, -, rfl⟩
        exact ⟨rfl, rfl⟩
    · simp only [expect, if_neg htype, List.cons.injEq]
      constructor
      · intro h
        cases h
      · rintro ⟨tokens, ⟨rfl, rfl⟩, htoken, -⟩
        exact (htype htoken).elim

theorem expect_of_next {type : TokenType} (hnext : c.nextType = some type) :
    ∃ token, expect type c = .ok token c.step := by
  obtain ⟨token, tokens, hahead, htype⟩ := Cursor.exists_ahead_of_nextType hnext
  exact ⟨token, expect_eq_ok.2 ⟨tokens, hahead, htype, rfl⟩⟩

theorem take_of_ahead {token : Token} {tokens : List Token} (hahead : c.ahead = token :: tokens) :
    take c = .ok token c.step := by
  obtain ⟨behind, ahead, depth⟩ := c
  cases hahead
  rfl

/-- A test whose result is given back as it is. -/
theorem bind_ite_pure (p : Parser Bool) :
    (p >>= fun b => if b = true then pure true else pure false) = p := by
  have hpure : (fun b : Bool => if b = true then pure true else pure false) =
      (pure : Bool → Parser Bool) := by
    funext b
    cases b <;> rfl
  rw [hpure, bind_pure]

/-! ## Loops -/

/-- What one turn of a loop leaves behind, whether or not it is the last one. -/
def Turn.value : Turn α → α
  | .again a | .done a => a

/-- How a loop goes on behind a turn. -/
def Turn.further (goOn : α → Parser α) : Turn α → Parser α
  | .again a => goOn a
  | .done a => pure a

variable {turn : α → Parser (Turn α)}

/-- The last turn. -/
theorem loopOver_nil : loopOver turn [] a = turn a >>= Turn.further pure := by
  funext c
  cases hturn : turn a c with
  | ok t d =>
      rw [loopOver, hturn, bind_of_ok hturn]
      cases t <;> rfl
  | error e d => rw [loopOver, hturn, bind_of_error hturn]

theorem loopOver_cons (token : Token) (tokens : List Token) :
    loopOver turn (token :: tokens) a = turn a >>= Turn.further (loopOver turn tokens) := by
  funext c
  cases hturn : turn a c with
  | ok t d =>
      rw [loopOver, hturn, bind_of_ok hturn]
      cases t <;> rfl
  | error e d => rw [loopOver, hturn, bind_of_error hturn]

/-- What holds where nothing is done, and of a turn with what follows it, holds of all turns. -/
theorem loopOver_induction {J : α → Parser α → Prop} (hpure : ∀ a, J a (pure a))
    (hturn : ∀ a (goOn : Turn α → Parser α), (∀ t, J t.value (goOn t)) → J a (turn a >>= goOn))
    (tokens : List Token) (a : α) : J a (loopOver turn tokens a) := by
  induction tokens generalizing a with
  | nil =>
      rw [loopOver_nil]
      apply hturn
      intro t
      cases t <;> exact hpure _
  | cons token tokens ih =>
      rw [loopOver_cons]
      apply hturn
      intro t
      cases t with
      | again b => exact ih b
      | done b => exact hpure b

theorem loopOver_of_done {b : α} (hturn : turn a c = .ok (.done b) d) (tokens : List Token) :
    loopOver turn tokens a c = .ok b d := by
  cases tokens with
  | nil =>
      rw [loopOver_nil, bind_of_ok hturn]
      rfl
  | cons token tokens =>
      rw [loopOver_cons, bind_of_ok hturn]
      rfl

/-- A loop that ends at its first turn. -/
theorem loop_of_done {b : α} (hturn : turn a c = .ok (.done b) d) : loop turn a c = .ok b d :=
  loopOver_of_done hturn c.ahead

def stopsAt (type : TokenType) (p : Parser α) (c : Cursor) : Bool :=
  match p c with
  | .ok _ d => d.nextType == some type
  | .error _ _ => false

def fails (p : Parser α) (c : Cursor) : Bool :=
  match p c with
  | .ok _ _ => false
  | .error _ _ => true

theorem exists_of_stopsAt {type : TokenType} {p : Parser α} (hstops : stopsAt type p c = true) :
    ∃ a d, p c = .ok a d ∧ d.nextType = some type := by
  unfold stopsAt at hstops
  cases hp : p c with
  | ok a d =>
      rw [hp] at hstops
      exact ⟨a, d, rfl, eq_of_beq hstops⟩
  | error e d =>
      rw [hp] at hstops
      cases hstops

end Parser

end SqlTree

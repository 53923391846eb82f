import SqlTree.Proofs.Caps

/-!
# Where a reading is refused

Parsers say where they stand when they fail.  A parser is accountable when each of its errors is
one that is met where it then stands: a grammar error has the line and the column of the next
token, or of the end of the last one, and tells what is found there.  All other errors are caps
that are met, features that the tree has no room for, and tokens that are taken where none is
left.  Here are the rules for the parts that every rule of the grammar is made of.
-/

namespace SqlTree

/-- A grammar error tells what is found, if it tells anything of that kind. -/
def GrammarCause.Tells (found : Found) : GrammarCause → Prop
  | .expected _ seen | .inExpression seen | .afterStatement seen | .statementStart seen =>
      seen = found
  | .longTableName _ | .longColumnName _ | .missingIndex => True
  | .stated _ => False

/-- An error that the grammar can meet where a cursor stands. -/
def Error.MetAt (c : Cursor) : Error → Prop
  | .grammar cause line column => (line, column) = c.place ∧ cause.Tells c.found
  | .unsupported _ _ => True
  | .internal cause => cause = .pastEnd
  | e => e.IsCap

namespace Parser

variable {α β : Type} {p : Parser α} {f : α → Parser β}

/-- Each error of the parser is met where the parser stands when it fails. -/
def Accountable (p : Parser α) : Prop :=
  ∀ c e d, p c = .error e d → e.MetAt d

namespace Accountable

/-- One parser after another, where the second one may use that the first one has succeeded. -/
theorem bindAt {c d : Cursor} {e : Error} (hp : ∀ e d, p c = .error e d → e.MetAt d)
    (hf : ∀ a c', p c = .ok a c' → ∀ e d, f a c' = .error e d → e.MetAt d)
    (hfails : (p >>= f) c = .error e d) : e.MetAt d := by
  cases hread : p c with
  | ok a c' =>
      rw [bind_of_ok hread] at hfails
      exact hf a c' hread e d hfails
  | error e' c' =>
      rw [bind_of_error hread] at hfails
      cases hfails
      exact hp e d hread

theorem bind (hp : Accountable p) (hf : ∀ a, Accountable (f a)) : Accountable (p >>= f) :=
  fun c _ _ => bindAt (hp c) fun a c' _ => hf a c'

/-- A parser that never fails. -/
theorem total (hread : ∀ c, ∃ a d, p c = .ok a d) : Accountable p := by
  intro c e d hfails
  obtain ⟨a, d', hok⟩ := hread c
  rw [hok] at hfails
  cases hfails

theorem pure {a : α} : Accountable (pure a) :=
  total fun c => ⟨a, c, rfl⟩

theorem map {g : α → β} (hp : Accountable p) : Accountable (g <$> p) := by
  rw [← bind_pure_comp]
  exact hp.bind fun _ => pure

/-- What is read is put into a value. -/
theorem returns {g : α → β} (hp : Accountable p) :
    Accountable (p >>= fun a => Pure.pure (g a)) :=
  hp.bind fun _ => pure

/-- Either of two ways to go on. -/
theorem branch {p : Parser Bool} {f g : Parser β} (hp : Accountable p) (hf : Accountable f)
    (hg : Accountable g) : Accountable (p >>= fun b => if b = true then f else g) := by
  apply hp.bind
  intro b
  cases b with
  | true => exact hf
  | false => exact hg

/-! ## Refusing -/

theorem throw {e : Error} (hmet : ∀ c, e.MetAt c) : Accountable (throw e : Parser α) := by
  intro c e d hfails
  cases hfails
  exact hmet c

theorem refuse {cause : GrammarCause} (htells : ∀ found, cause.Tells found) :
    Accountable (refuse cause : Parser α) := by
  intro c e d hfails
  cases hfails
  exact ⟨rfl, htells c.found⟩

theorem refuseFound {cause : Found → GrammarCause} (htells : ∀ found, (cause found).Tells found) :
    Accountable (refuseFound cause : Parser α) := by
  intro c e d hfails
  cases hfails
  exact ⟨rfl, htells c.found⟩

theorem refuseFor {wanted : Wanted} : Accountable (refuseFor wanted : Parser α) :=
  refuseFound fun _ => rfl

/-! ## Looking ahead and taking tokens -/

theorem test {look : Cursor → Bool} : Accountable (test look) :=
  total fun c => ⟨look c, c, rfl⟩

theorem isNext {type : TokenType} : Accountable (isNext type) :=
  test

theorem peekType : Accountable peekType :=
  total fun c => ⟨c.nextType, c, rfl⟩

theorem take : Accountable take := by
  rintro ⟨behind, _ | ⟨token, ahead⟩, depth⟩ e d hfails
  · cases hfails
    rfl
  · cases hfails

theorem accept {type : TokenType} : Accountable (accept type) := by
  apply total
  intro c
  by_cases hnext : c.nextType = some type
  · exact ⟨true, c.step, accept_of_next hnext⟩
  · exact ⟨false, c, accept_of_not_next hnext⟩

theorem acceptWord {word : String} : Accountable (acceptWord word) := by
  apply total
  rintro ⟨behind, _ | ⟨token, ahead⟩, depth⟩
  · exact ⟨_, _, rfl⟩
  · by_cases hword : token.isThisWord word = true
    · exact ⟨true, _, if_pos hword⟩
    · exact ⟨false, _, if_neg hword⟩

theorem expect {type : TokenType} : Accountable (expect type) := by
  rintro ⟨behind, _ | ⟨token, ahead⟩, depth⟩ e d hfails
  · exact refuseFor (α := Token) _ e d hfails
  · by_cases htype : token.type = type
    · rw [Parser.expect, if_pos htype] at hfails
      cases hfails
    · rw [Parser.expect, if_neg htype] at hfails
      exact refuseFor (α := Token) _ e d hfails

theorem afterKeyword {word : Keyword} (hp : Accountable p) : Accountable (afterKeyword word p) :=
  branch accept hp.map pure

/-! ## Repeating and nesting -/

theorem loop {turn : α → Parser (Turn α)} (hturn : ∀ a, Accountable (turn a)) {a : α} :
    Accountable (loop turn a) := by
  have hover : ∀ tokens a, Accountable (loopOver turn tokens a) :=
    loopOver_induction (J := fun _ => Accountable) (fun _ => pure) fun a _ hgoOn =>
      (hturn a).bind hgoOn
  exact fun c => hover c.ahead a c

theorem commaList {construct : Construct} {cap : Nat} (hitem : Accountable p) :
    Accountable (commaList construct cap p) := by
  have hfrom : ∀ n done, Accountable (commaListFrom construct cap p n done) := by
    intro n
    induction n with
    | zero => exact fun _ => throw fun _ => trivial
    | succ n ih => exact fun done => hitem.bind fun a => branch accept (ih (a :: done)) pure
  exact hfrom cap []

theorem nested (hp : Accountable p) : Accountable (nested p) := by
  intro c e d hfails
  unfold Parser.nested at hfails
  cases hread : p { c with depth := c.depth + 1 } with
  | ok a c' =>
      rw [hread] at hfails
      cases hfails
  | error e' c' =>
      rw [hread] at hfails
      cases hfails
      -- Neither the place nor what is found depends on the level.
      exact hp _ e c' hread

end Accountable

end Parser

end SqlTree

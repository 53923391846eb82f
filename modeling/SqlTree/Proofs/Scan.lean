import Mathlib.Data.List.Forall2
import SqlTree.Proofs.Piece

/-!
# Reading pieces one after another

What a run to the end of a text reads is told piece by piece (`scanned_of_run`).  A text that ends
with a line feed can be read by itself before the text that follows it (`run_append`), and what is
read of a text does not depend on the place where it starts, but for the spans of the tokens
(`together_run`).
-/

namespace SqlTree

open Text

/-! ## Two results -/

/-- Two results that are both values, which are related, or both errors of one class. -/
inductive Together {α β : Type} (V : α → β → Prop) : Except Error α → Except Error β → Prop where
  | ok {a : α} {b : β} (value : V a b) : Together V (.ok a) (.ok b)
  | error {e f : Error} (className : e.className = f.className) : Together V (.error e) (.error f)

theorem Together.bind
    {α β γ δ : Type} {V : α → β → Prop} {W : γ → δ → Prop}
    {x : Except Error α} {y : Except Error β} {f : α → Except Error γ} {g : β → Except Error δ}
    (h : Together V x y) (hf : ∀ a b, V a b → Together W (f a) (g b)) :
    Together W (x >>= f) (y >>= g) := by
  cases h with
  | ok hvalue => exact hf _ _ hvalue
  | error hclass => exact .error hclass

namespace Lexer

variable {lx : Lexicon} {cs : List Char} {tokens done : List Token} {steps : Nat} {place : Place}

theorem run_nil : run lx steps place done [] = .ok done.reverse := by
  cases steps <;> rfl

/-! ## What a run reads -/

/-- The tokens that reading a text to its end gives from a place on, one piece after the other. -/
inductive Scanned (lx : Lexicon) : Place → List Char → List Token → Prop where
  | nil {place : Place} : Scanned lx place [] []
  | piece {place : Place} {c : Char} {cs : List Char} {p : Piece} {tokens : List Token}
      (hpiece : Lexer.piece lx c cs = .ok p)
      (hrest : Scanned lx (place.advance p.chars) p.rest tokens) :
      Scanned lx place (c :: cs) ((p.tokenBetween place (place.advance p.chars)).toList ++ tokens)

theorem reverse_toList (token : Option Token) : token.toList.reverse = token.toList := by
  cases token <;> rfl

theorem exists_of_mem_tokenBetween {p : Piece} {start stop : Place} {token : Token}
    (htoken : token ∈ (p.tokenBetween start stop).toList) :
    ∃ type text, p.token = some (type, text) ∧ token = ⟨type, text, .between start stop⟩ := by
  obtain ⟨⟨type, text⟩, hfound, rfl⟩ := Option.map_eq_some_iff.1 (Option.mem_toList.1 htoken)
  exact ⟨type, text, hfound, rfl⟩

/-- Behind the tokens that it starts from, a run gives those of the text. -/
theorem scanned_of_run (hrun : run lx steps place done cs = .ok tokens) :
    ∃ read, tokens = done.reverse ++ read ∧ Scanned lx place cs read := by
  fun_induction run lx steps place done cs with
  | case1 =>
      cases hrun
      exact ⟨[], (List.append_nil _).symm, .nil⟩
  | case2 => cases hrun
  | case3 => cases hrun
  | case4 steps place done c cs p hpiece stop ih =>
      obtain ⟨read, rfl, hread⟩ := ih hrun
      refine ⟨_, ?_, .piece hpiece hread⟩
      rw [List.reverse_append, List.append_assoc, reverse_toList]

/-! ## A text before another -/

/-- A text that ends with a line feed is read to its end before the text that follows it. -/
theorem run_append
    (hrun : run lx steps place done cs = .ok tokens) (hlast : cs = [] ∨ cs.getLast? = some '\n') :
    ∃ left, ∀ more,
      run lx steps place done (cs ++ more) =
        run lx left (place.advance cs) tokens.reverse more := by
  fun_induction run lx steps place done cs with
  | case1 steps place done =>
      cases hrun
      refine ⟨steps, fun more => ?_⟩
      rw [List.reverse_reverse]
      rfl
  | case2 => cases hrun
  | case3 => cases hrun
  | case4 steps place done c cs p hpiece stop ih =>
      have hlast : (c :: cs).getLast? = some '\n' := hlast.resolve_left (List.cons_ne_nil c cs)
      obtain ⟨-, hfront⟩ := lexeme_of_piece hpiece
      rcases rest_ne_nil_or_of_piece hpiece hlast with hrest | ⟨rfl, rfl⟩
      · have hleft : p.rest.getLast? = some '\n' := by
          rw [← hfront, List.getLast?_append_of_ne_nil _ hrest] at hlast
          exact hlast
        obtain ⟨left, hrun⟩ := ih hrun (.inr hleft)
        refine ⟨left, fun more => ?_⟩
        rw [List.cons_append, run, piece_append hpiece hrest more, ← hfront, Place.advance_append]
        exact hrun more
      · rw [piece_separator (by decide)] at hpiece
        cases hpiece
        have hdone : run lx steps (place.advance ['\n']) done [] = .ok tokens := hrun
        rw [run_nil, Except.ok.injEq] at hdone
        refine ⟨steps, fun more => ?_⟩
        rw [List.cons_append, List.nil_append, run, piece_separator (by decide), ← hdone,
          List.reverse_reverse]
        rfl

/-- A token that was read before an offset. -/
def EndsBy (offset : Nat) (token : Token) : Prop :=
  token.span.start ≤ offset ∧ token.span.stop ≤ offset

theorem EndsBy.mono {offset further : Nat} {token : Token} (hends : EndsBy offset token)
    (hle : offset ≤ further) : EndsBy further token :=
  ⟨hends.1.trans hle, hends.2.trans hle⟩

/-- No token that is read lies behind the end of the text. -/
theorem Scanned.endsBy (h : Scanned lx place cs tokens) :
    ∀ token ∈ tokens, EndsBy (place.advance cs).offset token := by
  induction h with
  | nil => exact List.forall_mem_nil _
  | @piece place c cs p tokens hpiece _ ih =>
      obtain ⟨-, hfront⟩ := lexeme_of_piece hpiece
      rw [← hfront, Place.advance_append]
      intro token htoken
      rcases List.mem_append.1 htoken with hhere | hlater
      · obtain ⟨type, text, -, rfl⟩ := exists_of_mem_tokenBetween hhere
        constructor
        · change place.offset ≤ _
          rw [Place.offset_advance, Place.offset_advance]
          omega
        · change (place.advance p.chars).offset ≤ _
          rw [Place.offset_advance (place.advance p.chars)]
          exact Nat.le_add_right _ _
      · exact ih token hlater

theorem run_endsBy
    (hrun : run lx steps place done cs = .ok tokens)
    (hdone : ∀ token ∈ done, EndsBy place.offset token) :
    ∀ token ∈ tokens, EndsBy (place.advance cs).offset token := by
  obtain ⟨read, rfl, hread⟩ := scanned_of_run hrun
  intro token htoken
  rcases List.mem_append.1 htoken with hbefore | hnew
  · refine (hdone token (List.mem_reverse.1 hbefore)).mono ?_
    rw [Place.offset_advance]
    exact Nat.le_add_right _ _
  · exact hread.endsBy token hnew

/-! ## One text at two places -/

/-- Offsets into two texts that start alike up to an offset and end alike from two others on, and
that stand at the same place in what is alike. -/
def SamePlace (alike first second : Nat) (x y : Nat) : Prop :=
  (x = y ∧ x ≤ alike) ∨ ∃ k, x = first + k ∧ y = second + k

/-- Tokens that stand at the same places of two texts.  Strings may have different contents. -/
structure Counterpart (alike first second : Nat) (a b : Token) : Prop where
  type : a.type = b.type
  text : a.text = b.text ∨ a.type = .string
  start : SamePlace alike first second a.span.start b.span.start
  stop : SamePlace alike first second a.span.stop b.span.stop

variable {alike first second : Nat} {place' : Place} {done' : List Token}

/-- What is read of a text at two places. -/
theorem together_run
    (hplace : ∃ k, place.offset = first + k ∧ place'.offset = second + k)
    (hdone : List.Forall₂ (Counterpart alike first second) done done') :
    Together (List.Forall₂ (Counterpart alike first second))
      (run lx steps place done cs) (run lx steps place' done' cs) := by
  fun_induction run lx steps place done cs generalizing place' done'
  case case1 =>
    rw [run_nil]
    exact .ok (List.forall₂_reverse_iff.2 hdone)
  case case2 => exact .error rfl
  case case3 fault hpiece _ =>
    rw [run, hpiece]
    exact .error rfl
  case case4 steps place done c cs p hpiece stop ih =>
    rw [run, hpiece]
    obtain ⟨k, hoffset, hoffset'⟩ := hplace
    have hnext : stop.offset = first + (k + p.chars.length) ∧
        (place'.advance p.chars).offset = second + (k + p.chars.length) := by
      rw [Place.offset_advance, Place.offset_advance]
      omega
    refine ih ⟨_, hnext⟩ ?_
    cases htoken : p.token with
    | none => simpa [Piece.tokenBetween, htoken] using hdone
    | some found =>
        simp only [Piece.tokenBetween, htoken, Option.map_some, Option.toList_some,
          List.cons_append, List.nil_append, List.forall₂_cons]
        exact ⟨⟨rfl, .inl rfl, .inr ⟨k, hoffset, hoffset'⟩, .inr ⟨_, hnext⟩⟩, hdone⟩

end Lexer

end SqlTree

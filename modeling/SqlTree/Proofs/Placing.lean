import SqlTree.Proofs.Lossless

/-!
# The stages before the grammar point at the text

Whatever the lexer and the pass behind it refuse, they refuse with the line and the column of an
offset of the text.  What they let through are tokens that stand in the text.  Since the tokens of
a text are in order, the text between the two delimiters of an escaped identifier is always there,
so the pass keeps what its callers promise.  Main statement: `Dialect.points_normalize`.
-/

namespace SqlTree

open Text Lexer

/-- A token has characters of a text in its span, and the line and the column of the first of
them. -/
structure Token.PlacedIn (cs : List Char) (token : Token) : Prop where
  nonempty : token.span.start < token.span.stop
  inside : token.span.stop ≤ cs.length
  stands : Stands cs token.span.start token.span.line token.span.column

/-- A stage before the grammar gives values of a kind, or errors that point at an offset of a
text. -/
inductive Points {α : Type} (cs : List Char) (V : α → Prop) : Except Error α → Prop where
  | ok {a : α} (h : V a) : Points cs V (.ok a)
  | error {cause : LexicalCause} {line column offset : Nat} (h : Stands cs offset line column) :
      Points cs V (.error (.lexical cause line column))

theorem Points.bind {α β : Type} {cs : List Char} {V : α → Prop} {W : β → Prop} {x : Except Error α}
    {f : α → Except Error β} (h : Points cs V x) (hf : ∀ a, V a → Points cs W (f a)) :
    Points cs W (x >>= f) := by
  cases h with
  | ok h => exact hf _ h
  | error h => exact .error h

/-! ## The lexer -/

namespace Lexer

variable {lx : Lexicon} {cs front : List Char}

theorem points_run {steps : Nat} {done : List Token} {place : Place}
    (hplace : place = Place.start.advance front) :
    Points (front ++ cs) (fun _ => True) (run lx steps place done cs) := by
  fun_induction run lx steps place done cs generalizing front
  case case1 => exact .ok trivial
  case case2 place done c cs =>
    subst hplace
    exact .error (stands_advance front (c :: cs))
  case case3 steps place done c cs fault hpiece spot =>
    subst hplace
    obtain ⟨rest, hrest⟩ := before_isPrefix hpiece
    have hspot : spot = Place.start.advance (front ++ fault.before) :=
      (Place.advance_append ..).symm
    rw [hspot, ← hrest, ← List.append_assoc]
    exact .error (stands_advance (front ++ fault.before) rest)
  case case4 steps place done c cs p hpiece stop ih =>
    subst hplace
    obtain ⟨-, hfront⟩ := lexeme_of_piece hpiece
    rw [← hfront, ← List.append_assoc]
    exact ih (Place.advance_append ..).symm

end Lexer

/-- The tokens of a text stand in it, one behind the other, and a text that is refused is refused
at an offset. -/
theorem Lexicon.points_tokenize (lx : Lexicon) (text : String) :
    Points (unifyNewlines text.toList) (Lossless (unifyNewlines text.toList))
      (lx.tokenize text) := by
  have hpoints : Points ([] ++ unifyNewlines text.toList) (fun _ => True)
      (run lx lx.maxSteps Place.start [] (unifyNewlines text.toList)) := points_run rfl
  rw [tokenize]
  cases hread : run lx lx.maxSteps Place.start [] (unifyNewlines text.toList) with
  | ok tokens =>
      obtain ⟨_, rfl, hscanned⟩ := scanned_of_run hread
      have htiles : Tiles [] (unifyNewlines text.toList) _ := hscanned.tiles rfl
      exact .ok htiles.lossless
  | error e =>
      rw [hread] at hpoints
      cases hpoints with
      | error h => exact .error h

/-! ## The pass over the tokens -/

namespace Escape

variable {cs : List Char} {pass : Pass} {progress : Progress} {token opening closing : Token}
  {tokens : List Token}

structure Progress.Placed (cs : List Char) (rest : List Token) (progress : Progress) : Prop where
  tokens : ∀ token ∈ progress.tokens, token.PlacedIn cs
  opening : ∀ opening ∈ progress.opening, opening.PlacedIn cs ∧
    ∀ token ∈ rest, opening.span.stop ≤ token.span.start

theorem Progress.Placed.closed {rest taken : List Token} {comments : List String}
    (htaken : ∀ token ∈ taken, token.PlacedIn cs) :
    Progress.Placed cs rest ⟨none, taken, comments⟩ :=
  ⟨htaken, fun _ hnone => (Option.not_mem_none _ hnone).elim⟩

/-- Between two delimiters there are characters of the text, or none. -/
theorem slice_of_ordered (hordered : opening.span.stop ≤ closing.span.start)
    (hclosing : closing.PlacedIn cs) :
    ∃ body, slice cs.toArray opening.span.stop closing.span.start = some body := by
  have hinside : closing.span.start ≤ cs.length :=
    Nat.le_trans (Nat.le_of_lt hclosing.nonempty) hclosing.inside
  exact ⟨_, if_pos ⟨hordered, hinside⟩⟩

/-- An escaped identifier stands where its left delimiter does. -/
theorem points_fuse {delimiters : Delimiters} (hopening : opening.PlacedIn cs)
    (hclosing : closing.PlacedIn cs) (hordered : opening.span.stop ≤ closing.span.start) :
    Points cs (Token.PlacedIn cs) (fuse delimiters cs.toArray opening closing) := by
  obtain ⟨body, hbody⟩ := slice_of_ordered hordered hclosing
  unfold fuse
  rw [hbody]
  dsimp only
  split
  case isTrue => exact .error hopening.stands
  case isFalse =>
    refine .ok ⟨?_, hclosing.inside, hopening.stands⟩
    calc
      opening.span.start < opening.span.stop := hopening.nonempty
      _ ≤ closing.span.start := hordered
      _ < closing.span.stop := hclosing.nonempty

theorem points_step (hsource : pass.source = cs.toArray) (htoken : token.PlacedIn cs)
    (hordered : ∀ next ∈ tokens, token.span.stop ≤ next.span.start)
    (hplaced : progress.Placed cs (token :: tokens)) :
    Points cs (Progress.Placed cs tokens) (pass.step progress token) := by
  obtain ⟨opening, taken, comments⟩ := progress
  obtain ⟨htaken, hopen⟩ := hplaced
  unfold Pass.step
  cases opening with
  | none =>
      dsimp only
      split
      case isTrue => exact .ok (.closed htaken)
      split
      case isTrue =>
        refine .ok ⟨htaken, fun opening heq => ?_⟩
        cases heq
        exact ⟨htoken, hordered⟩
      case isFalse => exact .ok (.closed (List.forall_mem_cons.2 ⟨htoken, htaken⟩))
  | some opening =>
      obtain ⟨hopening, hbefore⟩ := hopen opening rfl
      rw [List.forall_mem_cons] at hbefore
      dsimp only
      split
      case isTrue =>
        rw [hsource]
        refine (points_fuse hopening htoken hbefore.1).bind fun fused hfused => .ok (.closed ?_)
        exact List.forall_mem_cons.2 ⟨hfused, htaken⟩
      case isFalse =>
        refine .ok ⟨htaken, fun other hother => ?_⟩
        cases hother
        exact ⟨hopening, hbefore.2⟩

theorem points_foldlM (hsource : pass.source = cs.toArray)
    (htokens : ∀ token ∈ tokens, token.PlacedIn cs)
    (hordered : tokens.Pairwise fun a b => a.span.stop ≤ b.span.start)
    (hplaced : progress.Placed cs tokens) :
    Points cs (Progress.Placed cs []) (tokens.foldlM pass.step progress) := by
  induction tokens generalizing progress with
  | nil => exact .ok hplaced
  | cons token tokens ih =>
      rw [List.forall_mem_cons] at htokens
      rw [List.pairwise_cons] at hordered
      rw [List.foldlM_cons]
      exact (points_step hsource htokens.1 hordered.1 hplaced).bind fun next hnext =>
        ih htokens.2 hordered.2 hnext

theorem points_run (hsource : pass.source = cs.toArray) (hlossless : Lossless cs tokens) :
    Points cs (fun normalized => ∀ token ∈ normalized.tokens, token.PlacedIn cs)
      (pass.run tokens) := by
  have htokens : ∀ token ∈ tokens, token.PlacedIn cs := fun token htoken =>
    have htrue := hlossless.trueTo token htoken
    ⟨htrue.nonempty, htrue.inside, htrue.stands⟩
  have hstart : Progress.Placed cs tokens {} := .closed (List.forall_mem_nil _)
  refine (points_foldlM hsource htokens hlossless.ordered hstart).bind fun progress hplaced => ?_
  unfold Pass.finish
  cases hopening : progress.opening with
  | none => exact .ok fun token htoken => hplaced.tokens token (List.mem_reverse.1 htoken)
  | some opening => exact .error (hplaced.opening opening hopening).1.stands

end Escape

/-- What a text is refused for before the grammar has the line and the column of an offset, and the
tokens that the grammar gets stand in the text. -/
theorem Dialect.points_normalize (d : Dialect) (text : String) :
    Points (unifyNewlines text.toList)
      (fun normalized => ∀ token ∈ normalized.tokens, token.PlacedIn (unifyNewlines text.toList))
      (d.normalize text) := by
  obtain ⟨leftType, rightType, hleft, hright⟩ := d.exists_delimiterTypes
  refine (d.lexicon.points_tokenize text).bind fun tokens hlossless => ?_
  unfold SqlTree.normalize
  rw [Escape.delimiterType_of_some hleft, Escape.delimiterType_of_some hright]
  exact Escape.points_run rfl hlossless

end SqlTree

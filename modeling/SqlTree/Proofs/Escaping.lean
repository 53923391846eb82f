import SqlTree.Proofs.Scan
import SqlTree.Token.Escape

/-!
# Two texts that differ in one string

Two texts are compared that are the same but for the content of one string.  Where an escaped
identifier ends up around that string, its text differs too, but it is empty in neither text.  So
the pass over the tokens goes the same way in both (`together_run`), and the tokens it gives are
ones that the grammar does not tell apart (`Token.Same`).
-/

namespace SqlTree

open Text Lexer

/-- Tokens of one type, and of one text unless they are strings or escaped identifiers. -/
structure Token.Same (a b : Token) : Prop where
  type : a.type = b.type
  text : a.text = b.text ∨ a.type = .string ∨
    a.type = .quotedIdentifier ∧ 2 ≤ a.text.length ∧ 2 ≤ b.text.length

theorem Lexer.Counterpart.same {alike first second : Nat} {a b : Token}
    (h : Counterpart alike first second a b) : a.Same b :=
  ⟨h.type, h.text.imp_right .inl⟩

namespace Escape

/-! ## Slices of the two texts -/

theorem slice_toArray (cs : List Char) (start stop : Nat) :
    slice cs.toArray start stop =
      if start ≤ stop ∧ stop ≤ cs.length then some ((cs.drop start).take (stop - start))
      else none := by
  simp [slice]

section Sources

variable (front back : List Char) (middle middle' : List Char)

/-- A stretch that begins before a quote and ends behind it is not blank. -/
theorem not_allBlank_of_quote {start stop : Nat} (hstart : start ≤ front.length)
    (hstop : front.length < stop) :
    allBlank (((front ++ '\'' :: back).drop start).take (stop - start)) = false := by
  have hquote : '\'' ∈ ((front ++ '\'' :: back).drop start).take (stop - start) := by
    rw [List.drop_append_of_le_length hstart, List.take_append, List.mem_append]
    have hlength : (front.drop start).length = front.length - start := List.length_drop
    obtain ⟨more, hmore⟩ : ∃ more, stop - start - (front.drop start).length = more + 1 :=
      ⟨stop - front.length - 1, by omega⟩
    rw [hmore, List.take_succ_cons]
    exact .inr (List.mem_cons_self ..)
  rw [allBlank, List.all_eq_false]
  exact ⟨'\'', hquote, by decide⟩

/-- A stretch that ends where the texts have not yet parted does not depend on what follows. -/
theorem take_drop_append {start stop : Nat} (hstop : stop ≤ front.length) :
    ((front ++ back).drop start).take (stop - start) = (front.drop start).take (stop - start) := by
  by_cases hstart : start ≤ front.length
  · rw [List.drop_append_of_le_length hstart, List.take_append_of_le_length]
    rw [List.length_drop]
    omega
  · have hnothing : stop - start = 0 := by omega
    rw [hnothing, List.take_zero, List.take_zero]

/-- Between the same two places either both texts have a stretch, which is blank in both or in
neither, or none of them has one. -/
theorem slice_samePlace {start stop start' stop' : Nat}
    (hstart : SamePlace front.length (front ++ '\'' :: middle).length
      (front ++ '\'' :: middle').length start start')
    (hstop : SamePlace front.length (front ++ '\'' :: middle).length
      (front ++ '\'' :: middle').length stop stop') :
    Option.Rel (fun body body' => allBlank body = allBlank body')
      (slice ((front ++ '\'' :: middle) ++ back).toArray start stop)
      (slice ((front ++ '\'' :: middle') ++ back).toArray start' stop') := by
  have hfront : ∀ middle : List Char, front.length < (front ++ '\'' :: middle).length := by simp
  have hquote := hfront middle
  have hquote' := hfront middle'
  have hlength : ∀ middle : List Char, (front ++ '\'' :: middle ++ back).length =
      (front ++ '\'' :: middle).length + back.length := fun _ => List.length_append
  rw [slice_toArray, slice_toArray, hlength, hlength]
  rcases hstart with ⟨rfl, hstart⟩ | ⟨k, rfl, rfl⟩ <;>
    rcases hstop with ⟨rfl, hstop⟩ | ⟨l, rfl, rfl⟩
  case inl.inl =>
    by_cases hle : start ≤ stop
    · rw [if_pos (by omega), if_pos (by omega)]
      apply Option.Rel.some
      rw [List.append_assoc, List.append_assoc, take_drop_append front _ hstop,
        take_drop_append front _ hstop]
    · rw [if_neg fun h => hle h.1, if_neg fun h => hle h.1]
      exact .none
  case inl.inr =>
    by_cases hle : l ≤ back.length
    · rw [if_pos (by omega), if_pos (by omega)]
      apply Option.Rel.some
      rw [List.append_assoc, List.append_assoc, List.cons_append, List.cons_append,
        not_allBlank_of_quote front _ hstart (by omega),
        not_allBlank_of_quote front _ hstart (by omega)]
    · rw [if_neg (by omega), if_neg (by omega)]
      exact .none
  case inr.inl =>
    rw [if_neg (by omega), if_neg (by omega)]
    exact .none
  case inr.inr =>
    by_cases hle : k ≤ l ∧ l ≤ back.length
    · rw [if_pos (by omega), if_pos (by omega)]
      apply Option.Rel.some
      rw [List.drop_length_add_append, List.drop_length_add_append, Nat.add_sub_add_left,
        Nat.add_sub_add_left]
    · rw [if_neg (by omega), if_neg (by omega)]
      exact .none

end Sources

/-! ## The pass over the tokens -/

section Pass

variable {front back middle middle' : List Char} {pass : Pass}

/-- Tokens at the same places of the two texts. -/
abbrev AtSamePlace (front middle middle' : List Char) : Token → Token → Prop :=
  Counterpart front.length (front ++ '\'' :: middle).length (front ++ '\'' :: middle').length

/-- The pass has come equally far in both texts. -/
structure Abreast (front middle middle' : List Char) (progress progress' : Progress) : Prop where
  opening : Option.Rel (AtSamePlace front middle middle') progress.opening progress'.opening
  tokens : List.Forall₂ Token.Same progress.tokens progress'.tokens
  comments : progress.comments.length = progress'.comments.length

/-- What the pass gives in both texts: like tokens, and equally many comments. -/
structure SameResult (result result' : Normalized) : Prop where
  tokens : List.Forall₂ Token.Same result.tokens result'.tokens
  comments : result.comments.length = result'.comments.length

/-- The pass over a text with a quote in it. -/
def Pass.over (pass : Pass) (front back middle : List Char) : Pass :=
  { pass with source := ((front ++ '\'' :: middle) ++ back).toArray }

theorem Pass.leftType_over : (pass.over front back middle).leftType = pass.leftType := rfl

theorem Pass.rightType_over : (pass.over front back middle).rightType = pass.rightType := rfl

theorem together_fuse (back : List Char) (pass : Pass) {opening opening' closing closing' : Token}
    (hopening : AtSamePlace front middle middle' opening opening')
    (hclosing : AtSamePlace front middle middle' closing closing') :
    Together Token.Same
      (fuse pass.delimiters (pass.over front back middle).source opening closing)
      (fuse pass.delimiters (pass.over front back middle').source opening' closing') := by
  have hslice := slice_samePlace front back middle middle' hopening.stop hclosing.start
  unfold fuse Pass.over
  dsimp only
  generalize slice _ opening.span.stop closing.span.start = found at hslice ⊢
  generalize slice _ opening'.span.stop closing'.span.start = found' at hslice ⊢
  cases hslice with
  | none => exact .error rfl
  | @some body body' hblank =>
      dsimp only
      rw [hblank]
      cases hbody : allBlank body' with
      | true => exact .error rfl
      | false =>
          have hlength : ∀ cs : List Char,
              2 ≤ (String.ofList (pass.delimiters.left :: cs ++
                [pass.delimiters.right])).length := by
            intro cs
            simp only [String.length_ofList, List.length_append, List.length_cons, List.length_nil]
            omega
          exact .ok ⟨rfl, .inr (.inr ⟨rfl, hlength body, hlength body'⟩)⟩

/-- One more token is taken in both texts. -/
theorem together_step {progress progress' : Progress} {a b : Token}
    (habreast : Abreast front middle middle' progress progress')
    (htoken : AtSamePlace front middle middle' a b) :
    Together (Abreast front middle middle')
      ((pass.over front back middle).step progress a)
      ((pass.over front back middle').step progress' b) := by
  obtain ⟨opening, tokens, comments⟩ := progress
  obtain ⟨opening', tokens', comments'⟩ := progress'
  obtain ⟨hopening, htokens, hcomments⟩ := habreast
  unfold Pass.step
  dsimp only at hopening htokens hcomments
  cases hopening with
  | none =>
      dsimp only
      rw [htoken.type]
      by_cases hcomment : b.type.isComment = true
      · rw [if_pos hcomment, if_pos hcomment]
        exact .ok ⟨.none, htokens, congrArg (· + 1) hcomments⟩
      rw [if_neg hcomment, if_neg hcomment]
      rw [Pass.leftType_over, Pass.leftType_over]
      by_cases hleft : b.type = pass.leftType
      · rw [if_pos hleft, if_pos hleft]
        exact .ok ⟨.some htoken, htokens, hcomments⟩
      · rw [if_neg hleft, if_neg hleft]
        exact .ok ⟨.none, .cons htoken.same htokens, hcomments⟩
  | some hopening =>
      dsimp only
      rw [htoken.type, Pass.rightType_over, Pass.rightType_over]
      by_cases hright : b.type = pass.rightType
      · rw [if_pos hright, if_pos hright]
        have hfuse := together_fuse back pass hopening htoken
        exact hfuse.bind fun fused fused' hfused =>
          .ok ⟨.none, .cons hfused htokens, hcomments⟩
      · rw [if_neg hright, if_neg hright]
        exact .ok ⟨.some hopening, htokens, hcomments⟩

theorem together_foldlM {progress progress' : Progress} {tokens tokens' : List Token}
    (habreast : Abreast front middle middle' progress progress')
    (htokens : List.Forall₂ (AtSamePlace front middle middle') tokens tokens') :
    Together (Abreast front middle middle')
      (tokens.foldlM (pass.over front back middle).step progress)
      (tokens'.foldlM (pass.over front back middle').step progress') := by
  induction htokens generalizing progress progress' with
  | nil => exact .ok habreast
  | cons htoken _ ih =>
      rw [List.foldlM_cons, List.foldlM_cons]
      exact (together_step habreast htoken).bind fun _ _ hnext => ih hnext

theorem together_finish {progress progress' : Progress}
    (habreast : Abreast front middle middle' progress progress') :
    Together SameResult
      ((pass.over front back middle).finish progress)
      ((pass.over front back middle').finish progress') := by
  obtain ⟨opening, tokens, comments⟩ := progress
  obtain ⟨opening', tokens', comments'⟩ := progress'
  obtain ⟨hopening, htokens, hcomments⟩ := habreast
  dsimp only at hopening htokens hcomments
  cases hopening with
  | none =>
      apply Together.ok
      constructor
      · exact List.forall₂_reverse_iff.2 htokens
      · simpa using hcomments
  | some => exact .error rfl

/-- From tokens at the same places the pass gives like tokens and equally many comments in both
texts, or errors of one class. -/
theorem together_pass (back : List Char) (pass : Pass) {tokens tokens' : List Token}
    (htokens : List.Forall₂ (AtSamePlace front middle middle') tokens tokens') :
    Together SameResult ((pass.over front back middle).run tokens)
      ((pass.over front back middle').run tokens') := by
  have hstart : Abreast front middle middle' {} {} := ⟨.none, .nil, rfl⟩
  exact (together_foldlM hstart htokens).bind fun _ _ hend => together_finish hend

end Pass

end Escape

end SqlTree

import SqlTree.Token.Escape

/-!
# What the pass over the tokens keeps

A step of the pass does one of five things (`Escape.Stepped`).  What each of them keeps holds
where a pass that succeeds ends (`Escape.Pass.run_invariant`).  Over tokens whose types are known
the pass is run step by step.
-/

namespace SqlTree

namespace Escape

variable {pass : Pass} {progress progress' : Progress} {tokens : List Token} {token : Token}
  {result : Normalized} {P : Token → Prop}

inductive Stepped (pass : Pass) (token : Token) : Progress → Progress → Prop where
  /-- A comment is lifted out. -/
  | comment {taken : List Token} {comments : List String} (hcomment : token.type.isComment = true) :
      Stepped pass token ⟨none, taken, comments⟩ ⟨none, taken, token.text :: comments⟩
  /-- A left delimiter opens an escaped identifier. -/
  | opening {taken : List Token} {comments : List String} (hcomment : token.type.isComment = false)
      (hleft : token.type = pass.leftType) :
      Stepped pass token ⟨none, taken, comments⟩ ⟨some token, taken, comments⟩
  /-- Any other token is let through. -/
  | plain {taken : List Token} {comments : List String} (hcomment : token.type.isComment = false)
      (hleft : token.type ≠ pass.leftType) :
      Stepped pass token ⟨none, taken, comments⟩ ⟨none, token :: taken, comments⟩
  /-- A right delimiter closes the escaped identifier that is open. -/
  | closing {opening fused : Token} {taken : List Token} {comments : List String}
      (hright : token.type = pass.rightType)
      (hfuse : fuse pass.delimiters pass.source opening token = .ok fused) :
      Stepped pass token ⟨some opening, taken, comments⟩ ⟨none, fused :: taken, comments⟩
  /-- Any other token belongs to the escaped identifier that is open. -/
  | inside {opening : Token} {taken : List Token} {comments : List String}
      (hright : token.type ≠ pass.rightType) :
      Stepped pass token ⟨some opening, taken, comments⟩ ⟨some opening, taken, comments⟩

theorem Pass.stepped (hstep : pass.step progress token = .ok progress') :
    Stepped pass token progress progress' := by
  obtain ⟨opening, taken, comments⟩ := progress
  unfold step at hstep
  cases opening with
  | none =>
      dsimp only at hstep
      by_cases hcomment : token.type.isComment = true
      · rw [if_pos hcomment] at hstep
        cases hstep
        exact .comment hcomment
      rw [if_neg hcomment] at hstep
      have hcomment := Bool.eq_false_iff.2 hcomment
      by_cases hleft : token.type = pass.leftType
      · rw [if_pos hleft] at hstep
        cases hstep
        exact .opening hcomment hleft
      · rw [if_neg hleft] at hstep
        cases hstep
        exact .plain hcomment hleft
  | some opening =>
      dsimp only at hstep
      by_cases hright : token.type = pass.rightType
      · rw [if_pos hright] at hstep
        obtain ⟨fused, hfuse, hstep⟩ := except_bind_eq_ok.1 hstep
        cases hstep
        exact .closing hright hfuse
      · rw [if_neg hright] at hstep
        cases hstep
        exact .inside hright

/-- What each step keeps, all of them keep. -/
theorem Pass.foldlM_invariant {I : Progress → Prop}
    (hkeeps : ∀ token ∈ tokens, ∀ before after,
      Stepped pass token before after → I before → I after)
    (hstart : I progress) (hfold : tokens.foldlM pass.step progress = .ok progress') :
    I progress' := by
  induction tokens generalizing progress with
  | nil =>
      cases hfold
      exact hstart
  | cons token tokens ih =>
      rw [List.forall_mem_cons] at hkeeps
      rw [List.foldlM_cons] at hfold
      obtain ⟨next, hstep, hfold⟩ := except_bind_eq_ok.1 hfold
      exact ih hkeeps.2 (hkeeps.1 _ _ (stepped hstep) hstart) hfold

/-- The pass ends well where nothing is open. -/
theorem Pass.finish_eq_ok : pass.finish progress = .ok result ↔
    progress.opening = none ∧ result = ⟨progress.tokens.reverse, progress.comments.reverse⟩ := by
  unfold finish
  cases progress.opening with
  | none => simp [eq_comm]
  | some opening => simp

/-- What each step keeps holds where the pass ends. -/
theorem Pass.run_invariant {I : Progress → Prop}
    (hkeeps : ∀ token ∈ tokens, ∀ before after,
      Stepped pass token before after → I before → I after)
    (hstart : I {}) (hrun : pass.run tokens = .ok result) :
    I ⟨none, result.tokens.reverse, result.comments.reverse⟩ := by
  obtain ⟨⟨opening, taken, comments⟩, hfold, hfinish⟩ := except_bind_eq_ok.1 hrun
  have hlast := foldlM_invariant hkeeps hstart hfold
  obtain ⟨hopening, rfl⟩ := finish_eq_ok.1 hfinish
  cases hopening
  rwa [List.reverse_reverse, List.reverse_reverse]

/-! ## Step by step -/

section Steps

variable {opening closing : Token} {taken : List Token} {comments : List String}

theorem foldlM_append_of_ok {more : List Token}
    (htokens : tokens.foldlM pass.step progress = .ok progress') :
    (tokens ++ more).foldlM pass.step progress = more.foldlM pass.step progress' := by
  rw [List.foldlM_append, htokens]
  rfl

theorem foldlM_cons_of_ok (htoken : pass.step progress token = .ok progress') :
    (token :: tokens).foldlM pass.step progress = tokens.foldlM pass.step progress' := by
  rw [List.foldlM_cons, htoken]
  rfl

/-- Until a closing delimiter comes, an open one swallows all tokens. -/
theorem foldlM_step_of_open (hopening : progress.opening = some opening)
    (hright : ∀ token ∈ tokens, token.type ≠ pass.rightType) :
    tokens.foldlM pass.step progress = .ok progress := by
  induction tokens with
  | nil => rfl
  | cons token tokens ih =>
      have hstep : pass.step progress token = .ok progress := by
        rw [Pass.step, hopening]
        exact if_neg (hright token List.mem_cons_self)
      rw [foldlM_cons_of_ok hstep]
      exact ih fun t ht => hright t (List.mem_cons_of_mem _ ht)

/-- A token outside escaped names that is no comment and opens no name is let through. -/
theorem step_of_plain (hcomment : token.type.isComment = false)
    (hleft : token.type ≠ pass.leftType) :
    pass.step ⟨none, taken, comments⟩ token = .ok ⟨none, token :: taken, comments⟩ := by
  simp [Pass.step, hcomment, hleft]

theorem step_of_opening (hcomment : opening.type.isComment = false)
    (hleft : opening.type = pass.leftType) :
    pass.step ⟨none, taken, comments⟩ opening = .ok ⟨some opening, taken, comments⟩ := by
  simp only [Pass.step]
  rw [hcomment, if_neg Bool.false_ne_true, if_pos hleft]

theorem step_of_closing {fused : Token} (hright : closing.type = pass.rightType)
    (hfuse : fuse pass.delimiters pass.source opening closing = .ok fused) :
    pass.step ⟨some opening, taken, comments⟩ closing = .ok ⟨none, fused :: taken, comments⟩ := by
  simp only [Pass.step]
  rw [if_pos hright, hfuse]
  rfl

end Steps

/-! ## Escaped identifiers -/

/-- An escaped identifier stands from the start of its left delimiter to the end of its right
one. -/
theorem eq_of_fuse {delimiters : Delimiters} {source : Array Char} {opening closing fused : Token}
    (hfuse : fuse delimiters source opening closing = .ok fused) :
    fused.type = .quotedIdentifier ∧ fused.span =
      { opening.span with stop := closing.span.stop } := by
  unfold fuse at hfuse
  cases hbody : slice source opening.span.stop closing.span.start with
  | none =>
      rw [hbody] at hfuse
      cases hfuse
  | some body =>
      simp only [hbody] at hfuse
      split at hfuse
      case isTrue => cases hfuse
      case isFalse =>
        cases hfuse
        exact ⟨rfl, rfl⟩

/-- What the pass gives are tokens that it is given and escaped identifiers. -/
theorem forall_of_run (hquoted : ∀ token, token.type = .quotedIdentifier → P token)
    (htokens : ∀ token ∈ tokens, P token) (hrun : pass.run tokens = .ok result) :
    ∀ token ∈ result.tokens, P token := by
  have hkeeps : ∀ token ∈ tokens, ∀ before after, Stepped pass token before after →
      (∀ token ∈ before.tokens, P token) → ∀ token ∈ after.tokens, P token := by
    intro token htoken before after hstepped hbefore
    cases hstepped with
    | comment => exact hbefore
    | opening => exact hbefore
    | plain => exact List.forall_mem_cons.2 ⟨htokens token htoken, hbefore⟩
    | closing hright hfuse =>
        exact List.forall_mem_cons.2 ⟨hquoted _ (eq_of_fuse hfuse).1, hbefore⟩
    | inside => exact hbefore
  have hlast := Pass.run_invariant hkeeps (List.forall_mem_nil _) hrun
  exact fun token htoken => hlast token (List.mem_reverse.2 htoken)

end Escape

end SqlTree

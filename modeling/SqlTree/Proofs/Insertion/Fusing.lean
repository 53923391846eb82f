import SqlTree.Proofs.Escaping
import SqlTree.Proofs.Insertion.Scanning
import SqlTree.Proofs.Passing

/-!
# Escaped identifiers around an inserted comment

The pass over the tokens takes each escaped identifier from the source, so it depends on the
offsets. A comment that is put before a token which the grammar sees lies outside of all escaped
identifiers: those before it keep their place, and those behind it are all further on by the same
distance (`exists_run_insert`).
-/

namespace SqlTree

open Text Lexer

structure Token.SameText (a b : Token) : Prop where
  type : a.type = b.type
  text : a.text = b.text

theorem Lexer.Shifted.sameText {distance : Nat} {a b : Token} (h : Shifted distance a b) :
    a.SameText b :=
  ⟨h.type, h.text⟩

namespace Escape

variable {pass : Pass} {front inserted back rest : List Char} {progress progress' : Progress}
  {tokens : List Token} {token : Token}

def Pass.on (pass : Pass) (source : List Char) : Pass :=
  { pass with source := source.toArray }

theorem Pass.leftType_on (pass : Pass) (source : List Char) :
    (pass.on source).leftType = pass.leftType := rfl

theorem Pass.rightType_on (pass : Pass) (source : List Char) :
    (pass.on source).rightType = pass.rightType := rfl

/-! ## Slices -/

theorem slice_front {start stop : Nat} (hstop : stop ≤ front.length) :
    slice (front ++ rest).toArray start stop = slice front.toArray start stop := by
  rw [slice_toArray, slice_toArray, take_drop_append front rest hstop]
  have hinside : start ≤ stop ∧ stop ≤ (front ++ rest).length ↔
      start ≤ stop ∧ stop ≤ front.length := by
    rw [List.length_append]
    omega
  rw [if_congr hinside rfl rfl]

theorem slice_back {start stop : Nat} (hstart : front.length ≤ start) :
    slice (front ++ (inserted ++ back)).toArray (start + inserted.length) (stop + inserted.length) =
      slice (front ++ back).toArray start stop := by
  have hinside : start + inserted.length ≤ stop + inserted.length ∧
      stop + inserted.length ≤ (front ++ (inserted ++ back)).length ↔
        start ≤ stop ∧ stop ≤ (front ++ back).length := by
    simp only [List.length_append]
    omega
  obtain ⟨k, rfl⟩ := Nat.exists_eq_add_of_le hstart
  have hshift : front.length + k + inserted.length = (front ++ inserted).length + k := by
    rw [List.length_append]
    omega
  rw [slice_toArray, slice_toArray, if_congr hinside rfl rfl, Nat.add_sub_add_right, hshift,
    ← List.append_assoc, List.drop_length_add_append, List.drop_length_add_append]

theorem fuse_front {delimiters : Delimiters} {opening closing : Token}
    (hclosing : closing.span.start ≤ front.length) :
    fuse delimiters (front ++ rest).toArray opening closing =
      fuse delimiters front.toArray opening closing := by
  rw [fuse, slice_front hclosing, fuse]

theorem together_fuse_shifted {delimiters : Delimiters} {opening opening' closing closing' : Token}
    (hopening : Shifted inserted.length opening opening')
    (hclosing : Shifted inserted.length closing closing')
    (hfollows : Follows opening front.length) :
    Together Token.SameText (fuse delimiters (front ++ back).toArray opening closing)
      (fuse delimiters (front ++ (inserted ++ back)).toArray opening' closing') := by
  rw [fuse, fuse, hopening.stop, hclosing.start, slice_back hfollows.stop]
  cases slice (front ++ back).toArray opening.span.stop closing.span.start with
  | none => exact .error rfl
  | some body =>
      dsimp only
      cases allBlank body with
      | true => exact .error rfl
      | false => exact .ok ⟨rfl, rfl⟩

/-! ## Before the comment -/

theorem step_front (htoken : Precedes token front.length) :
    (pass.on (front ++ rest)).step progress token = (pass.on front).step progress token := by
  obtain ⟨opening, taken, comments⟩ := progress
  cases opening with
  | none => rfl
  | some opening =>
      unfold Pass.step
      dsimp only [Pass.on]
      rw [fuse_front htoken.start.le]
      rfl

/-- What stands behind the tokens is not looked at. -/
theorem foldlM_front (htokens : ∀ token ∈ tokens, Precedes token front.length) :
    tokens.foldlM (pass.on (front ++ rest)).step progress =
      tokens.foldlM (pass.on front).step progress := by
  induction tokens generalizing progress with
  | nil => rfl
  | cons token tokens ih =>
      rw [List.forall_mem_cons] at htokens
      rw [List.foldlM_cons, List.foldlM_cons, step_front htokens.1]
      exact congrArg _ (funext fun _ => ih htokens.2)

/-! ## Where tokens start -/

/-- All that the pass holds starts at offsets of a kind. -/
structure Progress.Starts (q : Nat → Prop) (progress : Progress) : Prop where
  opening : ∀ token ∈ progress.opening, q token.span.start
  tokens : ∀ token ∈ progress.tokens, q token.span.start

theorem Progress.Starts.closed {q : Nat → Prop} {taken : List Token} {comments : List String}
    (htaken : ∀ token ∈ taken, q token.span.start) :
    Progress.Starts q ⟨none, taken, comments⟩ :=
  ⟨fun _ hnone => (Option.not_mem_none _ hnone).elim, htaken⟩

theorem Progress.Starts.nothing (q : Nat → Prop) : Progress.Starts q {} :=
  .closed fun _ hnil => absurd hnil List.not_mem_nil

/-- A token that is swallowed by an escaped identifier need not start at such an offset. -/
theorem Progress.Starts.stepped {q : Nat → Prop} (h : progress.Starts q)
    (htoken : progress.opening = none → q token.span.start)
    (hstepped : Stepped pass token progress progress') : progress'.Starts q := by
  cases hstepped with
  | comment => exact .closed h.tokens
  | opening =>
      constructor
      · intro opening hopening
        cases hopening
        exact htoken rfl
      · exact h.tokens
  | plain => exact .closed (List.forall_mem_cons.2 ⟨htoken rfl, h.tokens⟩)
  | closing hright hfuse =>
      refine .closed (List.forall_mem_cons.2 ⟨?_, h.tokens⟩)
      rw [(eq_of_fuse hfuse).2]
      exact h.opening _ rfl
  | inside => exact h

theorem Progress.Starts.foldlM {q : Nat → Prop} (h : progress.Starts q)
    (htokens : ∀ token ∈ tokens, q token.span.start)
    (hfold : tokens.foldlM pass.step progress = .ok progress') : progress'.Starts q :=
  Pass.foldlM_invariant
    (fun token htoken _ _ hstepped hbefore =>
      hbefore.stepped (fun _ => htokens token htoken) hstepped)
    h hfold

theorem Progress.Starts.finish {q : Nat → Prop} {result : Normalized} (h : progress.Starts q)
    (hfinish : pass.finish progress = .ok result) :
    ∀ token ∈ result.tokens, q token.span.start := by
  obtain ⟨-, rfl⟩ := Pass.finish_eq_ok.1 hfinish
  exact fun token htoken => h.tokens token (List.mem_reverse.1 htoken)

/-! ## Behind the comment -/

/-- The pass has come equally far behind a place, once with a comment of the given text there;
`base` are the comments before that place. -/
structure InStep (front inserted : List Char) (text : String) (base : List String)
    (progress progress' : Progress) : Prop where
  opening : Option.Rel (fun a b => Shifted inserted.length a b ∧ Follows a front.length)
    progress.opening progress'.opening
  tokens : List.Forall₂ Token.SameText progress.tokens progress'.tokens
  comments : ∃ later, progress.comments = later ++ base ∧ progress'.comments = later ++ text :: base

variable {text : String} {base : List String}

theorem InStep.step {token' : Token} (h : InStep front inserted text base progress progress')
    (htoken : Shifted inserted.length token token') (hfollows : Follows token front.length) :
    Together (InStep front inserted text base)
      ((pass.on (front ++ back)).step progress token)
      ((pass.on (front ++ (inserted ++ back))).step progress' token') := by
  obtain ⟨opening, taken, comments⟩ := progress
  obtain ⟨opening', taken', comments'⟩ := progress'
  obtain ⟨hopening, htaken, later, hlater, hlater'⟩ := h
  unfold Pass.step
  dsimp only at hopening htaken hlater hlater'
  cases hopening with
  | none =>
      dsimp only
      rw [← htoken.type, Pass.leftType_on, Pass.leftType_on]
      by_cases hcomment : token.type.isComment = true
      · rw [if_pos hcomment, if_pos hcomment]
        refine .ok ⟨.none, htaken, token.text :: later, ?_, ?_⟩
        · rw [hlater, List.cons_append]
        · rw [hlater', ← htoken.text, List.cons_append]
      rw [if_neg hcomment, if_neg hcomment]
      by_cases hleft : token.type = pass.leftType
      · rw [if_pos hleft, if_pos hleft]
        exact .ok ⟨.some ⟨htoken, hfollows⟩, htaken, later, hlater, hlater'⟩
      · rw [if_neg hleft, if_neg hleft]
        exact .ok ⟨.none, .cons htoken.sameText htaken, later, hlater, hlater'⟩
  | some hopening =>
      dsimp only
      rw [← htoken.type, Pass.rightType_on, Pass.rightType_on]
      by_cases hright : token.type = pass.rightType
      · rw [if_pos hright, if_pos hright]
        refine (together_fuse_shifted hopening.1 htoken hopening.2).bind
          fun fused fused' hfused => ?_
        exact .ok ⟨.none, .cons hfused htaken, later, hlater, hlater'⟩
      · rw [if_neg hright, if_neg hright]
        exact .ok ⟨.some hopening, htaken, later, hlater, hlater'⟩

theorem InStep.foldlM {tokens' : List Token}
    (h : InStep front inserted text base progress progress')
    (htokens : List.Forall₂ (Shifted inserted.length) tokens tokens')
    (hfollows : ∀ token ∈ tokens, Follows token front.length) :
    Together (InStep front inserted text base)
      (tokens.foldlM (pass.on (front ++ back)).step progress)
      (tokens'.foldlM (pass.on (front ++ (inserted ++ back))).step progress') := by
  induction htokens generalizing progress progress' with
  | nil => exact .ok h
  | cons htoken _ ih =>
      rw [List.forall_mem_cons] at hfollows
      rw [List.foldlM_cons, List.foldlM_cons]
      exact (h.step htoken hfollows.1).bind fun _ _ hnext => ih hnext hfollows.2

/-- What the pass gives for a text, and for the same text with a comment in it that comes behind the
comments `earlier`. -/
structure SameBut (earlier : List String) (text : String) (result result' : Normalized) : Prop where
  tokens : List.Forall₂ Token.SameText result.tokens result'.tokens
  comments : ∃ later,
    result.comments = earlier ++ later ∧ result'.comments = earlier ++ text :: later

theorem InStep.finish (h : InStep front inserted text base progress progress') :
    Together (SameBut base.reverse text) ((pass.on (front ++ back)).finish progress)
      ((pass.on (front ++ (inserted ++ back))).finish progress') := by
  obtain ⟨opening, taken, comments⟩ := progress
  obtain ⟨opening', taken', comments'⟩ := progress'
  obtain ⟨hopening, htaken, later, hlater, hlater'⟩ := h
  dsimp only at hopening hlater hlater'
  cases hopening with
  | none =>
      refine .ok ⟨List.forall₂_reverse_iff.2 htaken, later.reverse, ?_, ?_⟩
      · simp [hlater]
      · simp [hlater']
  | some => exact .error rfl

/-! ## The whole pass -/

/-- Whatever the pass gives starts where a token that it is given starts. -/
theorem exists_mem_of_mem_run {result : Normalized} (hrun : pass.run tokens = .ok result)
    (htoken : token ∈ result.tokens) : ∃ given ∈ tokens, given.span.start = token.span.start := by
  obtain ⟨last, hfold, hfinish⟩ := except_bind_eq_ok.1 hrun
  have hnothing := Progress.Starts.nothing fun start => ∃ given ∈ tokens, given.span.start = start
  have hlast := hnothing.foldlM (fun given hgiven => ⟨given, hgiven, rfl⟩) hfold
  exact hlast.finish hfinish token htoken

/-- No delimiter is open where a token starts that the pass lets through or fuses. -/
theorem opening_eq_none {source : List Char} {offset : Nat} {before after : List Token}
    {first : Token} {result : Normalized} (hbefore : ∀ token ∈ before, token.span.start < offset)
    (hafter : ∀ token ∈ after, offset < token.span.start)
    (hprogress : before.foldlM (pass.on source).step {} = .ok progress)
    (hrest : (first :: after).foldlM (pass.on source).step progress >>= (pass.on source).finish =
      .ok result)
    (htoken : token ∈ result.tokens) (hstart : token.span.start = offset) :
    progress.opening = none := by
  have hstarts := (Progress.Starts.nothing (· ≠ offset)).foldlM
    (fun token htoken => (hbefore token htoken).ne) hprogress
  cases hopening : progress.opening with
  | none => rfl
  | some opening =>
      obtain ⟨last, hfold, hfinish⟩ := except_bind_eq_ok.1 hrest
      rw [List.foldlM_cons] at hfold
      obtain ⟨next, hstep, hfold⟩ := except_bind_eq_ok.1 hfold
      have hopen : progress.opening = none → first.span.start ≠ offset := by
        rw [hopening]
        exact nofun
      have hlast := (hstarts.stepped hopen (Pass.stepped hstep)).foldlM
        (fun token htoken => (hafter token htoken).ne')
        hfold
      exact (hlast.finish hfinish token htoken hstart).elim

/-- A comment that is put before a token which the pass gives changes nothing but the comments. -/
theorem exists_run_insert {lx : Lexicon} {steps : Nat} {before after after' : List Token}
    {first comment : Token} {result : Normalized}
    (hparts : Parts lx steps front inserted back text before first after comment after')
    (hrun : (pass.on (front ++ back)).run (before ++ first :: after) = .ok result)
    (htoken : token ∈ result.tokens) (hstart : token.span.start = front.length) :
    ∃ earlier result', (pass.on front).run before = .ok earlier ∧
      (pass.on (front ++ (inserted ++ back))).run (before ++ comment :: after') = .ok result' ∧
      SameBut earlier.comments text result result' := by
  rw [Pass.run, List.foldlM_append, bind_assoc] at hrun
  obtain ⟨progress, hprogress, hrest⟩ := except_bind_eq_ok.1 hrun
  have hopening := opening_eq_none (fun token htoken => (hparts.precedes token htoken).start)
    (fun token htoken => (hparts.follows token htoken).start) hprogress hrest htoken hstart
  obtain ⟨opening, taken, comments⟩ := progress
  subst hopening
  rw [foldlM_front hparts.precedes] at hprogress
  have hedited : before.foldlM (pass.on (front ++ (inserted ++ back))).step {} =
      .ok ⟨none, taken, comments⟩ := by
    rw [foldlM_front hparts.precedes, hprogress]
  have hcomment : (pass.on (front ++ (inserted ++ back))).step ⟨none, taken, comments⟩ comment =
      .ok ⟨none, taken, text :: comments⟩ := by
    rw [← hparts.commentText]
    exact if_pos hparts.isComment
  have hinStep : InStep front inserted text comments ⟨none, taken, comments⟩
      ⟨none, taken, text :: comments⟩ :=
    ⟨.none, List.forall₂_same.2 fun _ _ => ⟨rfl, rfl⟩, [], rfl, rfl⟩
  have hfollows : ∀ token ∈ first :: after, Follows token front.length :=
    List.forall_mem_cons.2 ⟨hparts.followsFirst,
      fun token htoken => (hparts.follows token htoken).mono (Nat.le_succ _)⟩
  have htogether : Together (SameBut comments.reverse text)
      ((first :: after).foldlM (pass.on (front ++ back)).step ⟨none, taken, comments⟩ >>=
        (pass.on (front ++ back)).finish)
      (after'.foldlM (pass.on (front ++ (inserted ++ back))).step
        ⟨none, taken, text :: comments⟩ >>=
        (pass.on (front ++ (inserted ++ back))).finish) :=
    (hinStep.foldlM hparts.shifted hfollows).bind fun _ _ hlast => hlast.finish
  rw [hrest] at htogether
  have hwhole : (pass.on (front ++ (inserted ++ back))).run (before ++ comment :: after') =
      after'.foldlM (pass.on (front ++ (inserted ++ back))).step ⟨none, taken, text :: comments⟩ >>=
        (pass.on (front ++ (inserted ++ back))).finish := by
    rw [Pass.run, List.foldlM_append, hedited]
    change ((comment :: after').foldlM _ _ >>= _) = _
    rw [List.foldlM_cons, hcomment]
    rfl
  rw [← hwhole] at htogether
  generalize (pass.on (front ++ (inserted ++ back))).run _ = edited at htogether ⊢
  cases htogether with
  | ok hsame =>
      refine ⟨⟨taken.reverse, comments.reverse⟩, _, ?_, rfl, hsame⟩
      rw [Pass.run, hprogress]
      rfl

end Escape

end SqlTree

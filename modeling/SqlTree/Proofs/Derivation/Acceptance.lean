import SqlTree.Proofs.Derivation.Units

/-!
# The grammar reads every derivation

By induction on the derivation: with as many nesting levels left as there are tokens, and lists
allowed as long, the tokens of a phrase are read as the tree that they stand for.  In particular the
`AND` between two bounds is never taken as a conjunction, and no conjunction as part of a bound.
-/

namespace SqlTree

open SqlTree.Parser

/-- Tokens that a number of nesting levels and the caps of the settings are enough for, with
keywords spelled as a lexer gives them. -/
structure Fits (settings : Settings) (levels : Nat) (tokens : List Token) : Prop where
  levels : tokens.length ≤ levels
  iterations : tokens.length ≤ settings.maxIterations
  spelled : ∀ token ∈ tokens, token.Spelled

namespace Fits

variable {settings : Settings} {n : Nat} {token : Token} {tokens part : List Token}

theorem sublist (h : Fits settings n tokens) (hpart : part.Sublist tokens) :
    Fits settings n part := by
  constructor
  · exact Nat.le_trans hpart.length_le h.levels
  · exact Nat.le_trans hpart.length_le h.iterations
  · exact fun t ht => h.spelled t (hpart.subset ht)

/-- Behind a token one level less is enough. -/
theorem inner (h : Fits settings (n + 1) (token :: tokens)) (hpart : part.Sublist tokens) :
    Fits settings n part := by
  have hle := hpart.length_le
  have hlevels := h.levels
  have hiterations := h.iterations
  rw [List.length_cons] at hlevels hiterations
  constructor
  · omega
  · omega
  · exact fun t ht => h.spelled t (List.mem_cons_of_mem _ (hpart.subset ht))

theorem head (h : Fits settings n (token :: tokens)) : ∃ m, n = m + 1 ∧ token.Spelled := by
  have hlevels := h.levels
  rw [List.length_cons] at hlevels
  exact ⟨n - 1, by omega, h.spelled token (List.mem_cons_self ..)⟩

theorem left (h : Fits settings n (tokens ++ part)) : Fits settings n tokens :=
  h.sublist (List.sublist_append_left tokens part)

theorem right (h : Fits settings n (tokens ++ part)) : Fits settings n part :=
  h.sublist (List.sublist_append_right tokens part)

theorem tail (h : Fits settings n (token :: tokens)) : Fits settings n tokens :=
  h.sublist (List.sublist_cons_self token tokens)

/-- The words up to one of them are spelled as a lexer gives them. -/
theorem words (h : Fits settings n (part ++ token :: tokens)) :
    ∀ t ∈ part ++ [token], t.Spelled := by
  intro t ht
  apply h.spelled t
  rcases List.mem_append.1 ht with hpart | htoken
  · exact List.mem_append_left _ hpart
  · rw [List.mem_singleton.1 htoken]
    exact List.mem_append_right _ (List.mem_cons_self ..)

end Fits

/-! ## Parts of lists and branches -/

theorem sublist_flatMap_of_mem {α β : Type} {f : α → List β} {xs : List α} {x : α}
    (hx : x ∈ xs) : (f x).Sublist (xs.flatMap f) := by
  rw [List.flatMap_def]
  exact List.sublist_flatten_of_mem (List.mem_map_of_mem hx)

theorem Items.sublist_tokens {items : Items} {p : Phrase} (hp : p ∈ items.phrases) :
    p.tokens.Sublist items.tokens := by
  rcases List.mem_cons.1 hp with rfl | hp
  · exact List.sublist_append_left _ _
  · obtain ⟨item, hitem, rfl⟩ := List.mem_map.1 hp
    have hthis : item.2.tokens.Sublist (item.1 :: item.2.tokens) := List.sublist_cons_self _ _
    have hlist := sublist_flatMap_of_mem (f := fun i : Token × Phrase => i.1 :: i.2.tokens) hitem
    exact (hthis.trans hlist).trans (List.sublist_append_right _ _)

theorem Items.length_further_le (items : Items) : items.further.length ≤ items.tokens.length := by
  have hfurther : ∀ further : List (Token × Phrase),
      further.length ≤ (further.flatMap fun item => item.1 :: item.2.tokens).length := by
    intro further
    induction further with
    | nil => exact Nat.le_refl 0
    | cons item further ih =>
        rw [List.flatMap_cons, List.length_append, List.length_cons, List.length_cons]
        omega
  have hle := hfurther items.further
  rw [Items.tokens, List.length_append]
  omega

/-- What fits the tokens of a list and the token that closes it. -/
theorem Fits.items {settings : Settings} {n : Nat} {closing : Token} {items : Option Items}
    (h : Fits settings n (items.elim [] Items.tokens ++ [closing])) :
    ∀ list ∈ items, Fits settings n list.tokens ∧
      list.further.length < settings.maxIterations := by
  rintro list rfl
  have hle := list.length_further_le
  have hiterations := h.iterations
  rw [List.length_append] at hiterations
  refine ⟨h.left, ?_⟩
  exact Nat.lt_of_lt_of_le (Nat.lt_succ_of_le hle) hiterations

theorem Branch.sublist_condition (b : Branch) : b.condition.tokens.Sublist b.tokens :=
  (List.sublist_append_left _ _).cons _

theorem Branch.sublist_result (b : Branch) : b.result.tokens.Sublist b.tokens :=
  (((List.sublist_cons_self _ _).trans (List.sublist_append_right _ _))).cons _

theorem Branch.length_le (branches : List Branch) :
    branches.length ≤ (branches.flatMap Branch.tokens).length := by
  induction branches with
  | nil => exact Nat.le_refl 0
  | cons b branches ih =>
      rw [List.flatMap_cons, List.length_append, List.length_cons, Branch.tokens, List.length_cons]
      omega

/-! ## The induction -/

/-- The grammar reads the phrases of all layers. -/
theorem Derives.accepted {settings : Settings} {layer : Layer} {tokens : List Token} {e : Expr}
    (h : Derives settings.tag layer tokens e) {n : Nat} (hfits : Fits settings n tokens) :
    Accepted settings n layer tokens e := by
  induction h generalizing n with
  | first _ ih => exact (ih hfits).first
  | link _ hsign _ ihLeft ihRight =>
      have hspelled := hfits.right.spelled _ (List.mem_cons_self ..)
      exact (ihLeft hfits.left).link hsign (ihRight hfits.right.tail) hspelled
  | positive predicate ih => exact (ih hfits).positive predicate.begins
  | not hword _ ih =>
      obtain ⟨n, rfl, -⟩ := hfits.head
      exact (ih (hfits.inner (List.Sublist.refl _))).not hword
  | unclosed _ ih => exact (ih hfits).unclosed
  | is _ hword hnot htruth ih =>
      have hspelled := hfits.right.spelled _ (List.mem_cons_self ..)
      exact (ih hfits.left).is hword hnot htruth hspelled
  | between _ hnot hword _ hand _ ih ihLow ihHigh =>
      have hbounds := hfits.right.right.tail
      have hconjunct := hbounds.right.spelled _ (List.mem_cons_self ..)
      exact (ih hfits.left).between hnot hword (ihLow hbounds.left) hand
        (ihHigh hbounds.right.tail) hfits.right.words hconjunct
  | @membership _ _ _ _ _ _ items _ hnot hword hopening hcommas targets hclosing ih ihTargets =>
      have hlist := hfits.right.right.tail
      have hitems := hlist.tail.left
      have hcount : items.further.length < settings.maxIterations := by
        have hle := items.length_further_le
        have hiterations := hlist.iterations
        rw [List.length_cons, List.length_append] at hiterations
        omega
      have htargets : ∀ p ∈ items.phrases, Accepted settings n (.chain .sum) p.tokens p.tree :=
        fun p hp => ihTargets p hp (hitems.sublist (Items.sublist_tokens hp))
      exact (ih hfits.left).membership hnot hword hopening hcommas htargets
        (targets _ (List.mem_cons_self ..)).begins hcount hclosing hfits.right.words
  | regexWord _ hnot hword _ ih ihRight =>
      exact (ih hfits.left).regexWord hnot hword (ihRight hfits.right.right.tail) hfits.right.words
  | regexSign _ hsign _ ih ihRight =>
      have hspelled := hfits.right.spelled _ (List.mem_cons_self ..)
      exact (ih hfits.left).regexSign hsign (ihRight hfits.right.tail) hspelled
  | single _ ih => exact (ih hfits).single
  | compare _ hsign _ ih ihRight =>
      have hspelled := hfits.right.spelled _ (List.mem_cons_self ..)
      exact (ih hfits.left).compare hsign (ihRight hfits.right.tail) hspelled
  | like _ hnot hword _ ih ihRight =>
      exact (ih hfits.left).like hnot hword (ihRight hfits.right.right.tail) hfits.right.words
  | unsigned unit ih =>
      obtain ⟨token, more, rfl⟩ := unit.begins.exists_cons
      obtain ⟨n, rfl, -⟩ := hfits.head
      exact (ih hfits).unsigned unit.begins
  | negate hsign hnumber operand ih =>
      obtain ⟨n, rfl, -⟩ := hfits.head
      exact (ih (hfits.inner (List.Sublist.refl _))).negate hsign operand.begins hnumber
  | negativeNumber hsign hnumber =>
      obtain ⟨n, rfl, -⟩ := hfits.head
      exact accepted_negativeNumber hsign hnumber
  | literal htoken => exact accepted_literal htoken
  | column hname hparts hcolumn => exact accepted_column hname hparts hcolumn
  | parameter hsigns hname => exact accepted_parameter hsigns hname
  | call hname hopening hdistinct hcommas each hclosing ih =>
      obtain ⟨n, rfl, -⟩ := hfits.head
      have hlist := (hfits.inner (List.Sublist.refl _)).tail.right.items
      refine accepted_call hname hopening hdistinct ?_ ?_ hcommas ?_ hclosing
      · intro list hmem p hp
        exact ih list hmem p hp ((hlist list hmem).1.sublist (Items.sublist_tokens hp))
      · exact fun list hmem => (each list hmem _ (List.mem_cons_self ..)).begins
      · exact fun list hmem => (hlist list hmem).2
  | caseOf hword subject hbranches hwords conditions results helse default hending ihSubject
      ihConditions ihResults ihDefault =>
      obtain ⟨n, rfl, -⟩ := hfits.head
      have hinner := hfits.inner (List.Sublist.refl _)
      have htail := hinner.right.right
      have hbranchesFit := hinner.right.left
      have hbranch : ∀ b ∈ _, Fits settings n (Branch.tokens b) :=
        fun b hb => hbranchesFit.sublist (sublist_flatMap_of_mem hb)
      have hcount := Nat.le_trans (Branch.length_le _) hbranchesFit.iterations
      refine accepted_caseOf hword ?_ ?_ hbranches hwords ?_ ?_ helse ?_ hending hcount ?_ ?_ ?_
      · rintro p rfl
        exact ihSubject p rfl hinner.left
      · exact fun p hp => (subject p hp).begins
      · exact fun b hb => ihConditions b hb ((hbranch b hb).sublist b.sublist_condition)
      · exact fun b hb => ihResults b hb ((hbranch b hb).sublist b.sublist_result)
      · rintro other rfl
        exact ihDefault other rfl htail.left.tail
      · exact fun b hb t ht => (hbranch b hb).spelled t ht
      · rintro other rfl
        exact htail.spelled _ (List.mem_cons_self ..)
      · exact htail.right.spelled _ (List.mem_cons_self ..)
  | array hword hopening hcommas each hclosing ih =>
      obtain ⟨n, rfl, -⟩ := hfits.head
      have hlist := (hfits.inner (List.Sublist.refl _)).tail.items
      refine accepted_array hword hopening ?_ ?_ hcommas ?_ hclosing
      · intro list hmem p hp
        exact ih list hmem p hp ((hlist list hmem).1.sublist (Items.sublist_tokens hp))
      · exact fun list hmem => (each list hmem _ (List.mem_cons_self ..)).begins
      · exact fun list hmem => (hlist list hmem).2
  | parenthesized hopening inner hclosing ih =>
      obtain ⟨n, rfl, -⟩ := hfits.head
      have hinner := ih (hfits.inner (List.sublist_append_left _ _))
      exact accepted_parenthesized hopening hinner inner.begins hclosing

/-- What an expression is read as from its first token to its last. -/
theorem Derives.expression_eq_ok {settings : Settings} {tokens : List Token} {e : Expr}
    (h : Derives settings.tag (.chain .disjunction) tokens e)
    (hfits : Fits settings settings.maxDepth tokens) :
    settings.expression (Cursor.start tokens) = .ok e ⟨tokens.reverse, [], 0⟩ := by
  have hread := (h.accepted hfits).expression [] .nil
  have hrun := hread.run [] 0
  rw [List.append_nil, List.append_nil] at hrun
  exact hrun

/-- Tokens stand for one tree at most. -/
theorem Derives.unique {tag : Tag} {tokens : List Token} {e e' : Expr}
    (h : Derives tag (.chain .disjunction) tokens e)
    (h' : Derives tag (.chain .disjunction) tokens e')
    (hspelled : ∀ token ∈ tokens, token.Spelled) : e = e' := by
  let settings : Settings := ⟨tag, none, tokens.length + 1, tokens.length + 1⟩
  have hfits : Fits settings settings.maxDepth tokens := ⟨Nat.le_succ _, Nat.le_succ _, hspelled⟩
  have hfirst : settings.expression (Cursor.start tokens) = _ := h.expression_eq_ok hfits
  have hsecond : settings.expression (Cursor.start tokens) = _ := h'.expression_eq_ok hfits
  rw [hfirst] at hsecond
  cases hsecond
  rfl

end SqlTree

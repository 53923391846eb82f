import SqlTree.Proofs.Passing
import SqlTree.Proofs.Reaching

/-!
# The segments of the tokens

The pass between the lexer and the grammar splits its tokens into segments: comments, tokens that
are let through, and stretches from a left delimiter to the first right delimiter behind it.
Every list of tokens has such segments up to its end or up to a left delimiter that begins none
(`Escape.exists_split`), and what the pass does with each segment settles what it does with the
list.
-/

namespace SqlTree

namespace Escape

/-- Tokens that the pass takes together. -/
inductive Segment where
  /-- A comment. -/
  | comment (token : Token)
  /-- A token outside escaped identifiers. -/
  | plain (token : Token)
  /-- The tokens of an escaped identifier, from one delimiter to the other. -/
  | escaped (opening : Token) (inside : List Token) (closing : Token)
  deriving DecidableEq, Repr

/-- What stands in the source between two delimiters. -/
def Pass.body (pass : Pass) (opening closing : Token) : List Char :=
  (pass.source.extract opening.span.stop closing.span.start).toList

namespace Segment

def tokens : Segment → List Token
  | .comment token | .plain token => [token]
  | .escaped opening inside closing => opening :: inside ++ [closing]

/-- The token that the pass gives for a segment. -/
def given? (pass : Pass) : Segment → Option Token
  | .comment _ => none
  | .plain token => some token
  | .escaped opening _ closing =>
    some ⟨.quotedIdentifier,
      String.ofList (pass.delimiters.left :: pass.body opening closing ++ [pass.delimiters.right]),
      ⟨opening.span.start, closing.span.stop, opening.span.line, opening.span.column⟩⟩

/-- The comment that the pass lifts out of a segment. -/
def comment? : Segment → Option String
  | .comment token => some token.text
  | .plain _ | .escaped .. => none

/-- The tokens make up a segment of their kind, and what an escaped identifier holds is a stretch of
the source that is not blank. -/
def Sound (pass : Pass) : Segment → Prop
  | .comment token => token.type.isComment = true
  | .plain token => token.type.isComment = false ∧ token.type ≠ pass.leftType
  | .escaped opening inside closing =>
    opening.type = pass.leftType ∧ (∀ token ∈ inside, token.type ≠ pass.rightType) ∧
      closing.type = pass.rightType ∧
      (opening.span.stop ≤ closing.span.start ∧ closing.span.start ≤ pass.source.size) ∧
      Text.allBlank (pass.body opening closing) = false

end Segment

/-- Tokens that are sound segments up to a rest. -/
structure Split (pass : Pass) (tokens : List Token) (segments : List Segment)
    (rest : List Token) : Prop where
  tokens : tokens = segments.flatMap Segment.tokens ++ rest
  sound : ∀ segment ∈ segments, segment.Sound pass

/-- Tokens that begin with no sound segment, and the error that the pass ends with there. -/
inductive Breaks (pass : Pass) : List Token → Error → Prop where
  /-- No right delimiter follows the left one. -/
  | unclosed {opening : Token} {behind : List Token} (hleft : opening.type = pass.leftType)
      (hbehind : ∀ token ∈ behind, token.type ≠ pass.rightType) :
      Breaks pass (opening :: behind)
        (.lexical (.unclosedIdentifier pass.delimiters.left) opening.span.line opening.span.column)
  /-- The delimiters do not hold a stretch of the source. -/
  | outside {opening closing : Token} {inside behind : List Token}
      (hleft : opening.type = pass.leftType)
      (hinside : ∀ token ∈ inside, token.type ≠ pass.rightType)
      (hright : closing.type = pass.rightType)
      (hrange : ¬(opening.span.stop ≤ closing.span.start ∧
        closing.span.start ≤ pass.source.size)) :
      Breaks pass (opening :: (inside ++ closing :: behind)) (.internal .spanOutsideSource)
  /-- The delimiters hold nothing but blanks. -/
  | blank {opening closing : Token} {inside behind : List Token}
      (hleft : opening.type = pass.leftType)
      (hinside : ∀ token ∈ inside, token.type ≠ pass.rightType)
      (hright : closing.type = pass.rightType)
      (hrange : opening.span.stop ≤ closing.span.start ∧ closing.span.start ≤ pass.source.size)
      (hblank : Text.allBlank (pass.body opening closing) = true) :
      Breaks pass (opening :: (inside ++ closing :: behind))
        (.lexical .emptyIdentifier opening.span.line opening.span.column)

variable {pass : Pass} {opening closing : Token} {tokens rest inside taken : List Token}
  {comments : List String} {segments : List Segment} {result : Normalized} {e : Error}

/-! ## One escaped identifier -/

theorem fuse_of_range (inside : List Token)
    (hrange : opening.span.stop ≤ closing.span.start ∧ closing.span.start ≤ pass.source.size)
    (hblank : Text.allBlank (pass.body opening closing) = false) :
    ∃ fused, fuse pass.delimiters pass.source opening closing = .ok fused ∧
      (Segment.escaped opening inside closing).given? pass = some fused := by
  rw [Pass.body] at hblank
  rw [fuse, slice, if_pos hrange]
  simp only [hblank]
  exact ⟨_, rfl, rfl⟩

theorem fuse_of_not_range
    (hrange : ¬(opening.span.stop ≤ closing.span.start ∧
      closing.span.start ≤ pass.source.size)) :
    fuse pass.delimiters pass.source opening closing = .error (.internal .spanOutsideSource) := by
  rw [fuse, slice, if_neg hrange]

theorem fuse_of_blank
    (hrange : opening.span.stop ≤ closing.span.start ∧ closing.span.start ≤ pass.source.size)
    (hblank : Text.allBlank (pass.body opening closing) = true) :
    fuse pass.delimiters pass.source opening closing =
      .error (.lexical .emptyIdentifier opening.span.line opening.span.column) := by
  rw [Pass.body] at hblank
  rw [fuse, slice, if_pos hrange]
  simp only [hblank]
  rfl

/-- From a left delimiter the pass goes to the first right one and fuses the two. -/
theorem foldlM_of_delimited (hcomment : pass.leftType.isComment = false)
    (hleft : opening.type = pass.leftType)
    (hinside : ∀ token ∈ inside, token.type ≠ pass.rightType)
    (hright : closing.type = pass.rightType) :
    (opening :: (inside ++ closing :: rest)).foldlM pass.step ⟨none, taken, comments⟩ =
      fuse pass.delimiters pass.source opening closing >>= fun fused =>
        rest.foldlM pass.step ⟨none, fused :: taken, comments⟩ := by
  rw [foldlM_cons_of_ok (step_of_opening (hleft ▸ hcomment) hleft),
    foldlM_append_of_ok (foldlM_step_of_open rfl hinside), List.foldlM_cons]
  simp only [Pass.step]
  rw [if_pos hright]
  cases fuse pass.delimiters pass.source opening closing with
  | error e => rfl
  | ok fused => rfl

/-! ## A list of tokens -/

namespace Split

theorem nil (pass : Pass) (tokens : List Token) : Split pass tokens [] tokens :=
  ⟨rfl, List.forall_mem_nil _⟩

theorem cons {segment : Segment} (hsegment : segment.Sound pass)
    (hsplit : Split pass tokens segments rest) :
    Split pass (segment.tokens ++ tokens) (segment :: segments) rest := by
  refine ⟨?_, List.forall_mem_cons.2 ⟨hsegment, hsplit.sound⟩⟩
  rw [List.flatMap_cons, List.append_assoc, ← hsplit.tokens]

end Split

/-- Tokens split into sound segments up to their end or up to a place where none begins. -/
theorem exists_split (pass : Pass) (tokens : List Token) :
    ∃ segments rest, Split pass tokens segments rest ∧ (rest = [] ∨ ∃ e, Breaks pass rest e) := by
  induction hlength : tokens.length using Nat.strong_induction_on generalizing tokens with
  | _ n ih =>
  -- Behind a sound segment there are fewer tokens.
  have hcons : ∀ (segment : Segment) (behind : List Token), segment.Sound pass →
      behind.length < n → ∃ segments rest, Split pass (segment.tokens ++ behind) segments rest ∧
        (rest = [] ∨ ∃ e, Breaks pass rest e) := by
    intro segment behind hsegment hshorter
    obtain ⟨segments, rest, hsplit, hrest⟩ := ih _ hshorter behind rfl
    exact ⟨segment :: segments, rest, hsplit.cons hsegment, hrest⟩
  cases tokens with
  | nil => exact ⟨[], [], .nil pass [], .inl rfl⟩
  | cons token behind =>
      have hshorter : behind.length < n := by
        rw [← hlength, List.length_cons]
        exact Nat.lt_succ_self _
      by_cases hleft : token.type = pass.leftType
      case neg =>
        cases hcomment : token.type.isComment with
        | true => exact hcons (.comment token) behind hcomment hshorter
        | false => exact hcons (.plain token) behind ⟨hcomment, hleft⟩ hshorter
      cases hfind : behind.find? (fun t => decide (t.type = pass.rightType)) with
      | none =>
          have hbehind : ∀ t ∈ behind, t.type ≠ pass.rightType := by
            simpa using hfind
          exact ⟨[], _, .nil pass _, .inr ⟨_, .unclosed hleft hbehind⟩⟩
      | some closing =>
          obtain ⟨hright, inside, behind', rfl, hinside⟩ := List.find?_eq_some_iff_append.1 hfind
          have hright : closing.type = pass.rightType := of_decide_eq_true hright
          have hinside : ∀ t ∈ inside, t.type ≠ pass.rightType := by
            simpa using hinside
          by_cases hrange : token.span.stop ≤ closing.span.start ∧
              closing.span.start ≤ pass.source.size
          case neg => exact ⟨[], _, .nil pass _, .inr ⟨_, .outside hleft hinside hright hrange⟩⟩
          cases hblank : Text.allBlank (pass.body token closing) with
          | true => exact ⟨[], _, .nil pass _, .inr ⟨_, .blank hleft hinside hright hrange hblank⟩⟩
          | false =>
              rw [List.length_append, List.length_cons] at hshorter
              have hescaped := hcons (.escaped token inside closing) behind'
                ⟨hleft, hinside, hright, hrange, hblank⟩ (by omega)
              simpa [Segment.tokens] using hescaped

/-- The pass takes sound segments one after the other. -/
theorem foldlM_of_sound (hcomment : pass.leftType.isComment = false)
    (hsound : ∀ segment ∈ segments, segment.Sound pass) :
    (segments.flatMap Segment.tokens ++ rest).foldlM pass.step ⟨none, taken, comments⟩ =
      rest.foldlM pass.step ⟨none, (segments.filterMap (Segment.given? pass)).reverse ++ taken,
        (segments.filterMap Segment.comment?).reverse ++ comments⟩ := by
  induction segments generalizing taken comments with
  | nil => rfl
  | cons segment segments ih =>
      rw [List.forall_mem_cons] at hsound
      obtain ⟨hsegment, hsound⟩ := hsound
      rw [List.flatMap_cons, List.append_assoc]
      cases segment with
      | comment token =>
          have hstep : pass.step ⟨none, taken, comments⟩ token =
              .ok ⟨none, taken, token.text :: comments⟩ := if_pos hsegment
          have hgiven : (Segment.comment token).given? pass = none := rfl
          have hlifted : (Segment.comment token).comment? = some token.text := rfl
          rw [Segment.tokens, List.singleton_append, foldlM_cons_of_ok hstep, ih hsound,
            List.filterMap_cons_none hgiven, List.filterMap_cons_some hlifted, List.reverse_cons,
            List.append_assoc, List.singleton_append]
      | plain token =>
          have hgiven : (Segment.plain token).given? pass = some token := rfl
          have hlifted : (Segment.plain token).comment? = none := rfl
          rw [Segment.tokens, List.singleton_append,
            foldlM_cons_of_ok (step_of_plain hsegment.1 hsegment.2), ih hsound,
            List.filterMap_cons_some hgiven, List.filterMap_cons_none hlifted, List.reverse_cons,
            List.append_assoc, List.singleton_append]
      | escaped opening inside closing =>
          obtain ⟨hleft, hinside, hright, hrange, hblank⟩ := hsegment
          obtain ⟨fused, hfuse, hgiven⟩ := fuse_of_range inside hrange hblank
          have hlifted : (Segment.escaped opening inside closing).comment? = none := rfl
          rw [Segment.tokens, List.cons_append, List.cons_append, List.append_assoc,
            List.singleton_append, foldlM_of_delimited hcomment hleft hinside hright, hfuse]
          dsimp only [bind, Except.bind]
          rw [ih hsound, List.filterMap_cons_some hgiven, List.filterMap_cons_none hlifted,
            List.reverse_cons, List.append_assoc, List.singleton_append]

/-- Sound segments up to the end: the pass gives their tokens and their comments. -/
theorem Split.run_eq_ok (hcomment : pass.leftType.isComment = false)
    (hsplit : Split pass tokens segments []) :
    pass.run tokens =
      .ok ⟨segments.filterMap (Segment.given? pass), segments.filterMap Segment.comment?⟩ := by
  rw [Pass.run, hsplit.tokens, foldlM_of_sound hcomment hsplit.sound, List.append_nil,
    List.append_nil]
  refine congrArg Except.ok ?_
  rw [List.reverse_reverse, List.reverse_reverse]

/-- Where no segment begins, the pass ends with the error. -/
theorem Breaks.foldlM_eq_error (hcomment : pass.leftType.isComment = false)
    (hbreaks : Breaks pass rest e) :
    rest.foldlM pass.step ⟨none, taken, comments⟩ >>= pass.finish = .error e := by
  cases hbreaks with
  | unclosed hleft hbehind =>
      rw [foldlM_cons_of_ok (step_of_opening (hleft ▸ hcomment) hleft),
        foldlM_step_of_open rfl hbehind]
      rfl
  | outside hleft hinside hright hrange =>
      rw [foldlM_of_delimited hcomment hleft hinside hright, fuse_of_not_range hrange]
      rfl
  | blank hleft hinside hright hrange hblank =>
      rw [foldlM_of_delimited hcomment hleft hinside hright, fuse_of_blank hrange hblank]
      rfl

theorem Split.run_eq_error (hcomment : pass.leftType.isComment = false)
    (hsplit : Split pass tokens segments rest) (hbreaks : Breaks pass rest e) :
    pass.run tokens = .error e := by
  rw [Pass.run, hsplit.tokens, foldlM_of_sound hcomment hsplit.sound]
  exact hbreaks.foldlM_eq_error hcomment

theorem run_eq_ok_iff (hcomment : pass.leftType.isComment = false) :
    pass.run tokens = .ok result ↔ ∃ segments, Split pass tokens segments [] ∧
      result = ⟨segments.filterMap (Segment.given? pass),
        segments.filterMap Segment.comment?⟩ := by
  constructor
  · intro hrun
    obtain ⟨segments, rest, hsplit, rfl | ⟨e, hbreaks⟩⟩ := exists_split pass tokens
    · rw [hsplit.run_eq_ok hcomment] at hrun
      exact ⟨segments, hsplit, (Except.ok.inj hrun).symm⟩
    · rw [hsplit.run_eq_error hcomment hbreaks] at hrun
      cases hrun
  · rintro ⟨segments, hsplit, rfl⟩
    exact hsplit.run_eq_ok hcomment

theorem run_eq_error_iff (hcomment : pass.leftType.isComment = false) :
    pass.run tokens = .error e ↔
      ∃ segments rest, Split pass tokens segments rest ∧ Breaks pass rest e := by
  constructor
  · intro hrun
    obtain ⟨segments, rest, hsplit, rfl | ⟨e', hbreaks⟩⟩ := exists_split pass tokens
    · rw [hsplit.run_eq_ok hcomment] at hrun
      cases hrun
    · rw [hsplit.run_eq_error hcomment hbreaks] at hrun
      cases hrun
      exact ⟨segments, rest, hsplit, hbreaks⟩
  · rintro ⟨segments, rest, hsplit, hbreaks⟩
    exact hsplit.run_eq_error hcomment hbreaks

/-- What the pass gives for a sound segment is neither a comment nor a left delimiter. -/
theorem Segment.Sound.of_given? {segment : Segment} {token : Token}
    (hquoted : pass.leftType ≠ .quotedIdentifier) (hsegment : segment.Sound pass)
    (hgiven : segment.given? pass = some token) :
    token.type.isComment = false ∧ token.type ≠ pass.leftType := by
  cases segment with
  | comment => cases hgiven
  | plain =>
      cases hgiven
      exact hsegment
  | escaped =>
      cases hgiven
      exact ⟨rfl, hquoted.symm⟩

/-- Tokens without comments and left delimiters pass unchanged. -/
theorem run_of_plain (hcomment : pass.leftType.isComment = false)
    (htokens : ∀ token ∈ tokens, token.type.isComment = false ∧ token.type ≠ pass.leftType) :
    pass.run tokens = .ok ⟨tokens, []⟩ := by
  refine (run_eq_ok_iff hcomment).2 ⟨tokens.map .plain, ⟨?_, ?_⟩, ?_⟩
  · simp [List.flatMap_map, Segment.tokens]
  · simpa [Segment.Sound] using htokens
  · simp [List.filterMap_map, Function.comp_def, Segment.given?, Segment.comment?]

/-! ## A pair of delimiters -/

def Pass.between (delimiters : Delimiters) (leftType rightType : TokenType) (source : String) :
    Pass :=
  ⟨delimiters, leftType, rightType, (Text.unifyNewlines source.toList).toArray⟩

section

variable {delimiters : Delimiters} {leftType rightType : TokenType} {source : String}

/-- An escaped identifier is no delimiter. -/
theorem ne_quotedIdentifier {c : Char} {type : TokenType} (htype : delimiterType? c = some type) :
    type ≠ .quotedIdentifier := by
  unfold delimiterType? at htype
  split at htype <;> cases htype <;> decide

theorem normalize_eq_run (hleft : delimiterType? delimiters.left = some leftType)
    (hright : delimiterType? delimiters.right = some rightType) :
    normalize delimiters source tokens =
      (Pass.between delimiters leftType rightType source).run tokens := by
  rw [normalize, delimiterType_of_some hleft, delimiterType_of_some hright]
  rfl

/-- Normalizing gives tokens if they split into sound segments, and then one for each segment that
is no comment; otherwise it ends with the error of the place where no segment begins.  What it
gives has no comments and no left delimiters, so that normalizing it once more changes nothing. -/
theorem normalize_segments (hleft : delimiterType? delimiters.left = some leftType)
    (hright : delimiterType? delimiters.right = some rightType) (source : String)
    (tokens : List Token) :
    let pass := Pass.between delimiters leftType rightType source
    (∀ result, normalize delimiters source tokens = .ok result ↔
      ∃ segments, Split pass tokens segments [] ∧
        result = ⟨segments.filterMap (Segment.given? pass),
          segments.filterMap Segment.comment?⟩) ∧
    (∀ e, normalize delimiters source tokens = .error e ↔
      ∃ segments rest, Split pass tokens segments rest ∧ Breaks pass rest e) ∧
    ∀ result, normalize delimiters source tokens = .ok result →
      (∀ token ∈ result.tokens, token.type.isComment = false ∧ token.type ≠ leftType) ∧
      normalize delimiters source result.tokens = .ok ⟨result.tokens, []⟩ := by
  intro pass
  have hcomment : pass.leftType.isComment = false := (delimiterType?_ne hleft).1
  have hquoted : pass.leftType ≠ .quotedIdentifier := ne_quotedIdentifier hleft
  simp only [normalize_eq_run hleft hright]
  refine ⟨fun result => run_eq_ok_iff hcomment, fun e => run_eq_error_iff hcomment,
    fun result hresult => ?_⟩
  obtain ⟨segments, hsplit, rfl⟩ := (run_eq_ok_iff hcomment).1 hresult
  have hgiven : ∀ token ∈ segments.filterMap (Segment.given? pass),
      token.type.isComment = false ∧ token.type ≠ leftType := by
    intro token htoken
    obtain ⟨segment, hsegment, hgiven⟩ := List.mem_filterMap.1 htoken
    exact (hsplit.sound segment hsegment).of_given? hquoted hgiven
  exact ⟨hgiven, run_of_plain hcomment hgiven⟩

end

/-- The tokens of a name with a comment in it and another comment behind it. -/
def commentedName : List Token :=
  [⟨.lbracket, "[", ⟨0, 1, 1, 1⟩⟩, ⟨.identifier, "a", ⟨1, 2, 1, 2⟩⟩,
    ⟨.blockComment, "b", ⟨2, 7, 1, 3⟩⟩, ⟨.rbracket, "]", ⟨7, 8, 1, 8⟩⟩,
    ⟨.lineComment, "c", ⟨8, 11, 1, 9⟩⟩]

/-- The comment inside the name stays in its text, and only the other one is lifted out. -/
theorem normalize_segments_commentedName :
    let name : Token := ⟨.quotedIdentifier, "[a/*b*/]", ⟨0, 8, 1, 1⟩⟩
    delimiterType? Dialect.sqlServer.delimiters.left = some .lbracket ∧
      delimiterType? Dialect.sqlServer.delimiters.right = some .rbracket ∧
      normalize Dialect.sqlServer.delimiters "[a/*b*/]--c" commentedName = .ok ⟨[name], ["c"]⟩ ∧
      normalize Dialect.sqlServer.delimiters "[a/*b*/]--c" [name] = .ok ⟨[name], []⟩ := by
  intro name
  have hleft : delimiterType? Dialect.sqlServer.delimiters.left = some .lbracket := rfl
  have hright : delimiterType? Dialect.sqlServer.delimiters.right = some .rbracket := rfl
  obtain ⟨hok, -, hagain⟩ := normalize_segments hleft hright "[a/*b*/]--c" commentedName
  have hsplit : Split (Pass.between Dialect.sqlServer.delimiters .lbracket .rbracket "[a/*b*/]--c")
      commentedName
      [.escaped ⟨.lbracket, "[", ⟨0, 1, 1, 1⟩⟩
          [⟨.identifier, "a", ⟨1, 2, 1, 2⟩⟩, ⟨.blockComment, "b", ⟨2, 7, 1, 3⟩⟩]
          ⟨.rbracket, "]", ⟨7, 8, 1, 8⟩⟩,
        .comment ⟨.lineComment, "c", ⟨8, 11, 1, 9⟩⟩] [] := by
    refine ⟨rfl, List.forall_mem_cons.2 ⟨?_, List.forall_mem_singleton.2 rfl⟩⟩
    exact ⟨rfl, by decide, rfl, by decide +kernel, by decide +kernel⟩
  have hnormalize := (hok ⟨[name], ["c"]⟩).2 ⟨_, hsplit, by decide +kernel⟩
  exact ⟨hleft, hright, hnormalize, (hagain _ hnormalize).2⟩

end Escape

end SqlTree

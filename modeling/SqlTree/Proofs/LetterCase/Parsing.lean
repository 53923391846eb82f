import SqlTree.Proofs.Escaping
import SqlTree.Proofs.LetterCase.Scanning
import SqlTree.Proofs.Likeness.Answer

/-!
# Parsing without regard to case

Two texts that differ in the case of ASCII letters at most have the same tokens once these are
raised, and the grammar cannot tell such tokens apart: it looks at types, and compares words
without regard to case.  So the two texts give the same statement up to the case of its texts, or
the same error up to the case of its message (`Dialect.parse_sameButCase`).
-/

namespace SqlTree

open Text

/-! ## The pass over the tokens -/

structure Delimiters.AreSigns (delimiters : Delimiters) : Prop where
  left : delimiters.left.isAlpha = false
  right : delimiters.right.isAlpha = false

theorem Dialect.delimiters_areSigns (d : Dialect) : d.delimiters.AreSigns := by
  cases d <;> exact ⟨by decide, by decide⟩

def Normalized.raised (result : Normalized) : Normalized :=
  ⟨result.tokens.map Token.raised, result.comments.map upper⟩

namespace Escape

variable {pass : Pass}

def Pass.raised (pass : Pass) : Pass :=
  { pass with source := (Text.raised pass.source.toList).toArray }

def Progress.raised (progress : Progress) : Progress :=
  ⟨progress.opening.map Token.raised, progress.tokens.map Token.raised, progress.comments.map upper⟩

theorem slice_raised (cs : List Char) (start stop : Nat) :
    slice (raised cs).toArray start stop = (slice cs.toArray start stop).map Text.raised := by
  rw [slice_toArray, slice_toArray, length_raised]
  by_cases hinside : start ≤ stop ∧ stop ≤ cs.length
  · rw [if_pos hinside, if_pos hinside, raised, ← List.map_drop, ← List.map_take]
    rfl
  · rw [if_neg hinside, if_neg hinside]
    rfl

theorem fuse_raised {delimiters : Delimiters} (hsigns : delimiters.AreSigns) (source : Array Char)
    (opening closing : Token) :
    fuse delimiters (raised source.toList).toArray opening.raised closing.raised =
      mapResult Error.raised Token.raised (fuse delimiters source opening closing) := by
  have hslice : slice (raised source.toList).toArray opening.raised.span.stop
      closing.raised.span.start =
        (slice source opening.span.stop closing.span.start).map Text.raised :=
    slice_raised source.toList opening.span.stop closing.span.start
  unfold fuse
  rw [hslice]
  cases slice source opening.span.stop closing.span.start with
  | none => rfl
  | some body =>
      dsimp only [Option.map_some]
      rw [allBlank_raised]
      cases allBlank body with
      | true => rfl
      | false =>
          have htext : upper (String.ofList (delimiters.left :: body ++ [delimiters.right])) =
              String.ofList (delimiters.left :: Text.raised body ++ [delimiters.right]) := by
            rw [upper_ofList, raised_append, raised_cons, raised_cons, raised_nil,
              toUpper_eq_self hsigns.left, toUpper_eq_self hsigns.right]
          change _ = Except.ok (Token.mk _ (upper _) _)
          rw [htext]
          rfl

/-- Taking a raised token is taking the token. -/
theorem step_raised (hsigns : pass.delimiters.AreSigns) (progress : Progress) (token : Token) :
    pass.raised.step progress.raised token.raised =
      mapResult Error.raised Progress.raised (pass.step progress token) := by
  obtain ⟨opening, tokens, comments⟩ := progress
  unfold Pass.step
  cases opening with
  | none =>
      change (if token.type.isComment = true then _
          else if token.type = pass.leftType then _ else _) =
        mapResult _ _ (if token.type.isComment = true then _ else _)
      split
      · rfl
      split
      · rfl
      · rfl
  | some opening =>
      change (if token.type = pass.rightType then _ else _) =
        mapResult _ _ (if token.type = pass.rightType then _ else _)
      split
      · change fuse pass.delimiters (raised pass.source.toList).toArray opening.raised token.raised
          >>= _ = _
        rw [fuse_raised hsigns]
        exact mapResult_bind fun fused => rfl
      · rfl

theorem foldlM_raised (hsigns : pass.delimiters.AreSigns) (progress : Progress)
    (tokens : List Token) :
    (tokens.map Token.raised).foldlM pass.raised.step progress.raised =
      mapResult Error.raised Progress.raised (tokens.foldlM pass.step progress) := by
  induction tokens generalizing progress with
  | nil => rfl
  | cons token tokens ih =>
      rw [List.map_cons, List.foldlM_cons, List.foldlM_cons, step_raised hsigns]
      exact mapResult_bind ih

theorem finish_raised (progress : Progress) :
    pass.raised.finish progress.raised =
      mapResult Error.raised Normalized.raised (pass.finish progress) := by
  obtain ⟨opening, tokens, comments⟩ := progress
  cases opening with
  | none =>
      change Except.ok (Normalized.mk (tokens.map Token.raised).reverse
        (comments.map upper).reverse)
        = _
      rw [← List.map_reverse, ← List.map_reverse]
      rfl
  | some opening => rfl

theorem run_raised (hsigns : pass.delimiters.AreSigns) (tokens : List Token) :
    pass.raised.run (tokens.map Token.raised) =
      mapResult Error.raised Normalized.raised (pass.run tokens) := by
  have hfold := foldlM_raised hsigns {} tokens
  change (tokens.map Token.raised).foldlM pass.raised.step {} = _ at hfold
  rw [Pass.run, hfold]
  exact mapResult_bind finish_raised

end Escape

/-- Raising a text raises what the grammar is given. -/
theorem Dialect.normalize_upper (d : Dialect) (text : String) :
    d.normalize (upper text) = mapResult Error.raised Normalized.raised (d.normalize text) := by
  have htype :
      ∀ c, Escape.delimiterType c = mapResult Error.raised id (Escape.delimiterType c) := by
    intro c
    unfold Escape.delimiterType
    cases Escape.delimiterType? c <;> rfl
  rw [normalize, tokenize_upper]
  refine mapResult_bind fun tokens => ?_
  unfold SqlTree.normalize
  conv_lhs => rw [htype d.delimiters.left, htype d.delimiters.right]
  refine mapResult_bind fun leftType => mapResult_bind fun rightType => ?_
  rw [toList_upper, unifyNewlines_raised]
  let pass : Escape.Pass :=
    ⟨d.delimiters, leftType, rightType, (unifyNewlines text.toList).toArray⟩
  have hsigns : pass.delimiters.AreSigns := d.delimiters_areSigns
  exact Escape.run_raised hsigns tokens

/-! ## Errors -/

/-- The line and the column of an error that has them. -/
def Error.place? : Error → Option (Nat × Nat)
  | .lexical _ line column | .grammar _ line column => some (line, column)
  | _ => none

/-- Two errors of one class and at one place, with messages that differ in the case of letters at
most. -/
structure Error.SameButCase (e f : Error) : Prop where
  className : e.className = f.className
  place : e.place? = f.place?
  message : sameWord e.message f.message = true

theorem Error.SameButCase.refl (e : Error) : e.SameButCase e :=
  ⟨rfl, rfl, sameWord_iff.2 rfl⟩

theorem LexicalCause.upper_text_raised (cause : LexicalCause) :
    upper cause.raised.text = upper cause.text := by
  cases cause with
  | unexpectedCharacter c =>
      change upper ("Unexpected character: '" ++ String.singleton c.toUpper ++ "'") =
        upper ("Unexpected character: '" ++ String.singleton c ++ "'")
      simp only [upper_append, upper_singleton, Char.toUpper_toUpper_eq_toUpper]
  | _ => rfl

theorem Error.SameButCase.of_raised_eq {e f : Error} (h : e.raised = f.raised) :
    e.SameButCase f := by
  have hclass : ∀ e : Error, e.raised.className = e.className := fun e => by cases e <;> rfl
  have hplace : ∀ e : Error, e.raised.place? = e.place? := fun e => by cases e <;> rfl
  have hmessage : ∀ e : Error, upper e.raised.message = upper e.message := fun e => by
    cases e with
    | lexical cause line column =>
        change upper ("Tokenization" ++ placeText line column ++ cause.raised.text) =
          upper ("Tokenization" ++ placeText line column ++ cause.text)
        rw [upper_append, LexicalCause.upper_text_raised, ← upper_append]
    | _ => rfl
  constructor
  · rw [← hclass, h, hclass]
  · rw [← hplace, h, hplace]
  · rw [sameWord_iff, ← hmessage, h, hmessage]

/-! ## The grammar -/

theorem Token.type_eq_of_raised {a b : Token} (h : a.raised = b.raised) : a.type = b.type :=
  (Token.mk.inj h).1

theorem Token.upper_text_eq_of_raised {a b : Token} (h : a.raised = b.raised) :
    upper a.text = upper b.text :=
  (Token.mk.inj h).2.1

theorem Token.span_eq_of_raised {a b : Token} (h : a.raised = b.raised) : a.span = b.span :=
  (Token.mk.inj h).2.2

def Relabel.raise : Relabel := { text := upper }

/-- The likeness of tokens that differ in the case of letters at most. -/
def Likeness.caseBlind (settings : Settings) : Likeness :=
  ⟨settings, settings, .raise, .raise, fun a b => a.raised = b.raised, fun _ _ => True,
    Error.SameButCase, fun _ => False⟩

namespace Likeness

variable {settings : Settings}

theorem like_caseBlind {a b : String} : (caseBlind settings).Like a b ↔ upper a = upper b :=
  Iff.rfl

theorem LikeFound.upper_text {found found' : Found}
    (h : LikeFound (caseBlind settings) found found') : upper found.text = upper found'.text := by
  cases h with
  | token h => simp only [Found.text, upper_append, like_caseBlind.1 h]
  | endOfInput => rfl

theorem LikeCause.upper_text {cause cause' : GrammarCause}
    (h : LikeCause (caseBlind settings) cause cause') : upper cause.text = upper cause'.text := by
  have hjoined : ∀ {parts parts' : List String}, (caseBlind settings).Like parts parts' →
      upper (".".intercalate parts) = upper (".".intercalate parts') := by
    intro parts parts' hparts
    rw [upper_intercalate, upper_intercalate]
    exact congrArg ((upper ".").intercalate) hparts
  -- after its wording a cause tells what was found or which parts it was
  have hbehind : ∀ {wording text text' : String}, upper text = upper text' →
      upper (wording ++ text) = upper (wording ++ text') := by
    intro wording text text' htext
    rw [upper_append, upper_append, htext]
  have haround : ∀ {wording text text' ending : String}, upper text = upper text' →
      upper (wording ++ text ++ ending) = upper (wording ++ text' ++ ending) := by
    intro wording text text' ending htext
    rw [upper_append, hbehind htext, ← upper_append]
  cases h with
  | expected h => exact hbehind h.upper_text
  | inExpression h => exact haround h.upper_text
  | afterStatement h => exact haround h.upper_text
  | statementStart h => exact hbehind h.upper_text
  | longTableName h => exact hbehind (hjoined h)
  | longColumnName h => exact hbehind (hjoined h)
  | missingIndex => rfl

theorem Beside.place_eq {c d : Cursor} (h : (caseBlind settings).Beside c d) :
    c.place = d.place := by
  obtain ⟨behind, ahead, depth⟩ := c
  obtain ⟨behind', ahead', depth'⟩ := d
  obtain ⟨hbehind, hahead, -⟩ := h
  cases hahead with
  | cons hhead _ => simp only [Cursor.place, Token.span_eq_of_raised hhead]
  | nil =>
      cases hbehind with
      | cons hhead _ => simp only [Cursor.place, Token.span_eq_of_raised hhead]
      | nil => rfl

theorem escaped_raise (text : String) (tag : Tag) :
    (Identifier.escaped text tag).relabel .raise = Identifier.escaped (upper text) tag := by
  have hsingleton : upper ∘ String.singleton = String.singleton ∘ Char.toUpper :=
    funext upper_singleton
  simp only [Identifier.escaped, Identifier.relabel, Relabel.raise, toList_upper, raised,
    ← List.map_tail, List.head?_map, List.getLast?_map, Option.map_map, hsingleton, Option.map_none,
    id_eq]

theorem lawful_caseBlind (settings : Settings) : (caseBlind settings).Lawful where
  limitStyle := rfl
  maxIterations := .inl rfl
  maxDepth := .inl rfl
  link := .inl rfl
  into := .inl rfl
  tableHints := .inl rfl
  tag := .refl rfl settings.tag
  constant := .refl rfl
  append hfront hback := by
    rw [like_caseBlind, upper_append, upper_append, like_caseBlind.1 hfront, like_caseBlind.1 hback]
  upper htext := congrArg upper (like_caseBlind.1 htext)
  type hab := Token.type_eq_of_raised hab
  text hab := Token.upper_text_eq_of_raised hab
  word hab _ := Token.upper_text_eq_of_raised hab
  escaped hab _ := by
    change Identifier.relabel .raise _ = Identifier.relabel .raise _
    rw [escaped_raise, escaped_raise, Token.upper_text_eq_of_raised hab]
    rfl
  same := .refl
  refused {c d cause cause'} hbeside hcause := by
    refine ⟨rfl, congrArg some hbeside.place_eq, ?_⟩
    rw [sameWord_iff, Cursor.error, Cursor.error, hbeside.place_eq]
    change upper ("Syntax" ++ Error.placeText d.place.1 d.place.2 ++ cause.text) =
      upper ("Syntax" ++ Error.placeText d.place.1 d.place.2 ++ cause'.text)
    rw [upper_append, hcause.upper_text, ← upper_append]
  unsupported _ := .refl _

end Likeness

/-! ## All stages -/

/-- Two statements that differ in the case of letters at most, with such comments around them. -/
structure Parsed.SameButCase (a b : Parsed) : Prop where
  statement : a.statement.relabel .raise = b.statement.relabel .raise
  comments : List.Forall₂ (fun comment comment' => sameWord comment comment' = true)
    a.comments b.comments
  dialect : a.dialect = b.dialect

/-- Two answers that are both statements or both errors, and differ in the case of letters at
most. -/
inductive SameButCase : Except Error Parsed → Except Error Parsed → Prop where
  | ok {a b : Parsed} (h : a.SameButCase b) : SameButCase (.ok a) (.ok b)
  | error {e f : Error} (h : e.SameButCase f) : SameButCase (.error e) (.error f)

/-- Lists that are the same once they are changed hold values that are. -/
theorem forall₂_of_map_eq {α β : Type} {f : α → β} {as bs : List α} (h : as.map f = bs.map f) :
    List.Forall₂ (fun a b => f a = f b) as bs := by
  have hequal : List.Forall₂ Eq (as.map f) (bs.map f) := by rw [h, List.forall₂_eq_eq_eq]
  exact List.forall₂_map_right_iff.1 (List.forall₂_map_left_iff.1 hequal)

namespace Dialect

/-- Parsing does not regard the case of ASCII letters: two texts that differ in it at most give
the same statement up to the case of its texts, with the same comments up to their case, or errors
of one class at one place with the same message up to its case. -/
theorem parse_sameButCase (d : Dialect) {text text' : String} (h : sameWord text text' = true) :
    SameButCase (d.parse text) (d.parse text') := by
  have hraised : mapResult Error.raised Normalized.raised (d.normalize text) =
      mapResult Error.raised Normalized.raised (d.normalize text') := by
    rw [← normalize_upper, sameWord_iff.1 h, normalize_upper]
  rw [parse, parseWith, parse, parseWith]
  generalize d.normalize text = x, d.normalize text' = y at hraised
  cases x with
  | error e =>
      cases y with
      | error f => exact .error (.of_raised_eq (Except.error.inj hraised))
      | ok result => cases hraised
  | ok result =>
      cases y with
      | error f => cases hraised
      | ok result' =>
          obtain ⟨tokens, comments⟩ := result
          obtain ⟨tokens', comments'⟩ := result'
          obtain ⟨htokens, hcomments⟩ := Normalized.mk.inj (Except.ok.inj hraised)
          have hanswers := Likeness.answers_statementOf (Likeness.lawful_caseBlind d.settings)
            (forall₂_of_map_eq htokens)
          change Likeness.Answers _ (d.settings.statementOf tokens) (d.settings.statementOf tokens')
            at hanswers
          change SameButCase (d.settings.statementOf tokens >>= _ >>= _)
            (d.settings.statementOf tokens' >>= _ >>= _)
          generalize d.settings.statementOf tokens = answer,
            d.settings.statementOf tokens' = answer' at hanswers
          cases hanswers with
          | ok he =>
              refine .ok ⟨he, (forall₂_of_map_eq hcomments).imp fun _ _ => sameWord_iff.2, rfl⟩
          | error he => exact .error he
          | first he => exact he.elim
          | second he => exact he.elim

theorem parse_sameButCase_nationalString :
    sameWord "select N'Ab' from [T] -- x" "SELECT n'aB' From [t] -- X" = true ∧
      SameButCase (sqlServer.parse "select N'Ab' from [T] -- x")
        (sqlServer.parse "SELECT n'aB' From [t] -- X") := by
  have h : sameWord "select N'Ab' from [T] -- x" "SELECT n'aB' From [t] -- X" = true := by
    decide +kernel
  exact ⟨h, parse_sameButCase sqlServer h⟩

end Dialect

end SqlTree

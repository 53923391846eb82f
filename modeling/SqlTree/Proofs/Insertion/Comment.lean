import SqlTree.Proofs.Insertion.Fusing
import SqlTree.Proofs.Likeness.Answer
import SqlTree.Proofs.Relabelling

/-!
# Comments do not change the tree

A comment that is put between two blanks before a token is lifted out like any other, and the
tokens around it are the same but for their places.  The grammar looks at places for its errors
only.  So the statement stays the same, or the class of the error does, and the comment joins the
ones around it (`Dialect.parse_insert_comment`).
-/

namespace SqlTree

open Text Lexer

/-! ## Comments as they are written -/

/-- A body in which no mark that closes a comment starts, not even with the mark behind it. -/
def Lexer.NeverCloses (body : List Char) : Prop :=
  ∀ k < body.length, ¬['*', '/'] <+: (body ++ ['*', '/']).drop k

instance (body : List Char) : Decidable (Lexer.NeverCloses body) :=
  inferInstanceAs (Decidable (∀ k < body.length, ¬['*', '/'] <+: (body ++ ['*', '/']).drop k))

theorem Lexer.NeverCloses.closedBy {body : List Char} (hbody : NeverCloses body) :
    ClosedBy body := by
  intro rest
  induction body with
  | nil => rfl
  | cons c body ih =>
      have htail : NeverCloses body := fun k hk => hbody (k + 1) (Nat.succ_lt_succ hk)
      have hopen : ∀ tail, c = '*' → body ++ '*' :: '/' :: rest = '/' :: tail → False := by
        rintro tail rfl hslash
        cases body with
        | nil => cases hslash
        | cons d body =>
            obtain rfl := (List.cons.inj hslash).1
            exact hbody 0 (Nat.zero_lt_succ _) ⟨body ++ ['*', '/'], rfl⟩
      rw [List.cons_append, splitClose, ih htail]
      · rfl
      · exact hopen

/-- A comment of either kind between two blanks, and the text of that comment. -/
inductive Dialect.WritesComment (d : Dialect) : String → String → Prop where
  | block {body : String} (hreturn : '\r' ∉ body.toList) (hclose : NeverCloses body.toList)
      (hplus : d.hintComments = true → body.toList.head? ≠ some '+') :
      WritesComment d (" /*" ++ body ++ "*/ ") (commentText body.toList)
  | line {body : String} (hreturn : '\r' ∉ body.toList) (hfeed : '\n' ∉ body.toList) :
      WritesComment d (" --" ++ body ++ "\n") (commentText body.toList)

theorem Dialect.WritesComment.exists_mark {d : Dialect} {inserted text : String}
    (h : d.WritesComment inserted text) :
    ∃ mark ending, inserted.toList = ' ' :: (mark ++ [ending]) ∧
      IsComment d.lexicon mark ending text ∧ '\r' ∉ inserted.toList := by
  cases h with
  | @block body hreturn hclose hplus =>
      refine ⟨['/', '*'] ++ body.toList ++ ['*', '/'], ' ', by simp,
        ⟨⟨.blockComment, rfl, ?_⟩, rfl⟩, by simp [hreturn]⟩
      exact fun rest => .block hclose.closedBy hplus
  | @line body hreturn hfeed =>
      refine ⟨'-' :: '-' :: body.toList, '\n', by simp, ⟨⟨.lineComment, rfl, ?_⟩, rfl⟩,
        by simp [hreturn]⟩
      have hbody : ∀ c ∈ body.toList, (c != '\n') = true := by
        intro c hc
        rw [bne_iff_ne]
        rintro rfl
        exact hfeed hc
      exact fun rest => .line hbody (stops_cons.2 rfl)

/-! ## The grammar -/

/-- The likeness of tokens that stand at other places. -/
def Likeness.unplaced (settings : Settings) : Likeness :=
  ⟨settings, settings, {}, {}, Token.SameText, fun _ _ => True,
    fun e f => e.className = f.className, fun _ => False⟩

namespace Likeness

theorem like_unplaced {settings : Settings} {a b : String} : (unplaced settings).Like a b ↔ a = b :=
  Iff.rfl

theorem lawful_unplaced (settings : Settings) : (unplaced settings).Lawful where
  limitStyle := rfl
  maxIterations := .inl rfl
  maxDepth := .inl rfl
  link := .inl rfl
  into := .inl rfl
  tableHints := .inl rfl
  tag := .refl rfl settings.tag
  constant := .refl rfl
  append hfront hback := by rw [like_unplaced, like_unplaced.1 hfront, like_unplaced.1 hback]
  upper htext := congrArg upper (like_unplaced.1 htext)
  type hab := hab.type
  text hab := hab.text
  word hab _ := congrArg upper hab.text
  escaped hab _ := by
    rw [hab.text]
    exact .refl rfl _
  same _ := rfl
  refused _ _ := rfl
  unsupported _ := rfl

end Likeness

/-- Places of tokens do not change the statement. -/
theorem Settings.together_statementOf_sameText (settings : Settings) {tokens tokens' : List Token}
    (htokens : List.Forall₂ Token.SameText tokens tokens') :
    Together Eq (settings.statementOf tokens) (settings.statementOf tokens') := by
  have hanswers := Likeness.answers_statementOf (Likeness.lawful_unplaced settings) htokens
  change (Likeness.unplaced settings).Answers (settings.statementOf _) (settings.statementOf _)
    at hanswers
  generalize settings.statementOf tokens = x, settings.statementOf tokens' = y at hanswers
  cases hanswers with
  | @ok e e' h =>
      have hsame : e.relabel {} = e'.relabel {} := h
      rw [Expr.relabel_same, Expr.relabel_same] at hsame
      exact .ok hsame
  | error h => exact .error h
  | first h => exact h.elim
  | second h => exact h.elim

/-! ## All stages -/

namespace Dialect

/-- A text without carriage returns goes through the lexer and then through a pass over its
tokens. -/
theorem exists_pass (d : Dialect) :
    ∃ pass : Escape.Pass, ∀ text : String, '\r' ∉ text.toList →
      d.tokenize text = run d.lexicon d.lexicon.maxSteps .start [] text.toList ∧
      d.normalize text = run d.lexicon d.lexicon.maxSteps .start [] text.toList >>=
        (pass.on text.toList).run := by
  obtain ⟨leftType, rightType, hleft, hright⟩ := d.exists_delimiterTypes
  exact ⟨⟨d.delimiters, leftType, rightType, #[]⟩, fun text hreturn =>
    ⟨d.tokenize_eq_run hreturn, d.normalize_eq_run hleft hright hreturn⟩⟩

/-- Comments never change the tree.  Take a text without carriage returns that the grammar is
given tokens of, and put a comment between blanks where one of these tokens starts.  If the steps
suffice to read it, both texts give the same statement or errors of one class, and the comments
are the same but for the new one, which comes right behind the comments that stand before its
place. -/
theorem parse_insert_comment (d : Dialect) {front back inserted text : String} {result : Normalized}
    {token : Token} (hreturn : '\r' ∉ (front ++ back).toList)
    (hnormalize : d.normalize (front ++ back) = .ok result) (htoken : token ∈ result.tokens)
    (hstart : token.span.start = front.length) (hcomment : d.WritesComment inserted text)
    (hsteps : ¬OutOfSteps (d.tokenize (front ++ inserted ++ back))) :
    ∃ tokens earlier later, d.normalize front = .ok ⟨tokens, earlier⟩ ∧
      result.comments = earlier ++ later ∧
      Together (fun a b => a.statement = b.statement ∧ a.comments = earlier ++ later ∧
          b.comments = earlier ++ text :: later)
        (d.parse (front ++ back)) (d.parse (front ++ inserted ++ back)) := by
  obtain ⟨pass, hpass⟩ := d.exists_pass
  obtain ⟨mark, ending, hmark, hwritten, hinserted⟩ := hcomment.exists_mark
  have hlength : token.span.start = front.toList.length := by rw [hstart, String.length_toList]
  have hfront : '\r' ∉ front.toList := by simp_all
  have hedited : '\r' ∉ (front ++ inserted ++ back).toList := by simp_all
  have hsplit : (front ++ inserted ++ back).toList =
      front.toList ++ (' ' :: (mark ++ [ending]) ++ back.toList) := by
    rw [String.toList_append, String.toList_append, hmark, List.append_assoc]
  rw [(hpass _ hreturn).2, String.toList_append] at hnormalize
  rw [(hpass _ hedited).1, hsplit] at hsteps
  obtain ⟨tokens, htokens, hrun⟩ := except_bind_eq_ok.1 hnormalize
  obtain ⟨given, hgiven, hsame⟩ := Escape.exists_mem_of_mem_run hrun htoken
  obtain ⟨before, first, after, comment, after', rfl, hparts⟩ :=
    exists_parts hwritten htokens hgiven (hsame.trans hlength) hsteps
  obtain ⟨earlier, result', hearlier, hresult', hresult⟩ :=
    Escape.exists_run_insert hparts hrun htoken hlength
  obtain ⟨later, hcomments, hcomments'⟩ := hresult.comments
  have hbefore : d.normalize front = .ok earlier := by
    rw [(hpass _ hfront).2, hparts.readFront]
    exact hearlier
  have hafter : d.normalize (front ++ inserted ++ back) = .ok result' := by
    rw [(hpass _ hedited).2, hsplit, hparts.readEdited]
    exact hresult'
  have horiginal : d.normalize (front ++ back) = .ok result := by
    rw [(hpass _ hreturn).2, String.toList_append, hnormalize]
  refine ⟨earlier.tokens, earlier.comments, later, hbefore, hcomments, ?_⟩
  have hstatement := d.settings.together_statementOf_sameText hresult.tokens
  rw [parse_of_normalize horiginal, parse_of_normalize hafter]
  generalize d.settings.statementOf result.tokens = x, d.settings.statementOf result'.tokens = y
    at hstatement
  cases hstatement with
  | ok h => exact .ok ⟨h, hcomments, hcomments'⟩
  | error h => exact .error h

/-- A comment of a single dash, put behind another dash. -/
theorem parse_insert_comment_dash :
    ∃ result token, '\r' ∉ ("SELECT 1-" ++ "2 -- z").toList ∧
      mySql.normalize ("SELECT 1-" ++ "2 -- z") = .ok result ∧ token ∈ result.tokens ∧
      token.span.start = "SELECT 1-".length ∧
      mySql.WritesComment (" /*" ++ "-" ++ "*/ ") (commentText "-".toList) ∧
      ¬OutOfSteps (mySql.tokenize ("SELECT 1-" ++ (" /*" ++ "-" ++ "*/ ") ++ "2 -- z")) ∧
      ∃ tokens earlier later, mySql.normalize "SELECT 1-" = .ok ⟨tokens, earlier⟩ ∧
        result.comments = earlier ++ later ∧
        Together (fun a b => a.statement = b.statement ∧ a.comments = earlier ++ later ∧
            b.comments = earlier ++ commentText "-".toList :: later)
          (mySql.parse ("SELECT 1-" ++ "2 -- z"))
          (mySql.parse ("SELECT 1-" ++ (" /*" ++ "-" ++ "*/ ") ++ "2 -- z")) := by
  have hread : ((mySql.normalize ("SELECT 1-" ++ "2 -- z")).toOption.any fun result =>
      result.tokens.any fun token => token.span.start == "SELECT 1-".length) = true := by
    decide +kernel
  have hedited :
      (mySql.tokenize ("SELECT 1-" ++ (" /*" ++ "-" ++ "*/ ") ++ "2 -- z")).isOk = true := by
    decide +kernel
  have hreturn : '\r' ∉ ("SELECT 1-" ++ "2 -- z").toList := by decide
  have hcomment : mySql.WritesComment (" /*" ++ "-" ++ "*/ ") (commentText "-".toList) :=
    .block (by decide) (by decide) (by decide)
  have hsteps :
      ¬OutOfSteps (mySql.tokenize ("SELECT 1-" ++ (" /*" ++ "-" ++ "*/ ") ++ "2 -- z")) := by
    rintro ⟨cap, line, column, herror⟩
    rw [herror] at hedited
    cases hedited
  cases hnormalize : mySql.normalize ("SELECT 1-" ++ "2 -- z") with
  | error e =>
      rw [hnormalize] at hread
      cases hread
  | ok result =>
      rw [hnormalize] at hread
      obtain ⟨token, htoken, hstart⟩ := List.any_eq_true.1 hread
      have hstart := eq_of_beq hstart
      exact ⟨result, token, hreturn, rfl, htoken, hstart, hcomment, hsteps,
        parse_insert_comment mySql hreturn hnormalize htoken hstart hcomment hsteps⟩

end Dialect

end SqlTree

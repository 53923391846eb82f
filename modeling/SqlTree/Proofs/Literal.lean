import SqlTree.Proofs.Escaping
import SqlTree.Proofs.Likeness.Answer

/-!
# The content of a string is only content

Whatever stands in a string, the statement around it is the same: two texts that differ only in the
content of one string give statements that are equal up to their texts, with equally many comments,
or errors of one class.  The three stages are followed side by side: the lexer, the pass that fuses
escaped identifiers, and the grammar.
-/

namespace SqlTree

open Text

/-! ## The lexer -/

namespace Lexer

variable {lx : Lexicon} {front back : List Char} {tokens : List Token} {steps : Nat}

/-- What a string is written as, after its opening quote. -/
def afterQuote (content : List Char) : List Char :=
  Quoted.double content ++ ['\'']

theorem write_eq (content : List Char) : Quoted.write content = '\'' :: afterQuote content :=
  rfl

/-- Tokens that were read before the texts part are their own counterparts. -/
theorem EndsBy.counterpart {alike first second : Nat} {token : Token} (hends : EndsBy alike token) :
    Counterpart alike first second token token :=
  ⟨rfl, .inl rfl, .inl ⟨rfl, hends.1⟩, .inl ⟨rfl, hends.2⟩⟩

/-- One step reads a whole string. -/
theorem run_write {place : Place} {done : List Token} (content : List Char)
    (hback : back.head? ≠ some '\'') :
    run lx (steps + 1) place done (Quoted.write content ++ back) =
      run lx steps (place.advance (Quoted.write content))
        (⟨.string, String.ofList content,
          Span.between place (place.advance (Quoted.write content))⟩ :: done) back := by
  have hpiece : piece lx '\'' (afterQuote content ++ back) =
      .ok ⟨Quoted.write content, some (.string, String.ofList content), back⟩ := by
    rw [afterQuote, List.append_assoc]
    exact piece_string hback
  rw [write_eq, List.cons_append, run, hpiece]
  rfl

/-- Two texts that differ only in the content of one string are read as tokens at the same
places. -/
theorem together_run_write
    (hfront : run lx steps Place.start [] front = .ok tokens) (hlast : front.getLast? = some '\n')
    (hback : back.head? ≠ some '\'') (content content' : List Char) :
    Together
      (List.Forall₂ (Escape.AtSamePlace front (afterQuote content) (afterQuote content')))
      (run lx steps Place.start [] (front ++ (Quoted.write content ++ back)))
      (run lx steps Place.start [] (front ++ (Quoted.write content' ++ back))) := by
  obtain ⟨left, hrest⟩ := run_append hfront (.inr hlast)
  rw [hrest, hrest]
  cases left with
  | zero => exact .error rfl
  | succ left =>
      have hstart : (Place.start.advance front).offset = front.length := by
        rw [Place.offset_advance]
        exact Nat.zero_add _
      have hstop : ∀ content : List Char,
          ((Place.start.advance front).advance (Quoted.write content)).offset =
            (front ++ '\'' :: afterQuote content).length := by
        intro content
        rw [Place.offset_advance, hstart, List.length_append, write_eq]
      have hread : ∀ token ∈ tokens, EndsBy front.length token := by
        intro token htoken
        have hends := run_endsBy hfront (fun _ hnone => absurd hnone List.not_mem_nil) token htoken
        rwa [hstart] at hends
      rw [run_write content hback, run_write content' hback]
      apply together_run
      · exact ⟨0, hstop content, hstop content'⟩
      · constructor
        · refine ⟨rfl, .inr rfl, .inl ⟨rfl, hstart.le⟩, .inr ⟨0, hstop content, hstop content'⟩⟩
        · rw [List.forall₂_reverse_iff, List.forall₂_same]
          exact fun token htoken => (hread token htoken).counterpart

end Lexer

/-! ## The grammar -/

/-- The likeness of tokens that differ in the contents of strings and escaped identifiers, for trees
whose texts are blanked. -/
def Likeness.blanking (settings : Settings) : Likeness :=
  ⟨settings, settings, .blank, .blank, Token.Same, fun _ _ => True,
    fun e f => e.className = f.className, fun _ => False⟩

namespace Likeness

/-- Both delimiters of an escaped identifier stand in a text of two characters or more. -/
theorem isSome_delimiters {text : String} (hlength : 2 ≤ text.length) :
    text.toList.head?.isSome = true ∧ text.toList.tail.getLast?.isSome = true := by
  rw [← String.length_toList] at hlength
  cases hchars : text.toList with
  | nil =>
      rw [hchars] at hlength
      cases hlength
  | cons c cs =>
      cases cs with
      | nil =>
          rw [hchars] at hlength
          simp at hlength
      | cons d cs => simp

theorem like_escaped {settings : Settings} {a b : Token} (hab : a.Same b)
    (htype : a.type = .quotedIdentifier) :
    (blanking settings).Like (Identifier.escaped a.text settings.tag)
      (Identifier.escaped b.text settings.tag) := by
  rcases hab.text with htext | hstring | ⟨-, ha, hb⟩
  · rw [htext]
    exact .refl rfl _
  · rw [hstring] at htype
    cases htype
  · obtain ⟨hleft, hright⟩ := isSome_delimiters ha
    obtain ⟨hleft', hright'⟩ := isSome_delimiters hb
    obtain ⟨l, hl⟩ := Option.isSome_iff_exists.1 hleft
    obtain ⟨r, hr⟩ := Option.isSome_iff_exists.1 hright
    obtain ⟨l', hl'⟩ := Option.isSome_iff_exists.1 hleft'
    obtain ⟨r', hr'⟩ := Option.isSome_iff_exists.1 hright'
    change Identifier.relabel .blank _ = Identifier.relabel .blank _
    simp [Identifier.relabel, Identifier.escaped, Relabel.blank, hl, hr, hl', hr']

theorem lawful_blanking (settings : Settings) : (blanking settings).Lawful where
  limitStyle := rfl
  maxIterations := .inl rfl
  maxDepth := .inl rfl
  link := .inl rfl
  into := .inl rfl
  tableHints := .inl rfl
  tag := .refl rfl settings.tag
  constant := .refl rfl
  append _ _ := rfl
  upper _ := rfl
  type hab := hab.type
  text _ := rfl
  word {a b} hab hword := by
    rcases hab.text with htext | hstring | ⟨hescaped, -⟩
    · rw [htext]
    · rw [hstring] at hword
      cases hword
    · rw [hescaped] at hword
      cases hword
  escaped := like_escaped
  same _ := rfl
  refused _ _ := rfl
  unsupported _ := rfl

end Likeness

/-- Like tokens give statements that are equal up to their texts, or errors of one class. -/
theorem Settings.together_statementOf
    (settings : Settings) {tokens tokens' : List Token}
    (htokens : List.Forall₂ Token.Same tokens tokens') :
    Together (fun a b => a.blanked = b.blanked)
      (settings.statementOf tokens) (settings.statementOf tokens') := by
  have hanswers := Likeness.answers_statementOf (Likeness.lawful_blanking settings) htokens
  change (Likeness.blanking settings).Answers (settings.statementOf _) (settings.statementOf _)
    at hanswers
  generalize settings.statementOf tokens = x, settings.statementOf tokens' = y at hanswers
  cases hanswers with
  | ok h => exact .ok h
  | error h => exact .error h
  | first h => exact h.elim
  | second h => exact h.elim

/-! ## All stages -/

namespace Dialect

/-- Two statements that are equal up to their texts, with equally many comments around them. -/
structure SameStructure (a b : Parsed) : Prop where
  statement : a.statement.blanked = b.statement.blanked
  comments : a.comments.length = b.comments.length

section

variable {front back : String}

theorem unifyNewlines_around (hfront : '\r' ∉ front.toList) {content : String}
    (hcontent : '\r' ∉ content.toList) :
    unifyNewlines (front ++ Render.quoted content ++ back).toList =
      front.toList ++ (Quoted.write content.toList ++ unifyNewlines back.toList) := by
  have hquoted : '\r' ∉ Quoted.write content.toList :=
    fun hmem => hcontent ((Quoted.mem_write (by decide)).1 hmem)
  rw [Render.quoted, String.toList_append, String.toList_append, String.toList_ofList,
    List.append_assoc, unifyNewlines_append hfront, unifyNewlines_append hquoted]

/-- Two texts that differ only in the content of one string, on their way to the grammar. -/
theorem together_normalize (d : Dialect) {tokens : List Token} (hfront : '\r' ∉ front.toList)
    (htokens : d.tokenize front = .ok tokens) (hlast : front.toList.getLast? = some '\n')
    (hback : back.toList.head? ≠ some '\'') {content content' : String}
    (hcontent : '\r' ∉ content.toList) (hcontent' : '\r' ∉ content'.toList) :
    Together Escape.SameResult (d.normalize (front ++ Render.quoted content ++ back))
      (d.normalize (front ++ Render.quoted content' ++ back)) := by
  have hrun : Lexer.run d.lexicon d.lexicon.maxSteps Place.start [] front.toList = .ok tokens := by
    rwa [tokenize, Lexicon.tokenize, unifyNewlines_eq_self hfront] at htokens
  have hquote : (unifyNewlines back.toList).head? ≠ some '\'' :=
    fun hhead => hback (head?_unifyNewlines (by decide) hhead)
  have hlexed := Lexer.together_run_write hrun hlast hquote content.toList content'.toList
  rw [normalize, normalize, tokenize, Lexicon.tokenize, tokenize, Lexicon.tokenize,
    unifyNewlines_around hfront hcontent, unifyNewlines_around hfront hcontent']
  refine hlexed.bind fun read read' hread => ?_
  rw [SqlTree.normalize, SqlTree.normalize, unifyNewlines_around hfront hcontent,
    unifyNewlines_around hfront hcontent']
  cases hleft : Escape.delimiterType d.delimiters.left with
  | error e => exact .error rfl
  | ok leftType =>
      cases hright : Escape.delimiterType d.delimiters.right with
      | error e => exact .error rfl
      | ok rightType =>
          have hpass := Escape.together_pass (unifyNewlines back.toList)
            ⟨d.delimiters, leftType, rightType, #[]⟩ hread
          rw [Escape.Pass.over, Escape.Pass.over, List.append_assoc, List.append_assoc] at hpass
          exact hpass

/-- Two texts that differ only in the content of one string, all the way with any settings. -/
theorem together_parseWith (d : Dialect) (settings : Settings) {tokens : List Token}
    (hfront : '\r' ∉ front.toList) (htokens : d.tokenize front = .ok tokens)
    (hlast : front.toList.getLast? = some '\n') (hback : back.toList.head? ≠ some '\'')
    {content content' : String}
    (hcontent : '\r' ∉ content.toList) (hcontent' : '\r' ∉ content'.toList) :
    Together (fun a b => a.1.blanked = b.1.blanked ∧ a.2.length = b.2.length)
      (d.parseWith settings (front ++ Render.quoted content ++ back))
      (d.parseWith settings (front ++ Render.quoted content' ++ back)) := by
  have hnormalized := together_normalize d hfront htokens hlast hback hcontent hcontent'
  refine hnormalized.bind fun result result' hresult => ?_
  have hstatement := settings.together_statementOf hresult.tokens
  exact hstatement.bind fun e e' he => .ok ⟨he, hresult.comments⟩

end

/-- The content of a string does not change the structure of a statement: after a text that reads as
tokens and ends with a line feed, and before one that does not start with a quote, any two contents
give the same statement up to its texts, with equally many comments, or errors of one class. -/
theorem parse_quoted_sameStructure (d : Dialect) {front back content content' : String}
    (hfront : '\r' ∉ front.toList) (htokens : ∃ tokens, d.tokenize front = .ok tokens)
    (hlast : front.toList.getLast? = some '\n') (hback : back.toList.head? ≠ some '\'')
    (hcontent : '\r' ∉ content.toList) (hcontent' : '\r' ∉ content'.toList) :
    Together SameStructure (d.parse (front ++ Render.quoted content ++ back))
      (d.parse (front ++ Render.quoted content' ++ back)) := by
  obtain ⟨tokens, htokens⟩ := htokens
  have hparsed :=
    together_parseWith d d.settings hfront htokens hlast hback hcontent hcontent'
  exact hparsed.bind fun _ _ h => .ok ⟨h.1, h.2⟩

theorem parse_quoted_sameStructure_closingQuote :
    '\r' ∉ "SELECT\n".toList ∧ (∃ tokens, sqlServer.tokenize "SELECT\n" = .ok tokens) ∧
      Together SameStructure (sqlServer.parse ("SELECT\n" ++ Render.quoted "x" ++ " FROM t"))
        (sqlServer.parse ("SELECT\n" ++ Render.quoted "' FROM u; -- " ++ " FROM t")) := by
  have hfront : '\r' ∉ "SELECT\n".toList := by decide +kernel
  have hread : (sqlServer.tokenize "SELECT\n").isOk = true := by decide +kernel
  have htokens : ∃ tokens, sqlServer.tokenize "SELECT\n" = .ok tokens := by
    revert hread
    generalize sqlServer.tokenize "SELECT\n" = result
    cases result with
    | error e => exact fun h => nomatch h
    | ok tokens => exact fun _ => ⟨tokens, rfl⟩
  refine ⟨hfront, htokens, ?_⟩
  apply parse_quoted_sameStructure sqlServer hfront htokens
  · decide +kernel
  · decide +kernel
  · decide +kernel
  · decide +kernel

end Dialect

end SqlTree

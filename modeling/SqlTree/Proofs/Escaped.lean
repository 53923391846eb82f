import SqlTree.Parsed
import SqlTree.Proofs.Escaping
import SqlTree.Proofs.Passing
import SqlTree.Proofs.Reaching
import SqlTree.Proofs.Selection

/-!
# Selecting an escaped name

The text `SELECT name FROM t` with the name between the delimiters of a dialect.  The lexer reads
the name like any other text, and only what it has read is fused afterwards.  So the name keeps
all its characters where the lexer comes to the delimiter behind it, and elsewhere the text is
refused: a string, a comment or a number that the name seems to begin may run over that delimiter
or be broken.
-/

namespace SqlTree

open Text Lexer

/-! ## Reading the words around the name -/

namespace Lexer

variable {lx : Lexicon} {c first : Char} {chars rest : List Char} {type : TokenType}
  {steps : Nat} {place : Place} {done : List Token}

def delimiterToken (type : TokenType) (place : Place) (c : Char) : Token :=
  ⟨type, String.ofList [c], .between place (place.advance [c])⟩

def wordToken (lx : Lexicon) (place : Place) (chars : List Char) : Token :=
  ⟨wordType lx (String.ofList chars), String.ofList chars, .between place (place.advance chars)⟩

theorem run_separator (hc : isSeparator c = true) :
    run lx (steps + 1) place done (c :: rest) = run lx steps (place.advance [c]) done rest := by
  rw [run, piece_separator hc]
  rfl

theorem run_delimiter (htype : Escape.delimiterType? c = some type) :
    run lx (steps + 1) place done (c :: rest) =
      run lx steps (place.advance [c]) (delimiterToken type place c :: done) rest := by
  rw [run, piece_delimiter htype]
  rfl

/-- A word that opens no national string. -/
theorem run_word (hfirst : startsWord first = true)
    (hchars : ∀ d ∈ first :: chars, continuesWord d = true)
    (hplain : opensNational lx (String.ofList (first :: chars)) = false)
    (hrest : Stops continuesWord rest) :
    run lx (steps + 1) place done (first :: chars ++ rest) =
      run lx steps (place.advance (first :: chars))
        (wordToken lx place (first :: chars) :: done) rest := by
  have hquote : opensNational lx (String.ofList (first :: chars)) = true →
      rest.head? ≠ some '\'' := by
    intro hopens
    rw [hplain] at hopens
    cases hopens
  rw [List.cons_append, run, piece_word hfirst hchars hrest hquote]
  rfl

end Lexer

namespace Dialect

variable {d : Dialect} {name : String}

/-! ## The text -/

/-- A name between the delimiters of a dialect. -/
def escape (d : Dialect) (name : String) : String :=
  String.ofList (d.delimiters.left :: name.toList ++ [d.delimiters.right])

/-- The text that selects an escaped name from a table. -/
def selectEscaped (d : Dialect) (name : String) : String :=
  "SELECT " ++ d.escape name ++ " FROM t"

def behindName (d : Dialect) : List Char :=
  d.delimiters.right :: " FROM t".toList

/-- Reading a name that stands in that text comes to the delimiter behind it, with steps left for
the eight other pieces of the text. -/
def Scans (d : Dialect) (name : String) : Prop :=
  ∃ n, n + 8 ≤ d.lexicon.maxSteps ∧
    Reaches d.lexicon d.behindName n (name.toList ++ d.behindName)

theorem toList_selectEscaped :
    (d.selectEscaped name).toList =
      ['S', 'E', 'L', 'E', 'C', 'T'] ++
        ' ' :: d.delimiters.left :: (name.toList ++ d.behindName) := by
  simp [selectEscaped, escape, behindName]

theorem behindName_eq :
    d.behindName = d.delimiters.right :: ' ' :: (['F', 'R', 'O', 'M'] ++ ' ' :: (['t'] ++ [])) := by
  simp [behindName]

theorem opensNational_words (d : Dialect) :
    opensNational d.lexicon "SELECT" = false ∧ opensNational d.lexicon "FROM" = false ∧
      opensNational d.lexicon "t" = false := by
  cases d <;> decide +kernel

theorem wordType_words (d : Dialect) :
    wordType d.lexicon "SELECT" = .keyword .SELECT ∧ wordType d.lexicon "FROM" = .keyword .FROM ∧
      wordType d.lexicon "t" = .identifier := by
  cases d <;> decide +kernel

theorem stops_blank (rest : List Char) : Stops continuesWord (' ' :: rest) :=
  stops_cons.2 (by decide +kernel)

/-- What is read before the name. -/
theorem exists_run_select (d : Dialect) (rest : List Char) (steps : Nat) :
    ∃ select opening place, run d.lexicon (steps + 3) Place.start []
        (['S', 'E', 'L', 'E', 'C', 'T'] ++ ' ' :: d.delimiters.left :: rest) =
          run d.lexicon steps place [opening, select] rest ∧
      select.type = .keyword .SELECT ∧ select.text = "SELECT" ∧
      Escape.delimiterType? d.delimiters.left = some opening.type ∧ opening.span.stop = 8 ∧
      place.offset = 8 := by
  obtain ⟨leftType, -, hleft, -⟩ := d.exists_delimiterTypes
  have hletters : ∀ d ∈ ['S', 'E', 'L', 'E', 'C', 'T'], continuesWord d = true :=
    List.all_eq_true.1 (by decide +kernel)
  let second := (Place.start.advance ['S', 'E', 'L', 'E', 'C', 'T']).advance [' ']
  refine ⟨wordToken d.lexicon .start ['S', 'E', 'L', 'E', 'C', 'T'],
    delimiterToken leftType second d.delimiters.left, second.advance [d.delimiters.left], ?_,
    d.wordType_words.1, rfl, hleft, ?_⟩
  · rw [run_word (by decide +kernel) hletters d.opensNational_words.1 (stops_blank _),
      run_separator rfl, run_delimiter hleft]
  · simp [delimiterToken, Span.between, second, Place.start]

/-- What is read behind the name. -/
theorem exists_run_behindName (d : Dialect) (steps : Nat) (place : Place) (done : List Token) :
    ∃ closing source table, run d.lexicon (steps + 5) place done d.behindName =
        .ok (done.reverse ++ [closing, source, table]) ∧
      Escape.delimiterType? d.delimiters.right = some closing.type ∧
      closing.span.start = place.offset ∧ source.type = .keyword .FROM ∧ source.text = "FROM" ∧
      table.type = .identifier ∧ table.text = "t" := by
  obtain ⟨-, rightType, -, hright⟩ := d.exists_delimiterTypes
  obtain ⟨-, hfrom, ht⟩ := d.opensNational_words
  obtain ⟨-, hsource, htable⟩ := d.wordType_words
  have hletters : ∀ d ∈ ['F', 'R', 'O', 'M'], continuesWord d = true :=
    List.all_eq_true.1 (by decide +kernel)
  have hletter : ∀ d ∈ ['t'], continuesWord d = true :=
    List.all_eq_true.1 (by decide +kernel)
  let second := (place.advance [d.delimiters.right]).advance [' ']
  let third := (second.advance ['F', 'R', 'O', 'M']).advance [' ']
  refine ⟨delimiterToken rightType place d.delimiters.right,
    wordToken d.lexicon second ['F', 'R', 'O', 'M'], wordToken d.lexicon third ['t'], ?_,
    hright, rfl, hsource, rfl, htable, rfl⟩
  rw [behindName_eq, run_delimiter hright, run_separator rfl,
    run_word (by decide +kernel) hletters hfrom (stops_blank _), run_separator rfl,
    run_word (by decide +kernel) hletter ht (.nil _), run_nil]
  simp [second, third]

theorem reaches_behindName : Reaches d.lexicon [] 5 d.behindName := by
  cases d with
  | mySql | sqlServer | oracle | postgreSql | sqlite =>
      exact .piece rfl (.piece rfl (.piece rfl (.piece rfl (.piece rfl .here))))

end Dialect

namespace Dialect

variable {d : Dialect} {name : String} {pass : Escape.Pass} {select opening : Token}
  {steps : Nat} {place : Place}

/-! ## Normalizing the text -/

/-- How far the text has been read before the name, and the pass that its tokens go through. -/
structure BeforeName (d : Dialect) (name : String) (pass : Escape.Pass) (select opening : Token)
    (steps : Nat) (place : Place) : Prop where
  normalize : d.normalize (d.selectEscaped name) =
    run d.lexicon steps place [opening, select] (name.toList ++ d.behindName) >>= pass.run
  steps : d.lexicon.maxSteps = steps + 3
  place : place.offset = 8
  delimiters : pass.delimiters = d.delimiters
  source : pass.source = (d.selectEscaped name).toList.toArray
  left : Escape.delimiterType? d.delimiters.left = some pass.leftType
  right : Escape.delimiterType? d.delimiters.right = some pass.rightType
  selectType : select.type = .keyword .SELECT
  selectText : select.text = "SELECT"
  openingType : opening.type = pass.leftType
  openingStop : opening.span.stop = 8

theorem exists_beforeName (hreturn : '\r' ∉ name.toList) :
    ∃ pass select opening steps place, BeforeName d name pass select opening steps place := by
  obtain ⟨leftType, rightType, hleft, hright⟩ := d.exists_delimiterTypes
  obtain ⟨select, opening, place, hrun, hselect, htext, hopening, hstop, hplace⟩ :=
    d.exists_run_select (name.toList ++ d.behindName) 99997
  have hreturn : '\r' ∉ (d.selectEscaped name).toList := by
    rw [toList_selectEscaped, behindName_eq]
    cases d <;> simp [hreturn, delimiters]
  have htokens : d.tokenize (d.selectEscaped name) =
      run d.lexicon 99997 place [opening, select] (name.toList ++ d.behindName) := by
    rw [d.tokenize_eq_run hreturn, toList_selectEscaped]
    exact hrun
  let pass : Escape.Pass :=
    ⟨d.delimiters, leftType, rightType, (d.selectEscaped name).toList.toArray⟩
  have hnormalize : d.normalize (d.selectEscaped name) =
      run d.lexicon 99997 place [opening, select] (name.toList ++ d.behindName) >>= pass.run := by
    rw [d.normalize_eq_run hleft hright hreturn, ← d.tokenize_eq_run hreturn, htokens]
  rw [hleft, Option.some.injEq] at hopening
  exact ⟨pass, select, opening, 99997, place, hnormalize, rfl, hplace, rfl, rfl, hleft, hright,
    hselect, htext, hopening.symm, hstop⟩

namespace BeforeName

theorem plain_of_keyword (h : BeforeName d name pass select opening steps place) {token : Token}
    {word : Keyword} (htoken : token.type = .keyword word) :
    token.type.isComment = false ∧ token.type ≠ pass.leftType := by
  obtain ⟨-, hkeyword, -⟩ := Escape.delimiterType?_ne h.left
  rw [htoken]
  refine ⟨rfl, fun heq => ?_⟩
  rw [← heq] at hkeyword
  cases hkeyword

theorem foldlM_first (h : BeforeName d name pass select opening steps place) :
    [select, opening].foldlM pass.step {} = .ok ⟨some opening, [select], []⟩ := by
  obtain ⟨hcomment, -⟩ := Escape.delimiterType?_ne h.left
  rw [← h.openingType] at hcomment
  obtain ⟨hselect, hselect'⟩ := h.plain_of_keyword h.selectType
  rw [Escape.foldlM_cons_of_ok (Escape.step_of_plain hselect hselect'),
    Escape.foldlM_cons_of_ok (Escape.step_of_opening hcomment h.openingType)]
  rfl

/-- The stretch between the delimiters is the name. -/
theorem slice_name (h : BeforeName d name pass select opening steps place) {closing : Token}
    (hclosing : closing.span.start = 8 + name.toList.length) :
    Escape.slice pass.source opening.span.stop closing.span.start = some name.toList := by
  have hfront : (d.selectEscaped name).toList =
      ['S', 'E', 'L', 'E', 'C', 'T', ' ', d.delimiters.left] ++ (name.toList ++ d.behindName) :=
    toList_selectEscaped
  rw [h.source, h.openingStop, hclosing, Escape.slice_toArray, hfront, if_pos]
  · rw [Nat.add_sub_cancel_left]
    simp
  · simp only [List.length_append, List.length_cons, List.length_nil]
    omega

/-- Reading up to the delimiter behind the name, the text gives four tokens. -/
theorem normalize_of_scans (h : BeforeName d name pass select opening steps place)
    (hblank : allBlank name.toList = false) (hright : d.delimiters.right ∉ name.toList)
    (hscans : d.Scans name) :
    ∃ column source table, d.normalize (d.selectEscaped name) =
        .ok ⟨[select, column, source, table], []⟩ ∧
      column.type = .quotedIdentifier ∧ column.text = d.escape name ∧
      source.type = .keyword .FROM ∧ source.text = "FROM" ∧
      table.type = .identifier ∧ table.text = "t" := by
  obtain ⟨n, hsteps, hreaches⟩ := hscans
  obtain ⟨front, inner, hfront, hinner, hrun⟩ := hreaches.run_eq place
  obtain rfl : name.toList = front := List.append_cancel_right hfront
  obtain ⟨left, rfl⟩ : ∃ left, steps = n + (left + 5) := by
    rw [h.steps] at hsteps
    exact ⟨steps - n - 5, by omega⟩
  obtain ⟨closing, source, table, hbehind, hclosing, hstart, hsource, hsource', htable, htable'⟩ :=
    d.exists_run_behindName left (place.advance name.toList) (inner.reverse ++ [opening, select])
  rw [h.right, Option.some.injEq] at hclosing
  rw [Place.offset_advance, h.place] at hstart
  obtain ⟨-, -, hidentifier, -⟩ := Escape.delimiterType?_ne h.left
  obtain ⟨fused, hfuse, hcolumn, hcolumn'⟩ : ∃ fused,
      Escape.fuse pass.delimiters pass.source opening closing = .ok fused ∧
      fused.type = .quotedIdentifier ∧ fused.text = d.escape name := by
    rw [Escape.fuse, h.slice_name hstart, h.delimiters]
    simp only [hblank]
    exact ⟨_, rfl, rfl, rfl⟩
  have hopen : inner.foldlM pass.step ⟨some opening, [select], []⟩ =
      .ok ⟨some opening, [select], []⟩ := by
    refine Escape.foldlM_step_of_open rfl fun token htoken htype => hright ?_
    exact hinner token htoken _ (h.right.trans (congrArg some htype.symm))
  have hfrom := h.plain_of_keyword hsource
  have hplain : table.type.isComment = false ∧ table.type ≠ pass.leftType := by
    rw [htable]
    exact ⟨rfl, hidentifier.symm⟩
  have hlast : [closing, source, table].foldlM pass.step ⟨some opening, [select], []⟩ =
      .ok ⟨none, [table, source, fused, select], []⟩ := by
    rw [Escape.foldlM_cons_of_ok (Escape.step_of_closing hclosing.symm hfuse),
      Escape.foldlM_cons_of_ok (Escape.step_of_plain hfrom.1 hfrom.2),
      Escape.foldlM_cons_of_ok (Escape.step_of_plain hplain.1 hplain.2)]
    rfl
  have htokens : (inner.reverse ++ [opening, select]).reverse ++ [closing, source, table] =
      [select, opening] ++ (inner ++ [closing, source, table]) := by
    simp
  refine ⟨fused, source, table, ?_, hcolumn, hcolumn', hsource, hsource', htable, htable'⟩
  rw [h.normalize, hrun, hbehind, htokens]
  change Escape.Pass.run pass _ = _
  rw [Escape.Pass.run, Escape.foldlM_append_of_ok h.foldlM_first, Escape.foldlM_append_of_ok hopen,
    hlast]
  rfl

/-- The name and what stands behind it hold no other delimiter that could close the name. -/
theorem scans_of_reaches (h : BeforeName d name pass select opening steps place)
    (hright : d.delimiters.right ∉ name.toList) {n : Nat} {rest : List Char} {tokens : List Token}
    (hreaches : Reaches d.lexicon (d.delimiters.right :: rest) n (name.toList ++ d.behindName))
    (hrun : run d.lexicon steps place [opening, select] (name.toList ++ d.behindName) =
      .ok tokens) :
    d.Scans name := by
  obtain ⟨front, -, hfront, -⟩ := hreaches.run_eq place
  have hbehind : d.delimiters.right ∉ " FROM t".toList := by
    cases d <;> decide
  have hsame : d.delimiters.right :: rest = d.behindName := by
    rcases List.append_eq_append_iff.1 hfront with ⟨more, -, hmore⟩ | ⟨more, hname, hmore⟩
    · cases more with
      | nil => exact hmore.symm
      | cons c more =>
          rw [behindName, List.cons_append, List.cons.injEq] at hmore
          rw [hmore.2] at hbehind
          exact (hbehind (List.mem_append_right _ List.mem_cons_self)).elim
    · cases more with
      | nil => exact hmore
      | cons c more =>
          rw [List.cons_append, List.cons.injEq] at hmore
          rw [hname, ← hmore.1] at hright
          exact (hright (List.mem_append_right _ List.mem_cons_self)).elim
  rw [hsame] at hreaches
  obtain ⟨left, place', done', hleft, -⟩ :=
    (hreaches.trans reaches_behindName).exists_of_run hrun
  refine ⟨n, ?_, hreaches⟩
  rw [h.steps]
  omega

/-- Where reading runs over the delimiter behind the name, the text is refused. -/
theorem lexical_of_not_scans (h : BeforeName d name pass select opening steps place)
    (hright : d.delimiters.right ∉ name.toList) (hscans : ¬d.Scans name) :
    ∃ cause line column,
      d.normalize (d.selectEscaped name) = .error (.lexical cause line column) := by
  rw [h.normalize]
  cases hrun : run d.lexicon steps place [opening, select] (name.toList ++ d.behindName) with
  | error e =>
      obtain ⟨cause, line, column, rfl⟩ := lexical_of_run hrun
      exact ⟨cause, line, column, rfl⟩
  | ok tokens =>
      obtain ⟨new, rfl, hread⟩ := scanned_of_run hrun
      have hopen : new.foldlM pass.step ⟨some opening, [select], []⟩ =
          .ok ⟨some opening, [select], []⟩ := by
        refine Escape.foldlM_step_of_open rfl fun token htoken htype => hscans ?_
        obtain ⟨n, rest, hreaches⟩ :=
          hread.reaches token htoken _ (h.right.trans (congrArg some htype.symm))
        exact h.scans_of_reaches hright hreaches hrun
      refine ⟨.unclosedIdentifier pass.delimiters.left, opening.span.line, opening.span.column, ?_⟩
      change Escape.Pass.run pass ([select, opening] ++ new) = _
      rw [Escape.Pass.run, Escape.foldlM_append_of_ok h.foldlM_first, hopen]
      rfl

end BeforeName

/-! ## The main result -/

/-- The text that selects an escaped name means just this: it is four tokens without comments, and
the column it selects is the name. -/
structure KeepsName (d : Dialect) (name : String) : Prop where
  tokens : ∃ tokens, d.normalize (d.selectEscaped name) = .ok ⟨tokens, []⟩ ∧
    tokens.map (fun token => (token.type, token.text)) =
      [(.keyword .SELECT, "SELECT"), (.quotedIdentifier, d.escape name),
        (.keyword .FROM, "FROM"), (.identifier, "t")]
  column : ∃ column table, column.unescaped = name ∧ d.parse (d.selectEscaped name) =
    .ok ⟨.node (.select (selection ⟨some d⟩ column table) none ⟨some d⟩), [], d⟩

theorem keepsName_of_tokens {column source table : Token}
    (hnormalize : d.normalize (d.selectEscaped name) = .ok ⟨[select, column, source, table], []⟩)
    (hselect : select.type = .keyword .SELECT) (hselect' : select.text = "SELECT")
    (hcolumn : column.type = .quotedIdentifier) (hcolumn' : column.text = d.escape name)
    (hsource : source.type = .keyword .FROM) (hsource' : source.text = "FROM")
    (htable : table.type = .identifier) (htable' : table.text = "t") : d.KeepsName name := by
  have hspelled : source.Spelled := by
    intro word hword
    rw [hsource, TokenType.keyword.injEq] at hword
    refine ⟨d, ?_⟩
    rw [hsource', ← hword]
    cases d <;> decide +kernel
  have hread := d.settings.statement_of_selectsName ⟨hselect, hcolumn, hspelled, hsource, htable⟩
    (by cases d <;> decide) (by cases d <;> decide)
  refine ⟨⟨_, hnormalize, ?_⟩, Identifier.escaped column.text ⟨some d⟩,
    table.plainName ⟨some d⟩, ?_, ?_⟩
  · simp [hselect, hselect', hcolumn, hcolumn', hsource, hsource', htable, htable']
  · rw [hcolumn', escape, Identifier.unescaped_escaped, String.ofList_toList]
  · have hstatement : d.settings.statementOf [select, column, source, table] = .ok (.node (.select
        (selection ⟨some d⟩ (Identifier.escaped column.text ⟨some d⟩) (table.plainName ⟨some d⟩))
        none ⟨some d⟩)) := by
      rw [Settings.statementOf, hread]
      rfl
    rw [parse_of_normalize hnormalize, hstatement]
    rfl

/-- A name that is not blank and does not hold the right delimiter keeps all its characters
between the delimiters, whatever they are, if reading comes to the delimiter behind it.  Otherwise
the text is refused for a lexical reason. -/
theorem selectEscaped_spec (hblank : allBlank name.toList = false) (hreturn : '\r' ∉ name.toList)
    (hright : d.delimiters.right ∉ name.toList) :
    (d.Scans name → d.KeepsName name) ∧
      (¬d.Scans name → ∃ cause line column,
        d.normalize (d.selectEscaped name) = .error (.lexical cause line column)) := by
  obtain ⟨pass, select, opening, steps, place, hbefore⟩ := exists_beforeName (d := d) hreturn
  refine ⟨fun hscans => ?_, hbefore.lexical_of_not_scans hright⟩
  obtain ⟨column, source, table, hnormalize, hcolumn, hcolumn', hsource, hsource', htable,
    htable'⟩ :=
    hbefore.normalize_of_scans hblank hright hscans
  exact keepsName_of_tokens hnormalize hbefore.selectType hbefore.selectText hcolumn hcolumn'
    hsource hsource' htable htable'

/-- A comment with a quote in it is a name like any other. -/
theorem selectEscaped_spec_comment :
    allBlank "/* it's */".toList = false ∧ '\r' ∉ "/* it's */".toList ∧
      sqlServer.delimiters.right ∉ "/* it's */".toList ∧ sqlServer.KeepsName "/* it's */" := by
  have hblank : allBlank "/* it's */".toList = false := by decide
  have hreturn : '\r' ∉ "/* it's */".toList := by decide
  have hright : sqlServer.delimiters.right ∉ "/* it's */".toList := by decide
  refine ⟨hblank, hreturn, hright, (selectEscaped_spec hblank hreturn hright).1 ?_⟩
  exact ⟨1, by decide, .piece rfl .here⟩

/-- An apostrophe in a name opens a string, which runs over the delimiter behind the name. -/
theorem not_keepsName_apostrophe :
    ¬∀ (d : Dialect) (name : String), allBlank name.toList = false → '\r' ∉ name.toList →
      d.delimiters.left ∉ name.toList → d.delimiters.right ∉ name.toList → d.KeepsName name := by
  intro hall
  have hkeeps := hall mySql "it's" (by decide) (by decide) (by decide) (by decide)
  obtain ⟨tokens, hnormalize, -⟩ := hkeeps.tokens
  have hrefused : (mySql.normalize (mySql.selectEscaped "it's")).isOk = false := by
    decide +kernel
  rw [hnormalize] at hrefused
  cases hrefused

end Dialect

end SqlTree

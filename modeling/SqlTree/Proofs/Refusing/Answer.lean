import SqlTree.Proofs.Placing
import SqlTree.Proofs.Refusing.Statement

/-!
# What a text is refused for

From the text to the error.  Every error that has a place points at an offset of the text, but for
one case: at the end of the input the column is counted on from the start of the last token, so
that it is beside the text when there is a line feed in that token
(`Dialect.parse_error_located`).  No promise is ever broken, and what is refused as a whole is
empty, nested too deep or too long (`Dialect.parse_error_expected`).
-/

namespace SqlTree

open Text SqlTree.Parser

/-! ## What the grammar refuses -/

/-- No tokens are no statement. -/
theorem Settings.statement_nil (settings : Settings) :
    settings.statement (Cursor.start []) = .error (.statement .emptyInput) (Cursor.start []) :=
  rfl

/-- Tokens are refused because there are none, or where the grammar stopped among them.  No
promise is broken: neither are queries named before something else, nor is a token taken where
none is left. -/
theorem Settings.refused {settings : Settings} {tokens : List Token} {e : Error} {c : Cursor}
    (hfails : settings.statement (Cursor.start tokens) = .error e c) :
    (tokens = [] ∧ e = .statement .emptyInput) ∨
      (tokens ≠ [] ∧ c.tokens = tokens ∧ e.MetAt c ∧ ∀ cause, e ≠ .internal cause) := by
  by_cases htokens : tokens = []
  · subst htokens
    rw [settings.statement_nil] at hfails
    cases hfails
    exact .inl ⟨rfl, rfl⟩
  · have hmet := Settings.metAt_of_statement (c := Cursor.start tokens) htokens hfails
    have hends := settings.ends_read .statement (Cursor.start tokens)
    change Ends _ _ 1 2 (settings.statement (Cursor.start tokens)) at hends
    rw [hfails] at hends
    cases hends with
    | error hpasses hwithin =>
        refine .inr ⟨htokens, hpasses.tokens_eq, hmet, fun cause hinternal => ?_⟩
        obtain ⟨kind, rfl⟩ := hwithin.internal cause hinternal
        subst hinternal
        cases hmet

namespace Dialect

variable {d : Dialect} {text : String} {e : Error}

/-- A text is refused before the grammar or by it. -/
theorem parse_eq_error :
    d.parse text = .error e ↔ d.normalize text = .error e ∨
      ∃ normalized c, d.normalize text = .ok normalized ∧
        d.settings.statement (Cursor.start normalized.tokens) = .error e c := by
  cases hnormalize : d.normalize text with
  | error e' =>
      rw [parse, parseWith, hnormalize]
      constructor
      · intro h
        cases h
        exact .inl rfl
      · rintro (h | ⟨normalized, c, h, -⟩)
        · cases h
          rfl
        · cases h
  | ok normalized =>
      rw [parse_of_normalize hnormalize, Settings.statementOf]
      constructor
      · intro h
        cases hread : d.settings.statement (Cursor.start normalized.tokens) with
        | ok a c =>
            rw [hread] at h
            cases h
        | error e' c =>
            rw [hread] at h
            cases h
            exact .inr ⟨normalized, c, rfl, hread⟩
      · rintro (h | ⟨normalized', c, h, hread⟩)
        · cases h
        · cases h
          rw [hread]
          rfl

end Dialect

/-! ## Places -/

/-- What the line and the column of an error say of a text, where the grammar stopped at a cursor.
Before a token they are those of the token.  At the end they are those of the offset just behind
the last token, and of any offset at all, just when there is no line feed in that token. -/
def Cursor.Locates (cs : List Char) (c : Cursor) (line column : Nat) : Prop :=
  match c.ahead, c.behind with
  | token :: _, _ => Stands cs token.span.start line column
  | [], last :: _ =>
    (Stands cs last.span.stop line column ↔ '\n' ∉ (cs.take last.span.stop).drop last.span.start) ∧
      ((∃ offset, Stands cs offset line column) ↔
        '\n' ∉ (cs.take last.span.stop).drop last.span.start)
  | [], [] => False

/-- Among tokens that stand in a text, the place of a cursor is as it should be but for line feeds
in the last token. -/
theorem Cursor.locates_place {cs : List Char} {c : Cursor} (hne : c.tokens ≠ [])
    (hplaced : ∀ token ∈ c.tokens, token.PlacedIn cs) : c.Locates cs c.place.1 c.place.2 := by
  obtain ⟨behind, ahead, depth⟩ := c
  cases ahead with
  | cons token ahead =>
      exact (hplaced token (List.mem_append_right _ (List.mem_cons_self ..))).stands
  | nil =>
      cases behind with
      | nil => exact (hne rfl).elim
      | cons last behind =>
          have hlast :=
            hplaced last (List.mem_append_left _ (List.mem_reverse.2 (List.mem_cons_self ..)))
          have hle : last.span.start ≤ last.span.stop := Nat.le_of_lt hlast.nonempty
          have hexists := hlast.stands.exists_further_iff hle hlast.inside
          refine ⟨⟨fun hstands => hexists.1 ⟨_, hstands⟩, fun hline => ?_⟩, hexists⟩
          exact hlast.stands.further hle hlast.inside hline

/-- An error of a text and where it says that it is. -/
def Error.LocatedIn (d : Dialect) (text : String) : Error → Prop
  | .lexical _ line column => ∃ offset, Stands (unifyNewlines text.toList) offset line column
  | .grammar cause line column =>
    ∃ normalized c, d.normalize text = .ok normalized ∧
      d.settings.statement (Cursor.start normalized.tokens) =
        .error (.grammar cause line column) c ∧
      c.tokens = normalized.tokens ∧ cause.Tells c.found ∧
      c.Locates (unifyNewlines text.toList) line column
  | _ => True

namespace Dialect

variable {d : Dialect} {text : String} {e : Error}

/-- Whatever a text is refused for is refused at an offset of the text, if at a place at all.
Before the grammar that is always so.  The grammar stops before a token, which is then the one at
that place, or at the end; and there the place is the one behind the last token as long as that
token has no line feed. -/
theorem parse_error_located (hparse : d.parse text = .error e) : e.LocatedIn d text := by
  have hpoints := d.points_normalize text
  rcases parse_eq_error.1 hparse with hnormalize | ⟨normalized, c, hnormalize, hfails⟩
  · rw [hnormalize] at hpoints
    cases hpoints with
    | error hstands => exact ⟨_, hstands⟩
  · rw [hnormalize] at hpoints
    cases hpoints with
    | ok hplaced =>
        rcases Settings.refused hfails with ⟨-, rfl⟩ | ⟨hne, htokens, hmet, hpromise⟩
        · trivial
        · cases e with
          | lexical => exact hmet.elim
          | grammar cause line column =>
              obtain ⟨hplace, htells⟩ := hmet
              refine ⟨normalized, c, hnormalize, hfails, htokens, htells, ?_⟩
              have hlocates := Cursor.locates_place (htokens ▸ hne) (htokens ▸ hplaced)
              rwa [← hplace] at hlocates
          | statement | unsupported | internal => trivial

/-- In `SELECT a FROM` the end of the input stands behind the last token. -/
theorem parse_error_located_endOfInput :
    mySql.parse "SELECT a FROM" = .error (.grammar (.expected .tableName .endOfInput) 1 14) ∧
      (Error.grammar (.expected .tableName .endOfInput) 1 14).LocatedIn mySql "SELECT a FROM" := by
  have hparse : mySql.parse "SELECT a FROM" =
      .error (.grammar (.expected .tableName .endOfInput) 1 14) := by
    have hrefused : (match mySql.parse "SELECT a FROM" with
      | .ok _ => false
      | .error e => decide (e = .grammar (.expected .tableName .endOfInput) 1 14)) = true := by
      decide +kernel
    split at hrefused
    case h_1 => cases hrefused
    case h_2 e heq => rw [heq, of_decide_eq_true hrefused]
  exact ⟨hparse, parse_error_located hparse⟩

/-- In `SELECT ('a` and a second line that reads `b'`, the last token ends in that line.  The
error at the end of the input is told to be in column 14 of the first line, which has eleven. -/
theorem not_parse_error_located_lineFeed :
    ¬∀ (d : Dialect) (text : String) (cause : GrammarCause) (line column : Nat),
      d.parse text = .error (.grammar cause line column) →
        ∃ offset, Stands (unifyNewlines text.toList) offset line column := by
  intro hall
  have hrefused : (match mySql.parse "SELECT ('a\nb'" with
    | .ok _ => false
    | .error e => decide (e = .grammar (.expected (.token .rparen) .endOfInput) 1 14)) = true := by
    decide +kernel
  split at hrefused
  case h_1 => cases hrefused
  case h_2 e heq =>
    rw [of_decide_eq_true hrefused] at heq
    obtain ⟨offset, hstands⟩ := hall _ _ _ _ _ heq
    rw [unifyNewlines_eq_self (by decide +kernel)] at hstands
    obtain ⟨hinside, hline, hcolumn⟩ := stands_iff.1 hstands
    have hnone : ∀ offset ≤ "SELECT ('a\nb'".toList.length,
        (Place.start.advance ("SELECT ('a\nb'".toList.take offset)).line = 1 →
          (Place.start.advance ("SELECT ('a\nb'".toList.take offset)).column ≠ 14 := by
      decide +kernel
    exact hnone offset hinside hline.symm hcolumn.symm

/-- What the lexer and the pass behind it refuse has a place, so an error that has none comes from
the grammar. -/
theorem exists_refused_of_parse (hparse : d.parse text = .error e)
    (hlexical : ∀ cause line column, e ≠ .lexical cause line column) :
    ∃ normalized c, d.normalize text = .ok normalized ∧
      d.settings.statement (Cursor.start normalized.tokens) = .error e c := by
  rcases parse_eq_error.1 hparse with hnormalize | hgrammar
  · have hpoints := d.points_normalize text
    rw [hnormalize] at hpoints
    cases hpoints with
    | error => exact (hlexical _ _ _ rfl).elim
  · exact hgrammar

/-- Nothing but the text itself makes a text fail.  No caller breaks a promise, and apart from the
lexer and the grammar a text is refused for being nested too deep or too long, or for having no
tokens; this is said just when it is so. -/
theorem parse_error_expected (d : Dialect) (text : String) :
    (∀ cause, d.parse text ≠ .error (.internal cause)) ∧
      (∀ cause, d.parse text = .error (.statement cause) →
        cause = .emptyInput ∨ (∃ cap, cause = .tooDeep cap) ∨
          ∃ construct cap, cause = .tooManyIterations construct cap) ∧
      (d.parse text = .error (.statement .emptyInput) ↔
        ∃ normalized, d.normalize text = .ok normalized ∧ normalized.tokens = []) := by
  refine ⟨fun cause hparse => ?_, fun cause hparse => ?_, fun hparse => ?_, ?_⟩
  · obtain ⟨normalized, c, -, hfails⟩ := exists_refused_of_parse hparse nofun
    rcases Settings.refused hfails with ⟨-, he⟩ | ⟨-, -, -, hpromise⟩
    · cases he
    · exact hpromise cause rfl
  · obtain ⟨normalized, c, -, hfails⟩ := exists_refused_of_parse hparse nofun
    rcases Settings.refused hfails with ⟨-, he⟩ | ⟨-, -, hmet, -⟩
    · cases he
      exact .inl rfl
    · cases cause with
      | tooManyIterations construct cap => exact .inr (.inr ⟨construct, cap, rfl⟩)
      | tooDeep cap => exact .inr (.inl ⟨cap, rfl⟩)
      | emptyInput | unknownDialect | stated => exact hmet.elim
  · obtain ⟨normalized, c, hnormalize, hfails⟩ := exists_refused_of_parse hparse nofun
    rcases Settings.refused hfails with ⟨hnil, -⟩ | ⟨-, -, hmet, -⟩
    · exact ⟨normalized, hnormalize, hnil⟩
    · exact hmet.elim
  · rintro ⟨normalized, hnormalize, hnil⟩
    have hempty := d.settings.statement_nil
    rw [← hnil] at hempty
    exact parse_eq_error.2 (.inr ⟨normalized, _, hnormalize, hempty⟩)

end Dialect

end SqlTree

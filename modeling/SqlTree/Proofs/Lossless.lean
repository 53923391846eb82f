import SqlTree.Proofs.LetterCase.Letters
import SqlTree.Proofs.Position
import SqlTree.Proofs.Reaching

/-!
# Tokens lose nothing

A text that can be read as tokens is laid out as blanks and the characters of the tokens, one
after the other (`Tiles`).  So the spans of the tokens are in order and cover everything but
blanks, the characters in a span are what the token is written as, and the place of a token is
that of its first character.  Main statement: `Lexicon.tokenize_lossless`.
-/

namespace SqlTree

open Text Lexer

/-! ## What a token is written as -/

/-- The characters that a token was read from and the text behind them, by the type of the token.
An escaped identifier is not read as one token. -/
def Token.WrittenAs (chars rest : List Char) (token : Token) : Prop :=
  match token.type with
  | .identifier | .keyword _ =>
    token.text.toList = chars ∧ ∀ c, rest.head? = some c → continuesWord c = false
  | .number => token.text.toList = chars ∧ ∀ c, rest.head? = some c → c.isDigit = false ∧ c ≠ '.'
  | .string => chars = Quoted.write token.text.toList
  | .nationalString =>
    ∃ letter, (letter = 'N' ∨ letter = 'n') ∧ chars = letter :: Quoted.write token.text.toList
  | .lineComment =>
    ∃ body, chars = ['-', '-'] ++ body ∧ '\n' ∉ body ∧ (rest = [] ∨ rest.head? = some '\n') ∧
      token.text.toList = trim body
  | .blockComment =>
    ∃ body, chars = ['/', '*'] ++ body ++ ['*', '/'] ∧ ¬['*', '/'] <:+: body ∧
      token.text.toList = trim body
  | .hint =>
    ∃ body, chars = ['/', '*', '+'] ++ body ++ ['*', '/'] ∧ ¬['*', '/'] <:+: body ∧
      token.text.toList = trim body
  | .quotedIdentifier => False
  | _ => token.text.toList = chars

/-- A token says the truth about the characters of a text in its span: they are what it is written
as, and it stands in the line and the column of the first of them. -/
structure Token.TrueTo (cs : List Char) (token : Token) : Prop where
  nonempty : token.span.start < token.span.stop
  inside : token.span.stop ≤ cs.length
  written : token.WrittenAs ((cs.take token.span.stop).drop token.span.start)
    (cs.drop token.span.stop)
  stands : Stands cs token.span.start token.span.line token.span.column

/-- Tokens that lose nothing of a text. -/
structure Lossless (cs : List Char) (tokens : List Token) : Prop where
  /-- Every token says the truth about the text. -/
  trueTo : ∀ token ∈ tokens, token.TrueTo cs
  /-- Each token ends where the next one starts, or before that. -/
  ordered : tokens.Pairwise fun a b => a.span.stop ≤ b.span.start
  /-- Outside of all spans there are blanks only. -/
  blank : ∀ offset c, cs[offset]? = some c →
    (∀ token ∈ tokens, ¬(token.span.start ≤ offset ∧ offset < token.span.stop)) →
      c ∈ [' ', '\t', '\n', '\r']

namespace Lexer

variable {lx : Lexicon} {p : Piece} {cs front rest : List Char} {tokens : List Token}
    {place : Place}

/-! ## Lexemes -/

/-- A body ends at the first mark that closes it. -/
theorem length_le_of_splitClose {before body tail rest : List Char}
    (hsplit : splitClose (before ++ '*' :: '/' :: tail) = some (body, rest)) :
    body.length ≤ before.length := by
  generalize hcs : before ++ '*' :: '/' :: tail = cs at hsplit
  fun_induction splitClose cs generalizing before body with
  | case1 => cases hsplit
  | case2 =>
      cases hsplit
      exact Nat.zero_le _
  | case3 c cs hnot ih =>
      obtain ⟨⟨inner, left⟩, hinner, heq⟩ := Option.map_eq_some_iff.1 hsplit
      cases heq
      cases before with
      | nil =>
          rw [List.nil_append, List.cons.injEq] at hcs
          exact (hnot tail hcs.1.symm hcs.2.symm).elim
      | cons d before =>
          rw [List.cons_append, List.cons.injEq] at hcs
          exact Nat.succ_le_succ (ih hcs.2 hinner)

/-- No mark that closes a comment stands in its body. -/
theorem ClosedBy.not_infix {body : List Char} (hclosed : ClosedBy body) :
    ¬['*', '/'] <:+: body := by
  rintro ⟨before, tail, hbody⟩
  have hfirst := hclosed []
  nth_rewrite 1 [← hbody] at hfirst
  rw [List.append_assoc, List.append_assoc] at hfirst
  have hle := length_le_of_splitClose hfirst
  have hlength := congrArg List.length hbody
  simp only [List.length_append, List.length_cons, List.length_nil] at hlength
  omega

/-- Only one letter is raised to this one, beside itself. -/
theorem eq_of_toUpper_eq {c : Char} (hc : c.toUpper = 'N') : c = 'N' ∨ c = 'n' := by
  by_cases hlower : c.isLower = true
  · right
    have hupper : ¬c.isUpper = true := Char.not_isUpper_of_isLower hlower
    calc
      c = c.toLower := (Char.toLower_eq_of_not_isUpper hupper).symm
      _ = c.toUpper.toLower := (Char.toLower_toUpper_eq_toLower c).symm
      _ = 'n' := congrArg Char.toLower hc
  · left
    exact (Char.toUpper_eq_of_not_isLower hlower).symm.trans hc

/-- A national string is opened by one letter. -/
theorem exists_letter_of_opensNational {chars : List Char}
    (hopens : opensNational lx (String.ofList chars) = true) :
    ∃ letter, (letter = 'N' ∨ letter = 'n') ∧ chars = [letter] := by
  have hword : upper (String.ofList chars) = upper "N" :=
    sameWord_iff.1 (Bool.and_eq_true_iff.1 hopens).2
  have hraised : raised chars = ['N'] := by
    rw [upper_ofList] at hword
    have hlist := congrArg String.toList hword
    rwa [String.toList_ofList] at hlist
  obtain ⟨letter, rfl, hletter⟩ := List.map_eq_singleton_iff.1 hraised
  exact ⟨letter, eq_of_toUpper_eq hletter, rfl⟩

/-- A sign is written as its text says. -/
theorem writtenAs_sign {token : Token} {chars : List Char}
    (hclass : token.type.tokenClass = .symbol ∨ token.type.tokenClass = .operator)
    (htext : token.text.toList = chars) : token.WrittenAs chars rest := by
  obtain ⟨type, text, span⟩ := token
  cases type <;> first | exact htext | (rcases hclass with hclass | hclass <;> cases hclass)

theorem tokenClass_symbols :
    ∀ entry ∈ symbols, entry.2.tokenClass = .symbol ∨ entry.2.tokenClass = .operator := by
  decide

theorem writtenAs_word {type : TokenType} {chars : List Char} {span : Span}
    (htype : wordType lx (String.ofList chars) = type) (hstops : Stops continuesWord rest) :
    Token.WrittenAs chars rest ⟨type, String.ofList chars, span⟩ := by
  have htext : (String.ofList chars).toList = chars := String.toList_ofList
  rw [wordType] at htype
  generalize lx.dialect.keyword? (String.ofList chars) = keyword at htype
  cases keyword with
  | none =>
      subst htype
      exact ⟨htext, hstops⟩
  | some word =>
      subst htype
      exact ⟨htext, hstops⟩

theorem writtenAs_number {chars : List Char} {span : Span} (hstops : Stops Char.isDigit rest)
    (hpoint : rest.head? ≠ some '.') :
    Token.WrittenAs chars rest ⟨.number, String.ofList chars, span⟩ := by
  refine ⟨String.toList_ofList, fun c hc => ⟨hstops c hc, ?_⟩⟩
  rintro rfl
  exact hpoint hc

/-- A lexeme is written as its token says. -/
theorem Lexeme.writtenAs {type : TokenType} {text : String} (hlexeme : Lexeme lx p)
    (htoken : p.token = some (type, text)) (span : Span) :
    Token.WrittenAs p.chars p.rest ⟨type, text, span⟩ := by
  cases hlexeme with
  | separator => cases htoken
  | @line body rest hbody hstops =>
      cases htoken
      refine ⟨body, rfl, fun hfeed => ?_, ?_, String.toList_ofList⟩
      · exact absurd (hbody _ hfeed) (by decide)
      · cases rest with
        | nil => exact .inl rfl
        | cons c rest => exact .inr (congrArg some (by simpa using stops_cons.1 hstops))
  | @block body rest hclosed =>
      cases htoken
      exact ⟨body, rfl, hclosed.not_infix, String.toList_ofList⟩
  | @hint body rest hclosed =>
      cases htoken
      exact ⟨body, rfl, hclosed.not_infix, String.toList_ofList⟩
  | word hfirst hchars hstops =>
      obtain ⟨htype, rfl⟩ := Prod.mk.inj (Option.some.inj htoken)
      exact writtenAs_word htype hstops
  | @national first chars text rest hfirst hchars hopens =>
      cases htoken
      obtain ⟨letter, hletter, hone⟩ := exists_letter_of_opensNational hopens
      refine ⟨letter, hletter, ?_⟩
      dsimp only
      rw [hone, String.toList_ofList]
      rfl
  | whole hdigits hstops hpoint =>
      cases htoken
      exact writtenAs_number hstops hpoint
  | fraction hdigits hfraction hstops hpoint =>
      cases htoken
      exact writtenAs_number hstops hpoint
  | @string text rest =>
      cases htoken
      change Quoted.write text = Quoted.write (String.ofList text).toList
      rw [String.toList_ofList]
  | symbol hfind =>
      cases htoken
      exact writtenAs_sign (tokenClass_symbols _ (List.mem_of_find?_eq_some hfind))
        String.toList_ofList

/-! ## Texts laid out -/

/-- A text behind some front of it is laid out as blanks and the characters of tokens. -/
inductive Tiles : List Char → List Char → List Token → Prop where
  | nil {front : List Char} : Tiles front [] []
  /-- A blank stands first. -/
  | blank {front rest : List Char} {c : Char} {tokens : List Token} (hc : isSeparator c = true)
      (hrest : Tiles (front ++ [c]) rest tokens) : Tiles front (c :: rest) tokens
  /-- The characters of a token stand first. -/
  | token {front chars rest : List Char} {token : Token} {tokens : List Token} (hchars : chars ≠ [])
      (hwritten : token.WrittenAs chars rest)
      (hspan : token.span = .between (Place.start.advance front)
        (Place.start.advance (front ++ chars)))
      (hrest : Tiles (front ++ chars) rest tokens) : Tiles front (chars ++ rest) (token :: tokens)

/-- A piece is a blank, or its characters are those of its token. -/
theorem tiles_piece {c : Char} (hpiece : piece lx c cs = .ok p)
    (hrest : Tiles (front ++ p.chars) p.rest tokens) :
    Tiles front (c :: cs) ((p.tokenBetween (Place.start.advance front)
      (Place.start.advance (front ++ p.chars))).toList ++ tokens) := by
  obtain ⟨hlexeme, hfront⟩ := lexeme_of_piece hpiece
  rw [← hfront]
  cases htoken : p.token with
  | some found =>
      simp only [Piece.tokenBetween, htoken, Option.map_some, Option.toList_some,
        List.cons_append, List.nil_append]
      exact .token hlexeme.chars_ne_nil (hlexeme.writtenAs htoken _) rfl hrest
  | none =>
      simp only [Piece.tokenBetween, htoken, Option.map_none, Option.toList_none, List.nil_append]
      cases hlexeme with
      | separator hc => exact .blank hc hrest
      | _ => cases htoken

/-- What is read of a text from the place behind a front of it lays the text out. -/
theorem Scanned.tiles (h : Scanned lx place cs tokens)
    (hplace : place = Place.start.advance front) :
    Tiles front cs tokens := by
  induction h generalizing front with
  | nil => exact .nil
  | piece hpiece _ ih =>
      subst hplace
      rw [← Place.advance_append]
      exact tiles_piece hpiece (ih (Place.advance_append ..).symm)

/-! ## What the layout says of the tokens -/

namespace Tiles

/-- What stands between two offsets, where a front, some characters and a rest make up the text. -/
theorem slice_eq {chars : List Char} :
    ((front ++ (chars ++ rest)).take (front ++ chars).length).drop front.length = chars ∧
      (front ++ (chars ++ rest)).drop (front ++ chars).length = rest := by
  rw [← List.append_assoc, List.take_left, List.drop_left, List.drop_left]
  exact ⟨rfl, rfl⟩

theorem offset_start (cs : List Char) : (Place.start.advance cs).offset = cs.length := by
  rw [Place.offset_advance]
  exact Nat.zero_add _

/-- Every token says the truth, and none of them starts before the layout does. -/
theorem trueTo (h : Tiles front cs tokens) :
    ∀ token ∈ tokens, token.TrueTo (front ++ cs) ∧ front.length ≤ token.span.start := by
  induction h with
  | nil => exact List.forall_mem_nil _
  | @blank front rest c tokens hc hrest ih =>
      intro token htoken
      obtain ⟨htrue, hstart⟩ := ih token htoken
      rw [List.append_assoc] at htrue
      rw [List.length_append] at hstart
      exact ⟨htrue, by omega⟩
  | @token front chars rest token tokens hchars hwritten hspan hrest ih =>
      have hlength : (front ++ chars).length = front.length + chars.length := List.length_append
      have hpositive := List.length_pos_iff.2 hchars
      intro other hother
      rcases List.mem_cons.1 hother with rfl | hother
      · have hstart : other.span.start = front.length := by
          rw [hspan]
          exact offset_start front
        have hstop : other.span.stop = (front ++ chars).length := by
          rw [hspan]
          exact offset_start (front ++ chars)
        refine ⟨⟨?_, ?_, ?_, ?_⟩, hstart.ge⟩
        · omega
        · have hlength : (front ++ chars ++ rest).length = (front ++ chars).length + rest.length :=
            List.length_append
          rw [hstop, ← List.append_assoc, hlength]
          exact Nat.le_add_right _ _
        · rw [hstart, hstop, slice_eq.1, slice_eq.2]
          exact hwritten
        · rw [hstart, hspan]
          exact stands_advance front (chars ++ rest)
      · obtain ⟨htrue, hstart⟩ := ih other hother
        rw [List.append_assoc] at htrue
        exact ⟨htrue, by omega⟩

theorem ordered (h : Tiles front cs tokens) :
    tokens.Pairwise fun a b => a.span.stop ≤ b.span.start := by
  induction h with
  | nil => exact .nil
  | blank hc hrest ih => exact ih
  | @token front chars rest token tokens hchars hwritten hspan hrest ih =>
      refine .cons (fun other hother => ?_) ih
      have hstop : token.span.stop = (front ++ chars).length := by
        rw [hspan]
        exact offset_start (front ++ chars)
      rw [hstop]
      exact (hrest.trueTo other hother).2

/-- What no token covers is a blank. -/
theorem blanks (h : Tiles front cs tokens) {offset : Nat} {c : Char}
    (hc : (front ++ cs)[offset]? = some c) (hoffset : front.length ≤ offset)
    (huncovered : ∀ token ∈ tokens, ¬(token.span.start ≤ offset ∧ offset < token.span.stop)) :
    isSeparator c = true := by
  induction h with
  | @nil front =>
      rw [List.append_nil, List.getElem?_eq_none hoffset] at hc
      cases hc
  | @blank front rest d tokens hd hrest ih =>
      by_cases hhere : offset = front.length
      · rw [hhere, List.getElem?_append_right (Nat.le_refl _), Nat.sub_self] at hc
        cases hc
        exact hd
      · refine ih ?_ ?_ huncovered
        · rwa [List.append_assoc]
        · rw [List.length_append, List.length_singleton]
          omega
  | @token front chars rest token tokens hchars hwritten hspan hrest ih =>
      rw [List.forall_mem_cons] at huncovered
      have hstart : token.span.start = front.length := by
        rw [hspan]
        exact offset_start front
      have hstop : token.span.stop = (front ++ chars).length := by
        rw [hspan]
        exact offset_start (front ++ chars)
      refine ih ?_ ?_ huncovered.2
      · rwa [List.append_assoc]
      · have hbehind := huncovered.1
        omega

/-- A layout of a whole text loses nothing of it. -/
theorem lossless (h : Tiles [] cs tokens) : Lossless cs tokens := by
  constructor
  · exact fun token htoken => (h.trueTo token htoken).1
  · exact h.ordered
  · intro offset c hc huncovered
    have hblank := h.blanks hc (Nat.zero_le _) huncovered
    simpa [isSeparator, or_assoc] using hblank

end Tiles

end Lexer

/-- Whatever can be read as tokens is told by them, but for its blanks: the spans are in order,
lie in the text and leave out nothing but spaces, tabs, line feeds and carriage returns; each
token is written in its span as its type and text say, and stands in the line and the column of
its first character. -/
theorem Lexicon.tokenize_lossless (lx : Lexicon) {text : String} {tokens : List Token}
    (hread : lx.tokenize text = .ok tokens) : Lossless (unifyNewlines text.toList) tokens := by
  obtain ⟨_, rfl, hscanned⟩ := scanned_of_run hread
  have htiles : Tiles [] (unifyNewlines text.toList) _ := hscanned.tiles rfl
  exact htiles.lossless

/-- A national string, two comments and a line feed in one of them. -/
theorem Lexicon.tokenize_lossless_nationalString :
    ∃ tokens, Dialect.sqlServer.lexicon.tokenize "N'it''s' -- c\n/* d\n*/ a<=1." = .ok tokens ∧
      tokens.length = 6 ∧ Lossless "N'it''s' -- c\n/* d\n*/ a<=1.".toList tokens := by
  have hread : (match Dialect.sqlServer.lexicon.tokenize "N'it''s' -- c\n/* d\n*/ a<=1." with
    | .ok tokens => tokens.length == 6
    | .error _ => false) = true := by
    decide +kernel
  split at hread
  case h_1 tokens htokens =>
      have hlossless := Lexicon.tokenize_lossless _ htokens
      rw [unifyNewlines_eq_self (by decide +kernel)] at hlossless
      exact ⟨tokens, htokens, eq_of_beq hread, hlossless⟩
  case h_2 => cases hread

end SqlTree

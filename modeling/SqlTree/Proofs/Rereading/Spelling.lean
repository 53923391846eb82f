import SqlTree.Proofs.Derivation.Grammar
import SqlTree.Proofs.Scan

/-!
# Texts that are read as wanted

What is read of a text that other text stands behind, told by what is true of the tokens: their
spans depend on where the text stands, but nothing that is wanted of them does.  A text is put
together from blanks, symbols, words, numbers and strings, and each of them is one piece of the
lexer.
-/

namespace SqlTree

open Text

/-- A token that is no comment, opens no escaped identifier, and is spelled as a dialect spells
it. -/
structure Token.Usual (token : Token) : Prop where
  spelled : token.Spelled
  comment : token.type.isComment = false
  delimiter : token.type ≠ .doubleQuote

theorem Token.Usual.of_type {token : Token} (hkeyword : token.type.isKeyword = false)
    (hcomment : token.type.isComment = false) (hquote : token.type ≠ .doubleQuote) :
    token.Usual := by
  refine ⟨?_, hcomment, hquote⟩
  intro word hword
  rw [hword] at hkeyword
  cases hkeyword

/-- One token alone, of a type and with a text. -/
def Token.Alone (type : TokenType) (text : String) (tokens : List Token) : Prop :=
  ∃ token, tokens = [token] ∧ token.type = type ∧ token.text = text

/-- The lexical options of the dialect that trees are written in, with a cap on the pieces. -/
def Lexicon.postgreSql (maxSteps : Nat) : Lexicon :=
  { Dialect.postgreSql.lexicon with maxSteps }

namespace Lexer

variable {lx : Lexicon} {maxSteps : Nat} {c first : Char} {chars cs xs ys rest : List Char}
  {type : TokenType} {text : String} {P R : List Token → Prop}

/-! ## Pieces of a written tree -/

theorem symbols_usual :
    ∀ entry ∈ symbols, entry.2.isKeyword = false ∧ entry.2.isComment = false ∧ '\r' ∉ entry.1 := by
  decide

theorem noReturn_of_continuesWord (hchars : ∀ d ∈ chars, continuesWord d = true) :
    '\r' ∉ chars := by
  intro hmem
  have hreturn : continuesWord '\r' = false := by decide +kernel
  rw [hchars _ hmem] at hreturn
  cases hreturn

theorem wordType_postgreSql (text : String) :
    wordType (.postgreSql maxSteps) text =
      match Dialect.postgreSql.keyword? text with
      | some keyword => .keyword keyword
      | none => .identifier :=
  rfl

/-- Words open no national string. -/
theorem piece_word_postgreSql (hfirst : startsWord first = true)
    (hchars : ∀ d ∈ first :: chars, continuesWord d = true) (hrest : Stops continuesWord rest) :
    piece (.postgreSql maxSteps) first (chars ++ rest) =
      .ok (wordPiece (.postgreSql maxSteps) (first :: chars) rest) := by
  refine piece_word hfirst hchars hrest ?_
  intro hopens
  cases hopens

/-- The words that a dialect reserves are made of letters, and it knows them by their spelling. -/
theorem keyword?_postgreSql :
    ∀ entry ∈ Dialect.postgreSql.keywords, Dialect.postgreSql.keyword? entry.1 = some entry.2 ∧
      (entry.1.toList.all fun d => startsWord d && continuesWord d) = true ∧
      entry.1.toList ≠ [] := by
  decide +kernel

/-! ## Texts -/

/-- A text before another one is read as usual tokens of which something is true, with no more steps
and no more tokens than it has characters. -/
structure Spells (lx : Lexicon) (chars rest : List Char) (R : List Token → Prop) : Prop where
  noReturn : '\r' ∉ chars
  run : ∀ steps place done, chars.length ≤ steps → ∃ tokens left place',
    Lexer.run lx steps place done (chars ++ rest) =
        Lexer.run lx left place' (tokens.reverse ++ done) rest ∧
      steps ≤ left + chars.length ∧ tokens.length ≤ chars.length ∧
      (∀ token ∈ tokens, token.Usual) ∧ R tokens

namespace Spells

theorem nil (h : R []) : Spells lx [] rest R := by
  refine ⟨List.not_mem_nil, fun steps place done _ => ⟨[], steps, place, rfl, ?_⟩⟩
  exact ⟨Nat.le_refl _, Nat.le_refl _, fun _ hnil => absurd hnil List.not_mem_nil, h⟩

theorem mono (h : Spells lx chars rest P) (himp : ∀ tokens, P tokens → R tokens) :
    Spells lx chars rest R := by
  refine ⟨h.noReturn, fun steps place done hsteps => ?_⟩
  obtain ⟨tokens, left, place', hrun, hleft, hcount, husual, htokens⟩ :=
    h.run steps place done hsteps
  exact ⟨tokens, left, place', hrun, hleft, hcount, husual, himp tokens htokens⟩

/-- One text after another. -/
theorem append (before : Spells lx xs (ys ++ rest) P)
    (after : ∀ tokens, P tokens → Spells lx ys rest fun more => R (tokens ++ more)) :
    Spells lx (xs ++ ys) rest R := by
  obtain ⟨_, _, _, _, _, _, _, hsome⟩ := before.run xs.length Place.start [] (Nat.le_refl _)
  have hys : '\r' ∉ ys := (after _ hsome).noReturn
  refine ⟨?_, fun steps place done hsteps => ?_⟩
  · rw [List.mem_append, not_or]
    exact ⟨before.noReturn, hys⟩
  · rw [List.length_append] at hsteps
    obtain ⟨tokens, left, place', hrun, hleft, hcount, husual, htokens⟩ :=
      before.run steps place done (by omega)
    obtain ⟨more, left', place'', hrun', hleft', hcount', husual', hmore⟩ :=
      (after tokens htokens).run left place' (tokens.reverse ++ done) (by omega)
    refine ⟨tokens ++ more, left', place'', ?_, ?_, ?_, ?_, hmore⟩
    · rw [List.append_assoc, hrun, hrun', List.reverse_append, List.append_assoc]
    · rw [List.length_append]
      omega
    · rw [List.length_append, List.length_append]
      omega
    · intro token htoken
      rcases List.mem_append.1 htoken with hbefore | hafter
      · exact husual token hbefore
      · exact husual' token hafter

/-- One token and a text after it. -/
theorem token (before : Spells lx xs (ys ++ rest) (Token.Alone type text))
    (after : ∀ token : Token, token.type = type → token.text = text →
      Spells lx ys rest fun more => R (token :: more)) :
    Spells lx (xs ++ ys) rest R := by
  refine before.append ?_
  rintro tokens ⟨token, rfl, htype, htext⟩
  exact after token htype htext

theorem blank (h : Spells lx cs rest R) : Spells lx (' ' :: cs) rest R := by
  refine ⟨?_, fun steps place done hsteps => ?_⟩
  · rw [List.mem_cons, not_or]
    exact ⟨by decide, h.noReturn⟩
  · rw [List.length_cons] at hsteps
    obtain ⟨left, rfl⟩ : ∃ left, steps = left + 1 := ⟨steps - 1, by omega⟩
    obtain ⟨tokens, left', place', hrun, hleft, hcount, htokens⟩ :=
      h.run left (place.advance [' ']) done (by omega)
    refine ⟨tokens, left', place', ?_, ?_, ?_, htokens⟩
    · rw [List.cons_append, Lexer.run, piece_separator rfl]
      exact hrun
    · rw [List.length_cons]
      omega
    · rw [List.length_cons]
      omega

/-- A piece that stands for a token. -/
theorem piece (hpiece : Lexer.piece lx c (cs ++ rest) = .ok ⟨c :: cs, some (type, text), rest⟩)
    (hreturn : '\r' ∉ c :: cs) (husual : ∀ span, Token.Usual ⟨type, text, span⟩) :
    Spells lx (c :: cs) rest (Token.Alone type text) := by
  refine ⟨hreturn, fun steps place done hsteps => ?_⟩
  rw [List.length_cons] at hsteps
  obtain ⟨left, rfl⟩ : ∃ left, steps = left + 1 := ⟨steps - 1, by omega⟩
  let stop := place.advance (c :: cs)
  let token : Token := ⟨type, text, .between place stop⟩
  refine ⟨[token], left, stop, ?_, ?_, ?_, ?_, token, rfl, rfl, rfl⟩
  · rw [List.cons_append, Lexer.run, hpiece]
    rfl
  · rw [List.length_cons]
    omega
  · rw [List.length_singleton, List.length_cons]
    omega
  · intro t ht
    rw [List.mem_singleton.1 ht]
    exact husual _

/-! ## Symbols -/

theorem symbol {spelling : List Char}
    (hfind : symbols.find? (fun entry => entry.1.isPrefixOf (spelling ++ rest)) =
      some (spelling, type))
    (hcomment : ¬OpensComment (spelling ++ rest)) (hquote : type ≠ .doubleQuote) :
    Spells lx spelling rest (Token.Alone type (String.ofList spelling)) := by
  have hmem := List.mem_of_find?_eq_some hfind
  obtain ⟨hkeyword, hnoComment, hreturn⟩ := symbols_usual _ hmem
  obtain ⟨first, tail, hspelling, -⟩ := symbols_first _ hmem
  obtain rfl : spelling = first :: tail := hspelling
  have hpiece : Lexer.piece lx first (tail ++ rest) = _ := piece_symbol hfind hcomment rfl
  exact piece hpiece hreturn fun _ => .of_type hkeyword hnoComment hquote

/-- A symbol of one character. -/
theorem sign
    (hfind : symbols.find? (fun entry => entry.1.isPrefixOf (c :: (cs ++ rest))) = some ([c], type))
    (hcomment : ¬OpensComment (c :: (cs ++ rest))) (hquote : type ≠ .doubleQuote)
    (after : ∀ token : Token, token.type = type →
      Spells lx cs rest fun more => R (token :: more)) :
    Spells lx (c :: cs) rest R := by
  have hfirst : Spells lx [c] (cs ++ rest) (Token.Alone type (String.ofList [c])) :=
    symbol hfind hcomment hquote
  exact hfirst.token fun token htype _ => after token htype

/-- A symbol of one character that opens no comment. -/
theorem mark
    (hfind : symbols.find? (fun entry => entry.1.isPrefixOf (c :: (cs ++ rest))) = some ([c], type))
    (hslash : c ≠ '/') (hdash : c ≠ '-') (hquote : type ≠ .doubleQuote)
    (after : ∀ token : Token, token.type = type →
      Spells lx cs rest fun more => R (token :: more)) :
    Spells lx (c :: cs) rest R :=
  sign hfind (not_opensComment hslash hdash) hquote after

/-! ## Words, numbers and strings -/

/-- A word that is not reserved. -/
theorem word (hfirst : startsWord first = true)
    (hchars : ∀ d ∈ first :: chars, continuesWord d = true)
    (hfree : Dialect.postgreSql.keyword? (String.ofList (first :: chars)) = none)
    (hrest : Stops continuesWord rest) :
    Spells (.postgreSql maxSteps) (first :: chars) rest
      (Token.Alone .identifier (String.ofList (first :: chars))) := by
  have hpiece : Lexer.piece (.postgreSql maxSteps) first (chars ++ rest) = _ :=
    piece_word_postgreSql hfirst hchars hrest
  rw [wordPiece, wordType_postgreSql, hfree] at hpiece
  exact piece hpiece (noReturn_of_continuesWord hchars) fun _ => .of_type rfl rfl nofun

/-- A word that is reserved. -/
theorem keyword {keyword : Keyword} (hmem : (text, keyword) ∈ Dialect.postgreSql.keywords)
    (hrest : Stops continuesWord rest) :
    Spells (.postgreSql maxSteps) text.toList rest (Token.Alone (.keyword keyword) text) := by
  obtain ⟨hkeyword, hletters, hne⟩ := keyword?_postgreSql _ hmem
  obtain ⟨first, chars, heq⟩ := List.exists_cons_of_ne_nil hne
  rw [heq, List.all_eq_true] at hletters
  have hfirst : startsWord first = true :=
    (Bool.and_eq_true_iff.1 (hletters first List.mem_cons_self)).1
  have hchars : ∀ d ∈ first :: chars, continuesWord d = true :=
    fun d hd => (Bool.and_eq_true_iff.1 (hletters d hd)).2
  have htext : String.ofList (first :: chars) = text := by
    rw [← heq, String.ofList_toList]
  have hpiece : Lexer.piece (.postgreSql maxSteps) first (chars ++ rest) = _ :=
    piece_word_postgreSql hfirst hchars hrest
  rw [wordPiece, wordType_postgreSql, htext, hkeyword] at hpiece
  have husual : ∀ span, Token.Usual ⟨.keyword keyword, text, span⟩ := by
    refine fun span => ⟨?_, rfl, nofun⟩
    intro word hword
    cases hword
    exact ⟨.postgreSql, hkeyword⟩
  change text.toList = first :: chars at heq
  rw [heq]
  exact piece hpiece (noReturn_of_continuesWord hchars) husual

/-- A reserved word and a text after it. -/
theorem reserved (word : Keyword) (text : String)
    (hmem : (text, word) ∈ Dialect.postgreSql.keywords) (hrest : Stops continuesWord (cs ++ rest))
    (after : ∀ token : Token, token.type = .keyword word →
      Spells (.postgreSql maxSteps) cs rest fun more => R (token :: more)) :
    Spells (.postgreSql maxSteps) (text.toList ++ cs) rest R :=
  (keyword hmem hrest).token fun token htype _ => after token htype

theorem string {content : List Char} (hreturn : '\r' ∉ content) (hrest : rest.head? ≠ some '\'') :
    Spells lx (Quoted.write content) rest (Token.Alone .string (String.ofList content)) := by
  have hwritten : '\r' ∉ Quoted.write content := by
    rw [Quoted.mem_write (by decide)]
    exact hreturn
  have hfront : Quoted.double content ++ ['\''] ++ rest = Quoted.double content ++ '\'' :: rest :=
    (List.append_cons ..).symm
  have hpiece : Lexer.piece lx '\'' (Quoted.double content ++ '\'' :: rest) = _ :=
    piece_string hrest
  rw [← hfront] at hpiece
  exact piece hpiece hwritten fun _ => .of_type rfl rfl nofun

/-- Digits with one point at most, the first one a digit. -/
theorem number (hfirst : first.isDigit = true) (hchars : ∀ d ∈ chars, d.isDigit = true ∨ d = '.')
    (hcount : chars.count '.' ≤ 1) (hrest : Stops Char.isDigit rest)
    (hpoint : rest.head? ≠ some '.') :
    Spells lx (first :: chars) rest
      (Token.Alone .number (String.ofList (first :: chars))) := by
  have hreturn : '\r' ∉ first :: chars := by
    intro hmem
    rcases List.mem_cons.1 hmem with rfl | htail
    · cases hfirst
    · rcases hchars _ htail with hdigit | hdot
      · cases hdigit
      · cases hdot
  have husual : ∀ span, Token.Usual ⟨.number, String.ofList (first :: chars), span⟩ :=
    fun _ => .of_type rfl rfl nofun
  have hwhole : ∀ d ∈ first :: chars.takeWhile Char.isDigit, d.isDigit = true := by
    intro d hd
    rcases List.mem_cons.1 hd with rfl | htail
    · exact hfirst
    · exact List.mem_takeWhile_imp htail
  have hsplit := List.takeWhile_append_dropWhile (p := Char.isDigit) (l := chars)
  cases hleft : chars.dropWhile Char.isDigit with
  | nil =>
      rw [hleft, List.append_nil] at hsplit
      rw [hsplit] at hwhole
      exact piece (piece_whole hwhole hrest hpoint) hreturn husual
  | cons point fraction =>
      rw [hleft] at hsplit
      have hstop : point.isDigit = false :=
        stops_dropWhile Char.isDigit chars point (congrArg List.head? hleft)
      have hmem : point ∈ chars := by
        rw [← hsplit]
        exact List.mem_append_right _ List.mem_cons_self
      obtain rfl : point = '.' := by
        rcases hchars point hmem with hdigit | hdot
        · rw [hstop] at hdigit
          cases hdigit
        · exact hdot
      have hnoPoint : '.' ∉ fraction := by
        rw [← hsplit, List.count_append, List.count_cons_self] at hcount
        rw [← List.count_eq_zero]
        omega
      have hfraction : ∀ d ∈ fraction, d.isDigit = true := by
        intro d hd
        have hd' : d ∈ chars := by
          rw [← hsplit]
          exact List.mem_append_right _ (List.mem_cons_of_mem _ hd)
        exact (hchars d hd').resolve_right fun hdot => hnoPoint (hdot ▸ hd)
      have hpiece : Lexer.piece lx first _ = _ := piece_fraction hwhole hfraction hrest hpoint
      rw [← List.cons_append, ← List.append_assoc, List.cons_append, hsplit] at hpiece
      exact piece hpiece hreturn husual

end Spells

end Lexer

end SqlTree

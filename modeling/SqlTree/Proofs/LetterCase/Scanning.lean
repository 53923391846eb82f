import SqlTree.Proofs.LetterCase.Letters

/-!
# Tokens of a text in upper case

Raising the letters of a text raises the letters of its tokens and leaves their types and spans as
they are; where the text cannot be read, it leaves the place of the error (`tokenize_upper`).  One
piece is followed first, kind by kind, and then the run over all pieces.
-/

namespace SqlTree

open Text

def LexicalCause.raised : LexicalCause → LexicalCause
  | .unexpectedCharacter c => .unexpectedCharacter c.toUpper
  | cause => cause

def Error.raised : Error → Error
  | .lexical cause line column => .lexical cause.raised line column
  | e => e

def Token.raised (token : Token) : Token :=
  { token with text := upper token.text }

def mapResult {ε ε' α β : Type} (f : ε → ε') (g : α → β) : Except ε α → Except ε' β
  | .ok a => .ok (g a)
  | .error e => .error (f e)

theorem mapResult_bind
    {ε ε' α α' β β' : Type} {f : ε → ε'} {g : α → α'} {h : β → β'} {x : Except ε α}
    {next : α → Except ε β} {next' : α' → Except ε' β'}
    (hnext : ∀ a, next' (g a) = mapResult f h (next a)) :
    mapResult f g x >>= next' = mapResult f h (x >>= next) := by
  cases x with
  | error e => rfl
  | ok a => exact hnext a

namespace Lexer

variable {lx : Lexicon} {c : Char} {cs : List Char}

def Piece.raised (p : Piece) : Piece :=
  ⟨Text.raised p.chars, p.token.map fun (type, text) => (type, upper text), Text.raised p.rest⟩

def Fault.raised (fault : Fault) : Fault :=
  ⟨fault.cause.raised, Text.raised fault.before⟩

/-- What is read of a text with its letters in upper case. -/
abbrev raisedReading : Except Fault Piece → Except Fault Piece :=
  mapResult Fault.raised Piece.raised

/-! ## One piece -/

theorem commentText_raised (body : List Char) :
    commentText (raised body) = upper (commentText body) := by
  rw [commentText, trim_raised, commentText, upper_ofList]

theorem commentAfter_raised (type : TokenType) {opening : List Char}
    (hopening : opening.any Char.isAlpha = false) (cs : List Char) :
    commentAfter type opening (raised cs) = raisedReading (commentAfter type opening cs) := by
  rw [commentAfter, splitClose_raised, commentAfter]
  cases splitClose cs with
  | none => rfl
  | some parts =>
      obtain ⟨body, rest⟩ := parts
      simp only [Option.map_some, mapResult, Piece.raised, raised_append, raised_eq_self hopening,
        commentText_raised]
      rfl

theorem blockComment_raised (cs : List Char) :
    blockComment lx (raised cs) = raisedReading (blockComment lx cs) := by
  by_cases hhint : lx.hintComments = true ∧ cs.head? = some '+'
  · obtain ⟨rest, rfl⟩ := List.head?_eq_some_iff.1 hhint.2
    rw [raised_cons, toUpper_eq_self (by decide), blockComment_hint hhint.1,
      blockComment_hint hhint.1]
    exact commentAfter_raised .hint (by decide) rest
  · have hplain := not_and.1 hhint
    have hraised : lx.hintComments = true → (raised cs).head? ≠ some '+' := by
      rwa [ne_eq, head?_raised (by decide)]
    rw [blockComment_plain hplain, blockComment_plain hraised]
    exact commentAfter_raised .blockComment (by decide) cs

theorem lineComment_raised (cs : List Char) :
    lineComment (raised cs) = (lineComment cs).raised := by
  have hbreak : IsCaseBlind (· != '\n') := isCaseBlind_ne (by decide)
  unfold lineComment
  dsimp only
  rw [hbreak.takeWhile_raised, hbreak.dropWhile_raised, commentText_raised]
  rfl

theorem string_raised (type : TokenType) (before cs : List Char) :
    string type (raised before) (raised cs) = raisedReading (string type before cs) := by
  rw [string, readBody_raised, string]
  cases Quoted.readBody cs with
  | none => rfl
  | some parts =>
      simp only [Option.map_some, mapResult, Piece.raised, raised_append, write_raised,
        upper_ofList]

theorem wordType_upper (text : String) : wordType lx (upper text) = wordType lx text := by
  rw [wordType, lx.dialect.keyword?_congr (sameWord_iff.2 (upper_upper text)), wordType]

theorem opensNational_upper (text : String) :
    opensNational lx (upper text) = opensNational lx text := by
  rw [opensNational, sameWord_upper, opensNational]

theorem wordPiece_raised (chars rest : List Char) :
    wordPiece lx (raised chars) (raised rest) = (wordPiece lx chars rest).raised := by
  rw [wordPiece, ← upper_ofList, wordType_upper]
  rfl

theorem word_raised (cs : List Char) : word lx (raised cs) = raisedReading (word lx cs) := by
  have htake := isCaseBlind_continuesWord.takeWhile_raised cs
  have hdrop := isCaseBlind_continuesWord.dropWhile_raised cs
  have hopens : opensNational lx (String.ofList ((raised cs).takeWhile continuesWord)) =
      opensNational lx (String.ofList (cs.takeWhile continuesWord)) := by
    rw [htake, ← upper_ofList, opensNational_upper]
  by_cases hnational : opensNational lx (String.ofList (cs.takeWhile continuesWord)) = true ∧
      (cs.dropWhile continuesWord).head? = some '\''
  · obtain ⟨inner, hquote⟩ := List.head?_eq_some_iff.1 hnational.2
    have hraised : (raised cs).dropWhile continuesWord = '\'' :: raised inner := by
      rw [hdrop, hquote, raised_cons, toUpper_eq_self (by decide)]
    rw [word_national hnational.1 hquote, word_national (hopens.trans hnational.1) hraised, htake]
    exact string_raised .nationalString _ inner
  · have hplain := not_and.1 hnational
    have hraised : opensNational lx (String.ofList ((raised cs).takeWhile continuesWord)) = true →
        ((raised cs).dropWhile continuesWord).head? ≠ some '\'' := by
      rwa [hopens, hdrop, ne_eq, head?_raised (by decide)]
    rw [word_plain hplain, word_plain hraised, htake, hdrop, wordPiece_raised]
    rfl

theorem numberPiece_raised (chars rest : List Char) :
    numberPiece (raised chars) (raised rest) = (numberPiece chars rest).raised := by
  rw [numberPiece, ← upper_ofList]
  rfl

theorem number_raised (cs : List Char) : number (raised cs) = raisedReading (number cs) := by
  have htake := isCaseBlind_isDigit.takeWhile_raised
  have hdrop := isCaseBlind_isDigit.dropWhile_raised
  have hpoint_cons : ∀ tail, raised ('.' :: tail) = '.' :: raised tail := fun tail => by
    rw [raised_cons, toUpper_eq_self (by decide)]
  by_cases hpoint : (cs.dropWhile Char.isDigit).head? = some '.'
  · obtain ⟨fraction, hfraction⟩ := List.head?_eq_some_iff.1 hpoint
    have hraised : (raised cs).dropWhile Char.isDigit = '.' :: raised fraction := by
      rw [hdrop, hfraction, hpoint_cons]
    by_cases hsecond : (fraction.dropWhile Char.isDigit).head? = some '.'
    · obtain ⟨more, hmore⟩ := List.head?_eq_some_iff.1 hsecond
      rw [number_secondPoint hfraction hmore,
        number_secondPoint hraised (by rw [hdrop, hmore, hpoint_cons]), htake, htake, ← hpoint_cons,
        ← raised_append]
      rfl
    · have hraisedSecond : ((raised fraction).dropWhile Char.isDigit).head? ≠ some '.' := by
        rwa [hdrop, ne_eq, head?_raised (by decide)]
      rw [number_fraction hfraction hsecond, number_fraction hraised hraisedSecond, htake, htake,
        hdrop, ← hpoint_cons, ← raised_append, numberPiece_raised]
      rfl
  · have hraised : ((raised cs).dropWhile Char.isDigit).head? ≠ some '.' := by
      rwa [hdrop, ne_eq, head?_raised (by decide)]
    rw [number_whole hpoint, number_whole hraised, htake, hdrop, numberPiece_raised]
    rfl

/-- No symbol has a letter in it. -/
theorem symbols_not_isAlpha : ∀ entry ∈ symbols, entry.1.any Char.isAlpha = false := by
  decide

theorem symbol_raised (c : Char) (cs : List Char) :
    symbol c.toUpper (raised cs) = raisedReading (symbol c cs) := by
  have hfind : (symbols.find? fun entry => entry.1.isPrefixOf (c.toUpper :: raised cs)) =
      symbols.find? fun entry => entry.1.isPrefixOf (c :: cs) :=
    List.find?_congr fun entry hentry =>
      isPrefixOf_raised (symbols_not_isAlpha entry hentry) (c :: cs)
  unfold symbol
  rw [hfind]
  cases hfound : symbols.find? fun entry => entry.1.isPrefixOf (c :: cs) with
  | none => rfl
  | some found =>
      obtain ⟨spelling, type⟩ := found
      have hspelling : raised spelling = spelling :=
        raised_eq_self (symbols_not_isAlpha _ (List.mem_of_find?_eq_some hfound))
      have hdrop : (c.toUpper :: raised cs).drop spelling.length =
          raised ((c :: cs).drop spelling.length) := by
        rw [← raised_cons, raised, ← List.map_drop, raised]
      simp only [mapResult, Piece.raised, Option.map_some, hdrop, upper_ofList, hspelling]

theorem plainPiece_raised (c : Char) (cs : List Char) :
    plainPiece lx c.toUpper (raised cs) = raisedReading (plainPiece lx c cs) := by
  unfold plainPiece
  rw [isCaseBlind_isSeparator.toUpper, isCaseBlind_startsWord.toUpper, isCaseBlind_isDigit.toUpper]
  by_cases hseparator : isSeparator c = true
  · rw [if_pos hseparator, if_pos hseparator]
    rfl
  by_cases hword : startsWord c = true
  · rw [if_neg hseparator, if_neg hseparator, if_pos hword, if_pos hword]
    exact word_raised (c :: cs)
  by_cases hdigit : c.isDigit = true
  · rw [if_neg hseparator, if_neg hseparator, if_neg hword, if_neg hword, if_pos hdigit,
      if_pos hdigit]
    exact number_raised (c :: cs)
  rw [if_neg hseparator, if_neg hseparator, if_neg hword, if_neg hword, if_neg hdigit,
    if_neg hdigit]
  by_cases hquote : c = '\''
  · rw [if_pos hquote, if_pos ((toUpper_eq_iff (by decide)).2 hquote)]
    exact string_raised .string [] cs
  · rw [if_neg hquote, if_neg (mt (toUpper_eq_iff (by decide)).1 hquote)]
    exact symbol_raised c cs

theorem opensComment_raised : OpensComment (raised cs) ↔ OpensComment cs := by
  unfold OpensComment
  rw [← List.isPrefixOf_iff_prefix, ← List.isPrefixOf_iff_prefix, ← List.isPrefixOf_iff_prefix,
    ← List.isPrefixOf_iff_prefix, isPrefixOf_raised (by decide), isPrefixOf_raised (by decide)]

/-- Raising a text raises the piece at its front. -/
theorem piece_raised (c : Char) (cs : List Char) :
    piece lx c.toUpper (raised cs) = raisedReading (piece lx c cs) := by
  by_cases hcomment : OpensComment (c :: cs)
  · rcases hcomment with ⟨rest, hblock⟩ | ⟨rest, hline⟩
    · cases hblock
      exact blockComment_raised rest
    · cases hline
      exact congrArg Except.ok (lineComment_raised rest)
  · have hraised : ¬OpensComment (c.toUpper :: raised cs) := by
      rwa [← raised_cons, opensComment_raised]
    rw [piece_of_not_opensComment hcomment, piece_of_not_opensComment hraised, plainPiece_raised]

/-! ## All pieces -/

theorem next_toUpper (place : Place) (c : Char) : place.next c.toUpper = place.next c := by
  unfold Place.next
  rw [if_congr (toUpper_eq_iff (by decide)) rfl rfl]

theorem advance_raised (place : Place) (cs : List Char) :
    place.advance (raised cs) = place.advance cs := by
  rw [Place.advance, raised, List.foldl_map, funext₂ next_toUpper, Place.advance]

theorem tokenBetween_raised (p : Piece) (start stop : Place) :
    p.raised.tokenBetween start stop = (p.tokenBetween start stop).map Token.raised := by
  obtain ⟨chars, token, rest⟩ := p
  cases token with
  | none => rfl
  | some token => rfl

/-- Raising a text raises the tokens that are read of it. -/
theorem run_raised (steps : Nat) (place : Place) (done : List Token) (cs : List Char) :
    run lx steps place (done.map Token.raised) (raised cs) =
      mapResult Error.raised (List.map Token.raised) (run lx steps place done cs) := by
  fun_induction run lx steps place done cs with
  | case1 =>
      rw [raised_nil, run]
      exact congrArg Except.ok List.map_reverse.symm
  | case2 => rfl
  | case3 steps place done c cs fault hpiece =>
      rw [raised_cons, run, piece_raised, hpiece]
      simp only [mapResult, Fault.raised, advance_raised, Error.raised]
      rfl
  | case4 steps place done c cs p hpiece stop ih =>
      rw [raised_cons, run, piece_raised, hpiece]
      change run lx steps (place.advance (raised p.chars))
        ((p.raised.tokenBetween place (place.advance (raised p.chars))).toList ++
          done.map Token.raised) (raised p.rest) = _
      rw [advance_raised, tokenBetween_raised, Option.toList_map, ← List.map_append, ih]

end Lexer

/-- Raising a text raises its tokens. -/
theorem Dialect.tokenize_upper (d : Dialect) (text : String) :
    d.tokenize (upper text) = mapResult Error.raised (List.map Token.raised) (d.tokenize text) := by
  rw [tokenize, Lexicon.tokenize, toList_upper, unifyNewlines_raised]
  exact Lexer.run_raised d.lexicon.maxSteps Place.start [] (unifyNewlines text.toList)

end SqlTree

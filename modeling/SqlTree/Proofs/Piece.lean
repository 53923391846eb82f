import Mathlib.Data.List.Find
import Mathlib.Data.List.TakeWhile
import SqlTree.Token.Lexer

/-!
# Lexemes

What the pieces of a text are, told without reading: the runs of characters that make a piece, and
what must not follow them.  Main statement: a piece that is read is a lexeme at the front of the
text, and each lexeme at the front of a text is the piece that is read (`piece_eq_ok`).  A piece
that cannot be read is stopped in one of four ways (`faultAt_of_piece`).  A lexeme looks at one
character past its end, so it stays one when a text that goes on is made longer.
-/

namespace SqlTree

open Text

namespace Lexer

variable {lx : Lexicon} {c : Char} {cs chars rest : List Char} {p : Piece} {fault : Fault}

/-! ## Runs of characters -/

/-- A text does not go on with a character of a kind. -/
def Stops (test : Char → Bool) (rest : List Char) : Prop :=
  ∀ c, rest.head? = some c → test c = false

theorem Stops.nil (test : Char → Bool) : Stops test [] :=
  fun _ hhead => nomatch hhead

theorem stops_cons {test : Char → Bool} : Stops test (c :: cs) ↔ test c = false := by
  constructor
  · exact fun hstops => hstops c rfl
  · intro hc d hd
    cases hd
    exact hc

theorem takeWhile_of_stops {test : Char → Bool} (hchars : ∀ d ∈ chars, test d = true)
    (hstops : Stops test rest) :
    (chars ++ rest).takeWhile test = chars ∧ (chars ++ rest).dropWhile test = rest := by
  rw [List.takeWhile_append_of_pos hchars, List.dropWhile_append_of_pos hchars]
  cases rest with
  | nil => exact ⟨List.append_nil chars, rfl⟩
  | cons d rest =>
      have hd : ¬test d = true := by
        rw [stops_cons.1 hstops]
        exact Bool.false_ne_true
      rw [List.takeWhile_cons_of_neg hd, List.dropWhile_cons_of_neg hd]
      exact ⟨List.append_nil chars, rfl⟩

theorem stops_dropWhile (test : Char → Bool) (cs : List Char) :
    Stops test (cs.dropWhile test) := by
  intro d hd
  have hne : cs.dropWhile test ≠ [] := by
    intro hnil
    rw [hnil] at hd
    cases hd
  have hfirst := List.head_dropWhile_not test hne
  rw [List.head?_eq_some_head hne, Option.some.injEq] at hd
  exact hd ▸ hfirst

/-! ## Bodies of strings and comments -/

/-- What is read of a string, written again, is what was read, and no quote follows it. -/
theorem eq_of_readBody
    {text : List Char} (hread : Quoted.readBody cs = some (text, rest)) :
    cs = Quoted.double text ++ '\'' :: rest ∧ rest.head? ≠ some '\'' := by
  fun_induction Quoted.readBody cs generalizing text rest with
  | case1 => cases hread
  | case2 cs ih =>
      obtain ⟨⟨body, left⟩, hbody, heq⟩ := Option.map_eq_some_iff.1 hread
      cases heq
      obtain ⟨hcs, hhead⟩ := ih hbody
      refine ⟨?_, hhead⟩
      rw [hcs]
      simp [Quoted.double]
  | case3 cs hnot =>
      cases hread
      refine ⟨by simp [Quoted.double], fun hhead => ?_⟩
      obtain ⟨rest, rfl⟩ := List.head?_eq_some_iff.1 hhead
      exact hnot rest rfl rfl
  | case4 c cs hnot hne ih =>
      obtain ⟨⟨body, left⟩, hbody, heq⟩ := Option.map_eq_some_iff.1 hread
      cases heq
      obtain ⟨hcs, hhead⟩ := ih hbody
      refine ⟨?_, hhead⟩
      rw [hcs]
      simp [Quoted.double, hne]

/-- A body of a comment ends at the first mark that closes it, whatever follows that mark. -/
def ClosedBy (body : List Char) : Prop :=
  ∀ rest, splitClose (body ++ '*' :: '/' :: rest) = some (body, rest)

theorem eq_of_splitClose {body : List Char} (hsplit : splitClose cs = some (body, rest)) :
    cs = body ++ '*' :: '/' :: rest ∧ ClosedBy body := by
  fun_induction splitClose cs generalizing body with
  | case1 => cases hsplit
  | case2 cs =>
      cases hsplit
      exact ⟨rfl, fun _ => rfl⟩
  | case3 c cs hnot ih =>
      obtain ⟨⟨inner, left⟩, hinner, heq⟩ := Option.map_eq_some_iff.1 hsplit
      cases heq
      obtain ⟨rfl, hclosed⟩ := ih hinner
      refine ⟨rfl, fun more => ?_⟩
      have hopen : ∀ tail, c = '*' → inner ++ '*' :: '/' :: more = '/' :: tail → False := by
        intro tail hstar hslash
        cases inner with
        | nil => cases hslash
        | cons d inner =>
            rw [List.cons_append, List.cons.injEq] at hslash
            obtain ⟨rfl, -⟩ := hslash
            exact hnot _ hstar rfl
      rw [List.cons_append, splitClose, hclosed more]
      · rfl
      · exact hopen

/-! ## Lexemes -/

/-- The first character of a text opens a comment. -/
def OpensComment (cs : List Char) : Prop :=
  ['/', '*'] <+: cs ∨ ['-', '-'] <+: cs

/-- Pieces as they stand in a text: the characters, the token, and what must not follow. -/
inductive Lexeme (lx : Lexicon) : Piece → Prop where
  /-- A blank. -/
  | separator {c : Char} {rest : List Char} (hc : isSeparator c = true) :
      Lexeme lx ⟨[c], none, rest⟩
  /-- A comment to the end of the line. -/
  | line {body rest : List Char} (hbody : ∀ d ∈ body, (d != '\n') = true)
      (hrest : Stops (· != '\n') rest) :
      Lexeme lx ⟨'-' :: '-' :: body, some (.lineComment, commentText body), rest⟩
  /-- A comment between its marks. -/
  | block {body rest : List Char} (hclosed : ClosedBy body)
      (hplus : lx.hintComments = true → body.head? ≠ some '+') :
      Lexeme lx ⟨['/', '*'] ++ body ++ ['*', '/'], some (.blockComment, commentText body), rest⟩
  /-- A hint. -/
  | hint {body rest : List Char} (hclosed : ClosedBy body) (hhint : lx.hintComments = true) :
      Lexeme lx ⟨['/', '*', '+'] ++ body ++ ['*', '/'], some (.hint, commentText body), rest⟩
  /-- A word that is not the letter of a national string. -/
  | word {first : Char} {chars rest : List Char} (hfirst : startsWord first = true)
      (hchars : ∀ d ∈ first :: chars, continuesWord d = true) (hrest : Stops continuesWord rest)
      (hquote : opensNational lx (String.ofList (first :: chars)) = true →
        rest.head? ≠ some '\'') :
      Lexeme lx (wordPiece lx (first :: chars) rest)
  /-- A national string. -/
  | national {first : Char} {chars text rest : List Char} (hfirst : startsWord first = true)
      (hchars : ∀ d ∈ first :: chars, continuesWord d = true)
      (hopens : opensNational lx (String.ofList (first :: chars)) = true)
      (hrest : rest.head? ≠ some '\'') :
      Lexeme lx ⟨first :: chars ++ Quoted.write text,
        some (.nationalString, String.ofList text), rest⟩
  /-- A number without a point. -/
  | whole {first : Char} {digits rest : List Char}
      (hdigits : ∀ d ∈ first :: digits, d.isDigit = true) (hrest : Stops Char.isDigit rest)
      (hpoint : rest.head? ≠ some '.') :
      Lexeme lx (numberPiece (first :: digits) rest)
  /-- A number with a point. -/
  | fraction {first : Char} {digits fraction rest : List Char}
      (hdigits : ∀ d ∈ first :: digits, d.isDigit = true)
      (hfraction : ∀ d ∈ fraction, d.isDigit = true) (hrest : Stops Char.isDigit rest)
      (hpoint : rest.head? ≠ some '.') :
      Lexeme lx (numberPiece (first :: digits ++ '.' :: fraction) rest)
  /-- A string. -/
  | string {text rest : List Char} (hrest : rest.head? ≠ some '\'') :
      Lexeme lx ⟨Quoted.write text, some (.string, String.ofList text), rest⟩
  /-- A symbol, the longest one that stands at its place. -/
  | symbol {spelling rest : List Char} {type : TokenType}
      (hfind : symbols.find? (fun entry => entry.1.isPrefixOf (spelling ++ rest)) =
        some (spelling, type))
      (hcomment : ¬OpensComment (spelling ++ rest)) :
      Lexeme lx ⟨spelling, some (type, String.ofList spelling), rest⟩

/-! ## What is read, by what stands ahead -/

theorem blockComment_hint (hhint : lx.hintComments = true) :
    blockComment lx ('+' :: cs) = commentAfter .hint ['/', '*', '+'] cs := by
  rw [blockComment]
  exact hhint

theorem blockComment_plain (hplain : lx.hintComments = true → cs.head? ≠ some '+') :
    blockComment lx cs = commentAfter .blockComment ['/', '*'] cs := by
  rw [blockComment]
  rintro tail hhint rfl
  exact hplain hhint rfl

theorem word_national {inner : List Char}
    (hopens : opensNational lx (String.ofList (cs.takeWhile continuesWord)) = true)
    (hquote : cs.dropWhile continuesWord = '\'' :: inner) :
    word lx cs = string .nationalString (cs.takeWhile continuesWord) inner := by
  rw [word, hopens, hquote]
  rfl

theorem word_plain
    (hplain : opensNational lx (String.ofList (cs.takeWhile continuesWord)) = true →
      (cs.dropWhile continuesWord).head? ≠ some '\'') :
    word lx cs = .ok (wordPiece lx (cs.takeWhile continuesWord) (cs.dropWhile continuesWord)) := by
  unfold word
  split
  · next inner hopens hquote => exact (hplain hopens (congrArg List.head? hquote)).elim
  · rfl

theorem number_whole (hpoint : (cs.dropWhile Char.isDigit).head? ≠ some '.') :
    number cs = .ok (numberPiece (cs.takeWhile Char.isDigit) (cs.dropWhile Char.isDigit)) := by
  unfold number
  split
  · next fraction hrest => exact (hpoint (congrArg List.head? hrest)).elim
  · rfl

theorem number_fraction {fraction : List Char}
    (hpoint : cs.dropWhile Char.isDigit = '.' :: fraction)
    (hsecond : (fraction.dropWhile Char.isDigit).head? ≠ some '.') :
    number cs =
      .ok (numberPiece (cs.takeWhile Char.isDigit ++ '.' :: fraction.takeWhile Char.isDigit)
        (fraction.dropWhile Char.isDigit)) := by
  unfold number
  simp only [hpoint]
  split
  · next more hmore => exact (hsecond (congrArg List.head? hmore)).elim
  · rfl

theorem number_secondPoint {fraction more : List Char}
    (hpoint : cs.dropWhile Char.isDigit = '.' :: fraction)
    (hsecond : fraction.dropWhile Char.isDigit = '.' :: more) :
    number cs = .error
      ⟨.secondPoint, cs.takeWhile Char.isDigit ++ '.' :: fraction.takeWhile Char.isDigit⟩ := by
  unfold number
  simp only [hpoint, hsecond]

/-! ## Reading a lexeme -/

/-- Words start with no character before the letters of ASCII. -/
theorem le_toNat_of_startsWord (hc : startsWord c = true) : 0x41 ≤ c.toNat := by
  simp only [startsWord, Bool.or_eq_true, beq_iff_eq] at hc
  rcases hc with hc | rfl
  · by_cases hlow : c.toNat < 0x41
    · rw [isAlphabetic, alphabeticRanges, inRanges, if_pos hlow] at hc
      cases hc
    · omega
  · decide

theorem not_startsWord_of_lt (hc : c.toNat < 0x41) : startsWord c = false := by
  cases hword : startsWord c with
  | false => rfl
  | true =>
      have hle := le_toNat_of_startsWord hword
      omega

theorem toNat_of_isSeparator (hc : isSeparator c = true) : c.toNat < 0x21 := by
  simp only [isSeparator, Bool.or_eq_true, beq_iff_eq] at hc
  rcases hc with ((rfl | rfl) | rfl) | rfl <;> decide

theorem not_isSeparator_of_le (hc : 0x21 ≤ c.toNat) : isSeparator c = false := by
  cases hseparator : isSeparator c with
  | false => rfl
  | true =>
      have hlt := toNat_of_isSeparator hseparator
      omega

theorem piece_of_not_opensComment (hcomment : ¬OpensComment (c :: cs)) :
    piece lx c cs = plainPiece lx c cs := by
  rw [piece]
  · rintro tail rfl rfl
    exact hcomment (.inl ⟨tail, rfl⟩)
  · rintro tail rfl rfl
    exact hcomment (.inr ⟨tail, rfl⟩)

/-- A comment starts with a character of its own. -/
theorem not_opensComment (hslash : c ≠ '/') (hdash : c ≠ '-') : ¬OpensComment (c :: cs) := by
  rintro (⟨tail, heq⟩ | ⟨tail, heq⟩)
  · exact hslash (List.cons.inj heq).1.symm
  · exact hdash (List.cons.inj heq).1.symm

theorem piece_separator (hc : isSeparator c = true) : piece lx c cs = .ok ⟨[c], none, cs⟩ := by
  have hlt := toNat_of_isSeparator hc
  rw [piece_of_not_opensComment, plainPiece, if_pos hc]
  apply not_opensComment
  · rintro rfl
    exact absurd hlt (by decide)
  · rintro rfl
    exact absurd hlt (by decide)

theorem piece_of_startsWord (hc : startsWord c = true) : piece lx c cs = word lx (c :: cs) := by
  have hle := le_toNat_of_startsWord hc
  have hseparator : ¬isSeparator c = true := by
    rw [not_isSeparator_of_le (by omega)]
    exact Bool.false_ne_true
  rw [piece_of_not_opensComment, plainPiece, if_neg hseparator, if_pos hc]
  apply not_opensComment
  · rintro rfl
    exact absurd hle (by decide)
  · rintro rfl
    exact absurd hle (by decide)

theorem piece_of_isDigit (hc : c.isDigit = true) : piece lx c cs = number (c :: cs) := by
  obtain ⟨hle, hge⟩ : 0x30 ≤ c.toNat ∧ c.toNat ≤ 0x39 := Char.isDigit_iff_toNat.1 hc
  have hseparator : ¬isSeparator c = true := by
    rw [not_isSeparator_of_le (by omega)]
    exact Bool.false_ne_true
  have hword : ¬startsWord c = true := by
    rw [not_startsWord_of_lt (by omega)]
    exact Bool.false_ne_true
  rw [piece_of_not_opensComment, plainPiece, if_neg hseparator, if_neg hword, if_pos hc]
  apply not_opensComment
  · rintro rfl
    exact absurd hle (by decide)
  · rintro rfl
    exact absurd hle (by decide)

theorem piece_quote : piece lx '\'' cs = string .string [] cs := by
  rw [piece_of_not_opensComment (not_opensComment (by decide) (by decide)), plainPiece,
    if_neg (by decide), if_neg, if_neg (by decide), if_pos rfl]
  rw [not_startsWord_of_lt (by decide)]
  exact Bool.false_ne_true

/-- No symbol starts like a blank, a word, a number or a string. -/
theorem symbols_first :
    ∀ entry ∈ symbols, ∃ c tail, entry.1 = c :: tail ∧ isSeparator c = false ∧
      startsWord c = false ∧ c.isDigit = false ∧ c ≠ '\'' := by
  have hfirst : (symbols.all fun entry => entry.1.head?.any fun c =>
      !isSeparator c && !startsWord c && !c.isDigit && c != '\'') = true := by
    decide +kernel
  intro entry hentry
  have hstart := List.all_eq_true.1 hfirst entry hentry
  cases heq : entry.1 with
  | nil =>
      rw [heq] at hstart
      cases hstart
  | cons c tail =>
      rw [heq, List.head?_cons, Option.any_some] at hstart
      simp only [Bool.and_eq_true, Bool.not_eq_true', bne_iff_ne, ne_eq, and_assoc] at hstart
      exact ⟨c, tail, rfl, hstart⟩

theorem piece_line {body : List Char} (hbody : ∀ d ∈ body, (d != '\n') = true)
    (hrest : Stops (· != '\n') rest) :
    piece lx '-' ('-' :: (body ++ rest)) =
      .ok ⟨'-' :: '-' :: body, some (.lineComment, commentText body), rest⟩ := by
  obtain ⟨htake, hdrop⟩ := takeWhile_of_stops hbody hrest
  change Except.ok (lineComment (body ++ rest)) = _
  unfold lineComment
  rw [htake, hdrop]

theorem commentAfter_of_closedBy {body : List Char} (hclosed : ClosedBy body) {type : TokenType}
    {opening : List Char} :
    commentAfter type opening (body ++ '*' :: '/' :: rest) =
      .ok ⟨opening ++ body ++ ['*', '/'], some (type, commentText body), rest⟩ := by
  rw [commentAfter, hclosed rest]

theorem piece_hint {body : List Char} (hclosed : ClosedBy body) (hhint : lx.hintComments = true) :
    piece lx '/' ('*' :: '+' :: (body ++ '*' :: '/' :: rest)) =
      .ok ⟨['/', '*', '+'] ++ body ++ ['*', '/'], some (.hint, commentText body), rest⟩ := by
  change blockComment lx _ = _
  unfold blockComment
  rw [hhint]
  exact commentAfter_of_closedBy hclosed

theorem piece_block {body : List Char} (hclosed : ClosedBy body)
    (hplus : lx.hintComments = true → body.head? ≠ some '+') :
    piece lx '/' ('*' :: (body ++ '*' :: '/' :: rest)) =
      .ok ⟨['/', '*'] ++ body ++ ['*', '/'], some (.blockComment, commentText body), rest⟩ := by
  change blockComment lx _ = _
  rw [blockComment]
  · exact commentAfter_of_closedBy hclosed
  · intro tail hhint heq
    cases body with
    | nil => cases heq
    | cons d body =>
        rw [List.cons_append, List.cons.injEq] at heq
        exact hplus hhint (congrArg some heq.1)

theorem piece_word {first : Char} (hfirst : startsWord first = true)
    (hchars : ∀ d ∈ first :: chars, continuesWord d = true) (hrest : Stops continuesWord rest)
    (hquote : opensNational lx (String.ofList (first :: chars)) = true → rest.head? ≠ some '\'') :
    piece lx first (chars ++ rest) = .ok (wordPiece lx (first :: chars) rest) := by
  obtain ⟨htake, hdrop⟩ := takeWhile_of_stops hchars hrest
  rw [piece_of_startsWord hfirst, ← List.cons_append, word_plain, htake, hdrop]
  rwa [htake, hdrop]

theorem not_continuesWord_quote : continuesWord '\'' = false := by
  decide +kernel

theorem piece_national {first : Char} {text : List Char} (hfirst : startsWord first = true)
    (hchars : ∀ d ∈ first :: chars, continuesWord d = true)
    (hopens : opensNational lx (String.ofList (first :: chars)) = true)
    (hrest : rest.head? ≠ some '\'') :
    piece lx first (chars ++ (Quoted.write text ++ rest)) =
      .ok ⟨first :: chars ++ Quoted.write text,
        some (.nationalString, String.ofList text), rest⟩ := by
  have hquote : Stops continuesWord (Quoted.write text ++ rest) :=
    stops_cons.2 not_continuesWord_quote
  obtain ⟨htake, hdrop⟩ := takeWhile_of_stops hchars hquote
  have hbody : Quoted.write text ++ rest = '\'' :: (Quoted.double text ++ '\'' :: rest) := by
    simp [Quoted.write]
  rw [piece_of_startsWord hfirst, ← List.cons_append,
    word_national (by rwa [htake]) (hdrop.trans hbody), htake, string,
    Quoted.readBody_double hrest]

theorem piece_string {text : List Char} (hrest : rest.head? ≠ some '\'') :
    piece lx '\'' (Quoted.double text ++ '\'' :: rest) =
      .ok ⟨Quoted.write text, some (.string, String.ofList text), rest⟩ := by
  rw [piece_quote, string, Quoted.readBody_double hrest]
  rfl

theorem piece_whole {first : Char} {digits : List Char}
    (hdigits : ∀ d ∈ first :: digits, d.isDigit = true) (hrest : Stops Char.isDigit rest)
    (hpoint : rest.head? ≠ some '.') :
    piece lx first (digits ++ rest) = .ok (numberPiece (first :: digits) rest) := by
  obtain ⟨htake, hdrop⟩ := takeWhile_of_stops hdigits hrest
  rw [piece_of_isDigit (hdigits first List.mem_cons_self), ← List.cons_append, number_whole,
    htake, hdrop]
  rwa [hdrop]

theorem piece_fraction {first : Char} {digits fraction : List Char}
    (hdigits : ∀ d ∈ first :: digits, d.isDigit = true)
    (hfraction : ∀ d ∈ fraction, d.isDigit = true) (hrest : Stops Char.isDigit rest)
    (hpoint : rest.head? ≠ some '.') :
    piece lx first (digits ++ '.' :: (fraction ++ rest)) =
      .ok (numberPiece (first :: digits ++ '.' :: fraction) rest) := by
  have hstop : Stops Char.isDigit ('.' :: (fraction ++ rest)) := stops_cons.2 (by decide)
  obtain ⟨htake, hdrop⟩ := takeWhile_of_stops hdigits hstop
  obtain ⟨htake', hdrop'⟩ := takeWhile_of_stops hfraction hrest
  rw [piece_of_isDigit (hdigits first List.mem_cons_self), ← List.cons_append,
    number_fraction hdrop, htake, htake', hdrop']
  rwa [hdrop']

theorem piece_symbol {spelling : List Char} {type : TokenType}
    (hfind : symbols.find? (fun entry => entry.1.isPrefixOf (spelling ++ rest)) =
      some (spelling, type))
    (hcomment : ¬OpensComment (spelling ++ rest)) (hfront : spelling ++ rest = c :: cs) :
    piece lx c cs = .ok ⟨spelling, some (type, String.ofList spelling), rest⟩ := by
  obtain ⟨first, tail, hspelling, hseparator, hword, hdigit, hquote⟩ :=
    symbols_first _ (List.mem_of_find?_eq_some hfind)
  dsimp only at hspelling
  subst hspelling
  rw [List.cons_append, List.cons.injEq] at hfront
  obtain ⟨rfl, rfl⟩ := hfront
  rw [List.cons_append] at hcomment hfind
  rw [piece_of_not_opensComment hcomment, plainPiece, hseparator, hword, hdigit,
    if_neg Bool.false_ne_true, if_neg Bool.false_ne_true, if_neg Bool.false_ne_true, if_neg hquote,
    symbol, hfind]
  simp

/-- A lexeme at the front of a text is the piece that is read. -/
theorem piece_of_lexeme (hlexeme : Lexeme lx p) (hfront : p.chars ++ p.rest = c :: cs) :
    piece lx c cs = .ok p := by
  cases hlexeme with
  | separator hc =>
      cases hfront
      exact piece_separator hc
  | line hbody hrest =>
      cases hfront
      exact piece_line hbody hrest
  | block hclosed hplus =>
      rw [List.append_assoc, List.append_assoc] at hfront
      cases hfront
      exact piece_block hclosed hplus
  | hint hclosed hhint =>
      rw [List.append_assoc, List.append_assoc] at hfront
      cases hfront
      exact piece_hint hclosed hhint
  | word hfirst hchars hrest hquote =>
      cases hfront
      exact piece_word hfirst hchars hrest hquote
  | national hfirst hchars hopens hrest =>
      rw [List.append_assoc] at hfront
      cases hfront
      exact piece_national hfirst hchars hopens hrest
  | whole hdigits hrest hpoint =>
      cases hfront
      exact piece_whole hdigits hrest hpoint
  | fraction hdigits hfraction hrest hpoint =>
      rw [numberPiece, List.append_assoc] at hfront
      cases hfront
      exact piece_fraction hdigits hfraction hrest hpoint
  | string hrest =>
      rw [Quoted.write, List.cons_append, List.append_assoc] at hfront
      cases hfront
      exact piece_string hrest
  | symbol hfind hcomment => exact piece_symbol hfind hcomment hfront

/-! ## A piece is a lexeme -/

theorem lexeme_of_string
    {type : TokenType} {before : List Char} (hpiece : string type before cs = .ok p) :
    ∃ text rest, cs = Quoted.double text ++ '\'' :: rest ∧ rest.head? ≠ some '\'' ∧
      p = ⟨before ++ Quoted.write text, some (type, String.ofList text), rest⟩ := by
  unfold string at hpiece
  cases hread : Quoted.readBody cs with
  | none =>
      rw [hread] at hpiece
      cases hpiece
  | some found =>
      obtain ⟨text, rest⟩ := found
      rw [hread] at hpiece
      cases hpiece
      obtain ⟨hcs, hrest⟩ := eq_of_readBody hread
      exact ⟨text, rest, hcs, hrest, rfl⟩

theorem lexeme_of_commentAfter
    {type : TokenType} {opening : List Char} (hpiece : commentAfter type opening cs = .ok p) :
    ∃ body rest, cs = body ++ '*' :: '/' :: rest ∧ ClosedBy body ∧
      p = ⟨opening ++ body ++ ['*', '/'], some (type, commentText body), rest⟩ := by
  unfold commentAfter at hpiece
  cases hsplit : splitClose cs with
  | none =>
      rw [hsplit] at hpiece
      cases hpiece
  | some found =>
      obtain ⟨body, rest⟩ := found
      rw [hsplit] at hpiece
      cases hpiece
      obtain ⟨hcs, hclosed⟩ := eq_of_splitClose hsplit
      exact ⟨body, rest, hcs, hclosed, rfl⟩

theorem lexeme_of_blockComment (hpiece : blockComment lx cs = .ok p) :
    Lexeme lx p ∧ p.chars ++ p.rest = '/' :: '*' :: cs := by
  by_cases hhint : lx.hintComments = true ∧ cs.head? = some '+'
  · obtain ⟨tail, rfl⟩ := List.head?_eq_some_iff.1 hhint.2
    rw [blockComment_hint hhint.1] at hpiece
    obtain ⟨body, rest, rfl, hclosed, rfl⟩ := lexeme_of_commentAfter hpiece
    exact ⟨.hint hclosed hhint.1, by simp⟩
  · have hplain := not_and.1 hhint
    rw [blockComment_plain hplain] at hpiece
    obtain ⟨body, rest, rfl, hclosed, rfl⟩ := lexeme_of_commentAfter hpiece
    refine ⟨.block hclosed fun hhint hhead => hplain hhint ?_, by simp⟩
    obtain ⟨body, rfl⟩ := List.head?_eq_some_iff.1 hhead
    rfl

theorem lexeme_of_word (hfirst : startsWord c = true) (hpiece : word lx (c :: cs) = .ok p) :
    Lexeme lx p ∧ p.chars ++ p.rest = c :: cs := by
  have hchars : ∀ d ∈ (c :: cs).takeWhile continuesWord, continuesWord d = true :=
    fun _ hd => List.mem_takeWhile_imp hd
  have hsplit := List.takeWhile_append_dropWhile (p := continuesWord) (l := c :: cs)
  have hstops := stops_dropWhile continuesWord (c :: cs)
  have hcons : (c :: cs).takeWhile continuesWord = c :: cs.takeWhile continuesWord :=
    List.takeWhile_cons_of_pos (continuesWord_of_startsWord hfirst)
  rw [hcons] at hchars hsplit
  by_cases hnational : opensNational lx (String.ofList ((c :: cs).takeWhile continuesWord)) = true ∧
      ((c :: cs).dropWhile continuesWord).head? = some '\''
  · obtain ⟨inner, hrest⟩ := List.head?_eq_some_iff.1 hnational.2
    rw [word_national hnational.1 hrest, hcons] at hpiece
    obtain ⟨text, rest, rfl, hquote, rfl⟩ := lexeme_of_string hpiece
    refine ⟨.national hfirst hchars (hcons ▸ hnational.1) hquote, ?_⟩
    rw [← hsplit, hrest]
    simp [Quoted.write]
  · have hplain := not_and.1 hnational
    rw [word_plain hplain, hcons] at hpiece
    cases hpiece
    exact ⟨.word hfirst hchars hstops (hcons ▸ hplain), hsplit⟩

theorem lexeme_of_number (hfirst : c.isDigit = true) (hpiece : number (c :: cs) = .ok p) :
    Lexeme lx p ∧ p.chars ++ p.rest = c :: cs := by
  have hdigits : ∀ d ∈ (c :: cs).takeWhile Char.isDigit, d.isDigit = true :=
    fun _ hd => List.mem_takeWhile_imp hd
  have hsplit := List.takeWhile_append_dropWhile (p := Char.isDigit) (l := c :: cs)
  have hstops := stops_dropWhile Char.isDigit (c :: cs)
  have hcons : (c :: cs).takeWhile Char.isDigit = c :: cs.takeWhile Char.isDigit :=
    List.takeWhile_cons_of_pos hfirst
  rw [hcons] at hdigits hsplit
  by_cases hpoint : ((c :: cs).dropWhile Char.isDigit).head? = some '.'
  · obtain ⟨fraction, hrest⟩ := List.head?_eq_some_iff.1 hpoint
    by_cases hsecond : (fraction.dropWhile Char.isDigit).head? = some '.'
    · obtain ⟨more, hmore⟩ := List.head?_eq_some_iff.1 hsecond
      rw [number_secondPoint hrest hmore] at hpiece
      cases hpiece
    · have hfraction := List.takeWhile_append_dropWhile (p := Char.isDigit) (l := fraction)
      rw [number_fraction hrest hsecond, hcons] at hpiece
      cases hpiece
      refine ⟨.fraction hdigits (fun _ hd => List.mem_takeWhile_imp hd)
        (stops_dropWhile Char.isDigit fraction) hsecond, ?_⟩
      rw [hrest] at hsplit
      simpa [numberPiece, hfraction] using hsplit
  · rw [number_whole hpoint, hcons] at hpiece
    cases hpiece
    exact ⟨.whole hdigits hstops hpoint, hsplit⟩

theorem lexeme_of_symbol (hcomment : ¬OpensComment (c :: cs)) (hpiece : symbol c cs = .ok p) :
    Lexeme lx p ∧ p.chars ++ p.rest = c :: cs := by
  unfold symbol at hpiece
  cases hfind : symbols.find? fun entry => entry.1.isPrefixOf (c :: cs) with
  | none =>
      rw [hfind] at hpiece
      cases hpiece
  | some found =>
      obtain ⟨spelling, type⟩ := found
      rw [hfind] at hpiece
      cases hpiece
      have hfrontOf : spelling.isPrefixOf (c :: cs) = true := by
        simpa using List.find?_some hfind
      have hfront := List.isPrefixOf_iff_prefix.1 hfrontOf
      have hfront := List.prefix_iff_eq_append.1 hfront
      rw [← hfront] at hfind hcomment
      exact ⟨.symbol hfind hcomment, hfront⟩

/-- A piece that is read is a lexeme at the front of the text. -/
theorem lexeme_of_piece (hpiece : piece lx c cs = .ok p) :
    Lexeme lx p ∧ p.chars ++ p.rest = c :: cs := by
  unfold piece at hpiece
  split at hpiece
  case h_1 cs => exact lexeme_of_blockComment hpiece
  case h_2 cs =>
      cases hpiece
      have hbody : ∀ d ∈ cs.takeWhile (· != '\n'), (d != '\n') = true := by
        intro d hd
        simpa using List.mem_takeWhile_imp hd
      exact ⟨.line hbody (stops_dropWhile _ cs), by simp [lineComment]⟩
  case h_3 hblock hline =>
      have hcomment : ¬OpensComment (c :: cs) := by
        rintro (⟨tail, heq⟩ | ⟨tail, heq⟩)
        · cases heq
          exact hblock _ rfl rfl
        · cases heq
          exact hline _ rfl rfl
      unfold plainPiece at hpiece
      split at hpiece
      case isTrue hseparator =>
          cases hpiece
          exact ⟨.separator hseparator, rfl⟩
      split at hpiece
      case isTrue hword => exact lexeme_of_word hword hpiece
      split at hpiece
      case isTrue hdigit => exact lexeme_of_number hdigit hpiece
      split at hpiece
      case isTrue hquote =>
          obtain ⟨text, rest, rfl, hrest, rfl⟩ := lexeme_of_string hpiece
          cases hquote
          exact ⟨.string hrest, by simp [Quoted.write]⟩
      case isFalse => exact lexeme_of_symbol hcomment hpiece

/-- The piece at the front of a text is the lexeme there. -/
theorem piece_eq_ok :
    piece lx c cs = .ok p ↔ Lexeme lx p ∧ p.chars ++ p.rest = c :: cs :=
  ⟨lexeme_of_piece, fun ⟨hlexeme, hfront⟩ => piece_of_lexeme hlexeme hfront⟩

/-! ## What stops a piece -/

/-- What can stop the reading of a piece at the front of a text, with the characters before that
place.  Nothing is read of a comment or a string without an end, nor of a character that starts no
symbol. -/
inductive FaultAt (cs : List Char) : Fault → Prop where
  | comment : FaultAt cs ⟨.unterminatedComment, []⟩
  | string : FaultAt cs ⟨.unterminatedString, []⟩
  | number {before : List Char} (hfront : before <+: cs) : FaultAt cs ⟨.secondPoint, before⟩
  | symbol {c : Char} : FaultAt cs ⟨.unexpectedCharacter c, []⟩

theorem faultAt_of_commentAfter {type : TokenType} {opening tail : List Char}
    (hpiece : commentAfter type opening tail = .error fault) : FaultAt cs fault := by
  unfold commentAfter at hpiece
  cases hsplit : splitClose tail with
  | none =>
      rw [hsplit] at hpiece
      cases hpiece
      exact .comment
  | some closed =>
      rw [hsplit] at hpiece
      cases hpiece

theorem faultAt_of_string {type : TokenType} {before tail : List Char}
    (hpiece : string type before tail = .error fault) : FaultAt cs fault := by
  unfold string at hpiece
  cases hread : Quoted.readBody tail with
  | none =>
      rw [hread] at hpiece
      cases hpiece
      exact .string
  | some body =>
      rw [hread] at hpiece
      cases hpiece

theorem faultAt_of_number (hpiece : number cs = .error fault) : FaultAt cs fault := by
  have hwhole := List.takeWhile_append_dropWhile (p := Char.isDigit) (l := cs)
  by_cases hpoint : (cs.dropWhile Char.isDigit).head? = some '.'
  · obtain ⟨fraction, hrest⟩ := List.head?_eq_some_iff.1 hpoint
    by_cases hsecond : (fraction.dropWhile Char.isDigit).head? = some '.'
    · obtain ⟨more, hmore⟩ := List.head?_eq_some_iff.1 hsecond
      have hfraction := List.takeWhile_append_dropWhile (p := Char.isDigit) (l := fraction)
      rw [number_secondPoint hrest hmore] at hpiece
      cases hpiece
      apply FaultAt.number
      use '.' :: more
      rw [List.append_assoc, List.cons_append, ← hmore, hfraction, ← hrest, hwhole]
    · rw [number_fraction hrest hsecond] at hpiece
      cases hpiece
  · rw [number_whole hpoint] at hpiece
    cases hpiece

theorem faultAt_of_blockComment {tail : List Char}
    (hpiece : blockComment lx tail = .error fault) : FaultAt cs fault := by
  unfold blockComment at hpiece
  split at hpiece <;> exact faultAt_of_commentAfter hpiece

theorem faultAt_of_word {tail : List Char} (hpiece : word lx tail = .error fault) :
    FaultAt cs fault := by
  unfold word at hpiece
  split at hpiece
  · exact faultAt_of_string hpiece
  · cases hpiece

theorem faultAt_of_symbol {tail : List Char} (hpiece : symbol c tail = .error fault) :
    FaultAt cs fault := by
  unfold symbol at hpiece
  split at hpiece
  · cases hpiece
  · cases hpiece
    exact .symbol

theorem faultAt_of_plainPiece (hpiece : plainPiece lx c cs = .error fault) :
    FaultAt (c :: cs) fault := by
  unfold plainPiece at hpiece
  split at hpiece
  case isTrue => cases hpiece
  split at hpiece
  case isTrue => exact faultAt_of_word hpiece
  split at hpiece
  case isTrue => exact faultAt_of_number hpiece
  split at hpiece
  case isTrue => exact faultAt_of_string hpiece
  case isFalse => exact faultAt_of_symbol hpiece

/-- A piece that cannot be read is stopped in one of four ways. -/
theorem faultAt_of_piece (hpiece : piece lx c cs = .error fault) : FaultAt (c :: cs) fault := by
  unfold piece at hpiece
  split at hpiece
  · exact faultAt_of_blockComment hpiece
  · cases hpiece
  · exact faultAt_of_plainPiece hpiece

/-- What stops the reading of a piece stands behind characters of the text. -/
theorem before_isPrefix (hpiece : piece lx c cs = .error fault) : fault.before <+: c :: cs := by
  cases faultAt_of_piece hpiece with
  | number hfront => exact hfront
  | comment | string | symbol => exact List.nil_prefix

/-- What stops the reading of a piece is not the number of steps. -/
theorem cause_ne_tooManySteps (hpiece : piece lx c cs = .error fault) (cap : Nat) :
    fault.cause ≠ .tooManySteps cap := by
  cases faultAt_of_piece hpiece <;> exact nofun

/-! ## The text after a piece -/

/-- A text may stand behind a piece in place of another one: it starts alike, or it starts with a
blank if at all, where the other one goes on in the same line. -/
def Replaces (more rest : List Char) : Prop :=
  more.head? = rest.head? ∨
    (∀ c, more.head? = some c → c = ' ') ∧ ∃ c, rest.head? = some c ∧ c ≠ '\n'

/-- A text may stand behind a piece in place of another one, as far as the piece sees: it starts
alike or with a blank, if at all, and with the end of the line where the other one does. -/
structure StandsFor (more rest : List Char) : Prop where
  head : ∀ c, more.head? = some c → rest.head? = some c ∨ isSeparator c = true
  line : Stops (· != '\n') rest → Stops (· != '\n') more

namespace StandsFor

variable {more : List Char}

theorem of_head? (hsame : more.head? = rest.head?) : StandsFor more rest :=
  ⟨fun _ hc => .inl (hsame ▸ hc), fun hstops c hc => hstops c (hsame ▸ hc)⟩

/-- The end of the line may stand for anything. -/
theorem feed (rest more : List Char) : StandsFor ('\n' :: more) rest := by
  refine ⟨fun _ hc => .inr ?_, fun _ => stops_cons.2 (by decide)⟩
  cases hc
  decide

theorem stops {test : Char → Bool} (hstands : StandsFor more rest)
    (hblank : ∀ c, isSeparator c = true → test c = false) (hstops : Stops test rest) :
    Stops test more := by
  intro c hc
  rcases hstands.head c hc with hsame | hseparator
  · exact hstops c hsame
  · exact hblank c hseparator

theorem head?_ne {d : Char} (hstands : StandsFor more rest) (hblank : isSeparator d = false)
    (hhead : rest.head? ≠ some d) : more.head? ≠ some d := by
  intro hd
  rcases hstands.head d hd with hsame | hseparator
  · exact hhead hsame
  · rw [hblank] at hseparator
    cases hseparator

end StandsFor

theorem Replaces.standsFor {more : List Char} (hreplaces : Replaces more rest) :
    StandsFor more rest := by
  rcases hreplaces with hsame | ⟨honly, d, hd, hfeed⟩
  · exact .of_head? hsame
  · constructor
    · intro c hc
      rw [honly c hc]
      exact .inr rfl
    intro hstops
    have hstop := hstops d hd
    rw [bne_eq_false_iff_eq] at hstop
    exact (hfeed hstop).elim

theorem not_continuesWord_of_isSeparator (c : Char) (hc : isSeparator c = true) :
    continuesWord c = false := by
  simp only [isSeparator, Bool.or_eq_true, beq_iff_eq] at hc
  rcases hc with ((rfl | rfl) | rfl) | rfl <;> decide +kernel

theorem not_isDigit_of_isSeparator (c : Char) (hc : isSeparator c = true) : c.isDigit = false := by
  simp only [isSeparator, Bool.or_eq_true, beq_iff_eq] at hc
  rcases hc with ((rfl | rfl) | rfl) | rfl <;> decide

/-- Of two symbols that start alike, the longer one is longer by one character. -/
theorem symbols_length
    {short long : List Char × TokenType} (hshort : short ∈ symbols) (hlong : long ∈ symbols)
    (hfront : short.1 <+: long.1) : long.1.length ≤ short.1.length + 1 := by
  have hall : (symbols.all fun long => symbols.all fun short =>
      !short.1.isPrefixOf long.1 || long.1.length ≤ short.1.length + 1) = true := by
    decide +kernel
  have hthis := List.all_eq_true.1 (List.all_eq_true.1 hall long hlong) short hshort
  rw [List.isPrefixOf_iff_prefix.2 hfront] at hthis
  simpa using hthis

theorem symbols_not_blank : ∀ entry ∈ symbols, ∀ c ∈ entry.1, isSeparator c = false := by
  have hall : (symbols.all fun entry => entry.1.all fun c => !isSeparator c) = true := by
    decide +kernel
  intro entry hentry c hc
  have hthis := List.all_eq_true.1 (List.all_eq_true.1 hall entry hentry) c hc
  rwa [Bool.not_eq_true'] at hthis

/-- A mark that goes on at most one character behind a spelling is seen before either text. -/
theorem StandsFor.isPrefix {mark spelling more : List Char} (hstands : StandsFor more rest)
    (hblank : ∀ c ∈ mark, isSeparator c = false) (hlength : mark.length ≤ spelling.length + 1)
    (hmark : mark <+: spelling ++ more) : mark <+: spelling ++ rest := by
  by_cases hshort : mark.length ≤ spelling.length
  · have hinside := List.prefix_of_prefix_length_le hmark (List.prefix_append spelling more) hshort
    exact hinside.trans (List.prefix_append _ _)
  · obtain ⟨c, tail, rfl⟩ : ∃ c tail, more = c :: tail := by
      cases more with
      | nil =>
          rw [List.append_nil] at hmark
          exact (hshort hmark.length_le).elim
      | cons c tail => exact ⟨c, tail, rfl⟩
    rw [List.append_cons] at hmark
    have hsame : mark = spelling ++ [c] := by
      have hfront : spelling ++ [c] <+: spelling ++ [c] ++ tail := List.prefix_append _ _
      have hle : mark.length ≤ (spelling ++ [c]).length := by simpa using hlength
      refine (List.prefix_of_prefix_length_le hmark hfront hle).eq_of_length ?_
      rw [List.length_append, List.length_singleton] at *
      omega
    rcases hstands.head c rfl with hhead | hseparator
    · obtain ⟨tail', rfl⟩ := List.head?_eq_some_iff.1 hhead
      rw [hsame, List.append_cons spelling c tail']
      exact List.prefix_append _ _
    · have hplain : isSeparator c = false := by
        refine hblank c ?_
        rw [hsame]
        exact List.mem_append_right _ (List.mem_singleton.2 rfl)
      rw [hplain] at hseparator
      cases hseparator

/-- The symbol at the front of a text is seen from the start of what follows it. -/
theorem StandsFor.find?_symbols {spelling more : List Char} {type : TokenType}
    (hstands : StandsFor more rest)
    (hfind : symbols.find? (fun entry => entry.1.isPrefixOf (spelling ++ rest)) =
      some (spelling, type)) :
    symbols.find? (fun entry => entry.1.isPrefixOf (spelling ++ more)) = some (spelling, type) := by
  have hspelling := List.mem_of_find?_eq_some hfind
  rw [List.find?_eq_some_iff_append] at hfind ⊢
  obtain ⟨-, before, after, hsplit, hbefore⟩ := hfind
  refine ⟨by simp, before, after, hsplit, fun entry hentry => ?_⟩
  have hmem : entry ∈ symbols := by
    rw [hsplit]
    exact List.mem_append_left _ hentry
  have hnot := hbefore entry hentry
  rw [Bool.not_eq_true', ← Bool.not_eq_true, List.isPrefixOf_iff_prefix] at hnot ⊢
  refine fun hmark => hnot (hstands.isPrefix (symbols_not_blank entry hmem) ?_ hmark)
  by_cases hshort : entry.1.length ≤ spelling.length
  · omega
  · have hlonger :=
      List.prefix_of_prefix_length_le (List.prefix_append spelling more) hmark (by omega)
    exact symbols_length hspelling hmem hlonger

/-- The piece with another text behind it. -/
def Piece.before (p : Piece) (more : List Char) : Piece :=
  { p with rest := more }

/-- What a piece is depends on the start of the text behind it only. -/
theorem Lexeme.before (hlexeme : Lexeme lx p) {more : List Char}
    (hstands : StandsFor more p.rest) : Lexeme lx (p.before more) := by
  cases hlexeme with
  | separator hc => exact .separator hc
  | line hbody hstops => exact .line hbody (hstands.line hstops)
  | block hclosed hplus => exact .block hclosed hplus
  | hint hclosed hhint => exact .hint hclosed hhint
  | word hfirst hchars hstops hquote =>
      exact .word hfirst hchars (hstands.stops not_continuesWord_of_isSeparator hstops)
        fun hopens => hstands.head?_ne (by decide) (hquote hopens)
  | national hfirst hchars hopens hquote =>
      exact .national hfirst hchars hopens (hstands.head?_ne (by decide) hquote)
  | whole hdigits hstops hpoint =>
      exact .whole hdigits (hstands.stops not_isDigit_of_isSeparator hstops)
        (hstands.head?_ne (by decide) hpoint)
  | fraction hdigits hfraction hstops hpoint =>
      exact .fraction hdigits hfraction (hstands.stops not_isDigit_of_isSeparator hstops)
        (hstands.head?_ne (by decide) hpoint)
  | string hquote => exact .string (hstands.head?_ne (by decide) hquote)
  | @symbol spelling rest type hfind hcomment =>
      obtain ⟨first, tail, hspelling, -⟩ := symbols_first _ (List.mem_of_find?_eq_some hfind)
      have hspelled : spelling = first :: tail := hspelling
      have hlength : 2 ≤ spelling.length + 1 := by
        rw [hspelled, List.length_cons]
        omega
      refine .symbol (hstands.find?_symbols hfind) fun hopens => hcomment ?_
      exact hopens.imp (hstands.isPrefix (by simp [isSeparator]) hlength)
        (hstands.isPrefix (by simp [isSeparator]) hlength)

theorem Lexeme.chars_ne_nil (hlexeme : Lexeme lx p) : p.chars ≠ [] := by
  cases hlexeme with
  | symbol hfind =>
      obtain ⟨first, tail, hspelling, -⟩ := symbols_first _ (List.mem_of_find?_eq_some hfind)
      intro hnil
      cases hspelling.symm.trans hnil
  | _ => exact nofun

/-- A piece is read alike before another text. -/
theorem piece_before {more : List Char} (hpiece : piece lx c cs = .ok p)
    (hstands : StandsFor more p.rest) :
    ∃ tail, p.chars ++ more = c :: tail ∧ piece lx c tail = .ok (p.before more) := by
  obtain ⟨hlexeme, hfront⟩ := lexeme_of_piece hpiece
  obtain ⟨d, chars, hchars⟩ := List.exists_cons_of_ne_nil hlexeme.chars_ne_nil
  rw [hchars, List.cons_append, List.cons.injEq] at hfront
  obtain ⟨rfl, -⟩ := hfront
  refine ⟨chars ++ more, by rw [hchars, List.cons_append], ?_⟩
  refine piece_of_lexeme (hlexeme.before hstands) ?_
  rw [Piece.before, hchars, List.cons_append]

/-- A text may be made longer where the piece sees no difference. -/
theorem piece_append_of_standsFor {more : List Char} (hpiece : piece lx c cs = .ok p)
    (hstands : StandsFor (p.rest ++ more) p.rest) :
    piece lx c (cs ++ more) = .ok (p.before (p.rest ++ more)) := by
  obtain ⟨tail, htail, hread⟩ := piece_before hpiece hstands
  obtain ⟨-, hfront⟩ := lexeme_of_piece hpiece
  rw [← List.append_assoc, hfront, List.cons_append, List.cons.injEq] at htail
  rwa [htail.2]

theorem standsFor_append (hrest : rest ≠ []) (more : List Char) :
    StandsFor (rest ++ more) rest := by
  obtain ⟨d, tail, rfl⟩ := List.exists_cons_of_ne_nil hrest
  exact .of_head? rfl

/-- What a piece is does not depend on the text after it, as long as there is some. -/
theorem piece_append (hpiece : piece lx c cs = .ok p) (hrest : p.rest ≠ []) (more : List Char) :
    piece lx c (cs ++ more) = .ok (p.before (p.rest ++ more)) :=
  piece_append_of_standsFor hpiece (standsFor_append hrest more)

/-- A line feed behind a text changes none of its pieces. -/
theorem piece_append_feed (hpiece : piece lx c cs = .ok p) (more : List Char) :
    piece lx c (cs ++ '\n' :: more) = .ok (p.before (p.rest ++ '\n' :: more)) := by
  refine piece_append_of_standsFor hpiece ?_
  by_cases hrest : p.rest = []
  · rw [hrest]
    exact .feed [] more
  · exact standsFor_append hrest _

theorem getLast?_write (before text : List Char) :
    (before ++ Quoted.write text).getLast? = some '\'' := by
  rw [Quoted.write, ← List.cons_append, ← List.append_assoc, List.getLast?_append]
  rfl

/-- A line feed ends a lexeme only if it is all of it. -/
theorem Lexeme.eq_of_getLast? (hlexeme : Lexeme lx p) (hlast : p.chars.getLast? = some '\n') :
    p.chars = ['\n'] := by
  have hmem := List.mem_of_getLast? hlast
  cases hlexeme with
  | separator =>
      cases hlast
      rfl
  | line hbody hstops =>
      simp only [List.mem_cons, Char.reduceEq, false_or] at hmem
      exact absurd (hbody _ hmem) (by decide)
  | block | hint =>
      rw [List.getLast?_append] at hlast
      cases hlast
  | word hfirst hchars =>
      exact absurd (hchars _ hmem) (by decide +kernel)
  | national =>
      rw [getLast?_write] at hlast
      cases hlast
  | whole hdigits => exact absurd (hdigits _ hmem) (by decide)
  | fraction hdigits hfraction =>
      rcases List.mem_append.1 hmem with hwhole | hpoint
      · exact absurd (hdigits _ hwhole) (by decide)
      · simp only [List.mem_cons, Char.reduceEq, false_or] at hpoint
        exact absurd (hfraction _ hpoint) (by decide)
  | @string text =>
      rw [← List.nil_append (Quoted.write text), getLast?_write] at hlast
      cases hlast
  | symbol hfind =>
      have hplain : (symbols.all fun entry => !entry.1.contains '\n') = true := by
        decide +kernel
      have hthis := List.all_eq_true.1 hplain _ (List.mem_of_find?_eq_some hfind)
      simp only [Bool.not_eq_true', List.contains_eq_mem, decide_eq_false_iff_not] at hthis
      exact (hthis hmem).elim

/-- In a text that ends with a line feed, something follows each piece but that line feed. -/
theorem rest_ne_nil_or_of_piece
    (hpiece : piece lx c cs = .ok p) (hlast : (c :: cs).getLast? = some '\n') :
    p.rest ≠ [] ∨ c = '\n' ∧ cs = [] := by
  obtain ⟨hlexeme, hfront⟩ := lexeme_of_piece hpiece
  by_cases hrest : p.rest = []
  · rw [hrest, List.append_nil] at hfront
    rw [← hfront] at hlast
    have hchars := hlexeme.eq_of_getLast? hlast
    rw [hfront, List.cons.injEq] at hchars
    exact .inr hchars
  · exact .inl hrest

end Lexer

end SqlTree

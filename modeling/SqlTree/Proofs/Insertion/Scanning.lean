import SqlTree.Proofs.Reaching

/-!
# Reading a text with a comment put into it

A comment between two blanks is put before a token.  What stands before it is read as if the text
ended there (`Reaches.exists_front`), the comment takes three steps of its own (`run_comment`),
and what stands behind it gives the same tokens further on (`run_elsewhere`), unless the steps do
not suffice.
-/

namespace SqlTree

open Text

namespace Lexer

variable {lx : Lexicon} {c : Char} {cs front back rest : List Char} {p : Piece}
  {tokens done done' : List Token} {token : Token} {steps fewer n : Nat} {place place' : Place}

/-! ## Tokens before and behind a place -/

/-- A token that starts before an offset and does not go beyond it. -/
structure Precedes (token : Token) (offset : Nat) : Prop where
  start : token.span.start < offset
  stop : token.span.stop ≤ offset

/-- A token that starts at an offset or behind it. -/
structure Follows (token : Token) (offset : Nat) : Prop where
  start : offset ≤ token.span.start
  stop : offset ≤ token.span.stop

theorem Follows.mono {offset further : Nat} (hfollows : Follows token further)
    (hle : offset ≤ further) : Follows token offset :=
  ⟨hle.trans hfollows.start, hle.trans hfollows.stop⟩

theorem Precedes.mono {offset further : Nat} (hprecedes : Precedes token offset)
    (hle : offset ≤ further) : Precedes token further :=
  ⟨hprecedes.start.trans_le hle, hprecedes.stop.trans hle⟩

theorem length_chars_pos (hpiece : piece lx c cs = .ok p) : 0 < p.chars.length :=
  List.length_pos_iff.2 (lexeme_of_piece hpiece).1.chars_ne_nil

/-- Whatever is read from a place on follows it. -/
theorem Scanned.follows (h : Scanned lx place cs tokens) :
    ∀ token ∈ tokens, Follows token place.offset := by
  induction h with
  | nil => exact List.forall_mem_nil _
  | @piece place c cs p tokens hpiece _ ih =>
      have hoffset : place.offset ≤ (place.advance p.chars).offset := by
        rw [Place.offset_advance]
        exact Nat.le_add_right _ _
      intro token htoken
      rcases List.mem_append.1 htoken with hhere | hlater
      · obtain ⟨type, text, -, rfl⟩ := exists_of_mem_tokenBetween hhere
        exact ⟨Nat.le_refl _, hoffset⟩
      · exact (ih token hlater).mono hoffset

/-- Reading comes to the place where a token starts. -/
theorem Scanned.exists_reaches (h : Scanned lx place cs tokens) (htoken : token ∈ tokens) :
    ∃ n front c back p, Reaches lx (c :: back) n cs ∧ cs = front ++ c :: back ∧
      token.span.start = place.offset + front.length ∧ Lexer.piece lx c back = .ok p ∧
      p.token.isSome = true := by
  induction h with
  | nil => exact absurd htoken List.not_mem_nil
  | @piece place c cs p tokens hpiece _ ih =>
      rcases List.mem_append.1 htoken with hhere | hlater
      · obtain ⟨type, text, hfound, rfl⟩ := exists_of_mem_tokenBetween hhere
        exact ⟨0, [], c, cs, p, .here, rfl, rfl, hpiece, Option.isSome_of_eq_some hfound⟩
      · obtain ⟨n, front, d, back, q, hreaches, hrest, hstart, hnext⟩ := ih hlater
        obtain ⟨-, hfront⟩ := lexeme_of_piece hpiece
        refine ⟨n + 1, p.chars ++ front, d, back, q, .piece hpiece hreaches, ?_, ?_, hnext⟩
        · rw [← hfront, hrest, List.append_assoc]
        · rw [hstart, Place.offset_advance, List.length_append, Nat.add_assoc]

/-! ## The text before the comment -/

/-- What is read before a place does not depend on the text there, if that starts with a blank or is
empty in place of a text that starts with no line feed. -/
theorem Reaches.exists_front (h : Reaches lx back n cs)
    (hback : ∃ c, back.head? = some c ∧ c ≠ '\n') (place : Place) :
    ∃ (front : List Char) (read : List Token), cs = front ++ back ∧
      (∀ token ∈ read, Precedes token (place.offset + front.length)) ∧
      ∀ rest, (rest = back ∨ ∀ c, rest.head? = some c → c = ' ') → ∀ steps done,
        run lx (n + steps) place done (front ++ rest) =
          run lx steps (place.advance front) (read.reverse ++ done) rest := by
  induction h generalizing place with
  | here =>
      refine ⟨[], [], rfl, fun _ hnil => absurd hnil List.not_mem_nil, fun rest _ steps done => ?_⟩
      rw [Nat.zero_add]
      rfl
  | @piece n c cs p hpiece _ ih =>
      obtain ⟨front, read, hrest, hbefore, hrun⟩ := ih (place.advance p.chars)
      obtain ⟨-, hfront⟩ := lexeme_of_piece hpiece
      have hlength : place.offset + (p.chars ++ front).length =
          (place.advance p.chars).offset + front.length := by
        rw [Place.offset_advance, List.length_append, Nat.add_assoc]
      refine ⟨p.chars ++ front, (p.tokenBetween place (place.advance p.chars)).toList ++ read,
        ?_, fun token htoken => ?_, fun rest hblank steps done => ?_⟩
      · rw [← hfront, hrest, List.append_assoc]
      · rw [hlength]
        rcases List.mem_append.1 htoken with hnew | hlater
        · have hpositive := length_chars_pos hpiece
          have hprecedes : Precedes token (place.advance p.chars).offset := by
            obtain ⟨type, text, -, rfl⟩ := exists_of_mem_tokenBetween hnew
            refine ⟨?_, Nat.le_refl _⟩
            change place.offset < _
            rw [Place.offset_advance]
            omega
          exact hprecedes.mono (Nat.le_add_right _ _)
        · exact hbefore token hlater
      · have hreplaces : Replaces (front ++ rest) p.rest := by
          rw [hrest]
          rcases hblank with rfl | hblank
          · exact .inl rfl
          · cases front with
            | nil => exact .inr ⟨hblank, hback⟩
            | cons d front => exact .inl rfl
        obtain ⟨tail, htail, hread⟩ := piece_before hpiece hreplaces.standsFor
        rw [List.append_assoc, htail, Nat.add_right_comm, run, hread]
        change run lx (n + steps) (place.advance p.chars) _ (front ++ rest) = _
        rw [hrun rest hblank, Place.advance_append, List.reverse_append, List.append_assoc,
          reverse_toList]
        rfl

/-! ## The comment and the text behind it -/

/-- The steps do not suffice. -/
def OutOfSteps {α : Type} (result : Except Error α) : Prop :=
  ∃ cap line column, result = .error (.lexical (.tooManySteps cap) line column)

theorem run_piece (hpiece : piece lx c cs = .ok p)
    (hsteps : ¬OutOfSteps (run lx steps place done (c :: cs))) :
    ∃ left, steps = left + 1 ∧ run lx steps place done (c :: cs) =
      run lx left (place.advance p.chars)
        ((p.tokenBetween place (place.advance p.chars)).toList ++ done) p.rest := by
  cases steps with
  | zero => exact (hsteps ⟨_, _, _, rfl⟩).elim
  | succ left =>
      refine ⟨left, rfl, ?_⟩
      rw [run, hpiece]

/-- A comment with a blank before it and another one behind it, as the lexer sees it. -/
structure IsComment (lx : Lexicon) (mark : List Char) (ending : Char) (text : String) : Prop where
  lexeme : ∃ type, type.isComment = true ∧
    ∀ rest, Lexeme lx ⟨mark, some (type, text), ending :: rest⟩
  ending : isSeparator ending = true

/-- A comment between blanks takes three steps. -/
theorem run_comment {mark : List Char} {ending : Char} {text : String}
    (hcomment : IsComment lx mark ending text)
    (hsteps : ¬OutOfSteps (run lx steps place done (' ' :: (mark ++ [ending]) ++ rest))) :
    ∃ left comment, steps = left + 3 ∧ comment.type.isComment = true ∧ comment.text = text ∧
      run lx steps place done (' ' :: (mark ++ [ending]) ++ rest) =
        run lx left (place.advance (' ' :: (mark ++ [ending]))) (comment :: done) rest := by
  obtain ⟨⟨type, htype, hlexeme⟩, hending⟩ := hcomment
  obtain ⟨c, chars, rfl⟩ := List.exists_cons_of_ne_nil (hlexeme []).chars_ne_nil
  have htext : ' ' :: (c :: chars ++ [ending]) ++ rest = ' ' :: c :: (chars ++ ending :: rest) := by
    simp
  have hmark : piece lx c (chars ++ ending :: rest) =
      .ok ⟨c :: chars, some (type, text), ending :: rest⟩ :=
    piece_of_lexeme (hlexeme rest) rfl
  rw [htext] at hsteps ⊢
  obtain ⟨first, rfl, hfirst⟩ := run_piece (piece_separator (by decide)) hsteps
  rw [hfirst] at hsteps ⊢
  obtain ⟨second, rfl, hsecond⟩ := run_piece hmark hsteps
  rw [hsecond] at hsteps ⊢
  obtain ⟨left, rfl, hthird⟩ := run_piece (piece_separator hending) hsteps
  let start := place.advance [' ']
  refine ⟨left, ⟨type, text, .between start (start.advance (c :: chars))⟩, rfl, htype, rfl, ?_⟩
  have hplace : place.advance (' ' :: (c :: chars ++ [ending])) =
      (start.advance (c :: chars)).advance [ending] := by
    rw [← Place.advance_append, ← Place.advance_append, List.singleton_append]
  rw [hthird, hplace]
  rfl

/-- Tokens of one type and text, the second one further on by a number of characters. -/
structure Shifted (distance : Nat) (a b : Token) : Prop where
  type : a.type = b.type
  text : a.text = b.text
  start : b.span.start = a.span.start + distance
  stop : b.span.stop = a.span.stop + distance

/-- What is read from a place on is read from a further place on as well, if the steps suffice. -/
theorem run_elsewhere {distance : Nat} (hrun : run lx steps place done cs = .ok tokens)
    (hfewer : fewer ≤ steps) (hplace : place'.offset = place.offset + distance)
    (hsteps : ¬OutOfSteps (run lx fewer place' done' cs)) :
    ∃ read read', tokens = done.reverse ++ read ∧
      run lx fewer place' done' cs = .ok (done'.reverse ++ read') ∧
      List.Forall₂ (Shifted distance) read read' := by
  fun_induction run lx steps place done cs generalizing fewer place' done'
  case case1 =>
    cases hrun
    exact ⟨[], [], (List.append_nil _).symm, by rw [run_nil, List.append_nil], .nil⟩
  case case2 => cases hrun
  case case3 => cases hrun
  case case4 steps place done c cs p hpiece stop ih =>
    obtain ⟨left, rfl, hnext⟩ := run_piece hpiece hsteps
    rw [hnext] at hsteps ⊢
    have hoffset : (place'.advance p.chars).offset = stop.offset + distance := by
      rw [Place.offset_advance, Place.offset_advance, hplace]
      omega
    obtain ⟨read, read', rfl, hrun', hshifted⟩ :=
      ih hrun (Nat.le_of_succ_le_succ hfewer) hoffset hsteps
    refine ⟨(p.tokenBetween place stop).toList ++ read,
      (p.tokenBetween place' (place'.advance p.chars)).toList ++ read', ?_, ?_, ?_⟩
    · rw [List.reverse_append, List.append_assoc, reverse_toList]
    · rw [hrun', List.reverse_append, List.append_assoc, reverse_toList]
    · cases htoken : p.token with
      | none => simpa [Piece.tokenBetween, htoken] using hshifted
      | some found =>
          simp only [Piece.tokenBetween, htoken, Option.map_some, Option.toList_some,
            List.cons_append, List.nil_append, List.forall₂_cons]
          exact ⟨⟨rfl, rfl, hplace, hoffset⟩, hshifted⟩

/-! ## The whole text -/

/-- What the lexer makes of a text that falls into two parts with a token at the start of the second
one, and of the same text with a comment put between the parts. -/
structure Parts (lx : Lexicon) (steps : Nat) (front inserted back : List Char) (text : String)
    (before : List Token) (first : Token) (after : List Token) (comment : Token)
    (after' : List Token) : Prop where
  readFront : run lx steps .start [] front = .ok before
  readEdited :
    run lx steps .start [] (front ++ (inserted ++ back)) = .ok (before ++ comment :: after')
  isComment : comment.type.isComment = true
  commentText : comment.text = text
  precedes : ∀ token ∈ before, Precedes token front.length
  followsFirst : Follows first front.length
  follows : ∀ token ∈ after, Follows token (front.length + 1)
  shifted : List.Forall₂ (Shifted inserted.length) (first :: after) after'

/-- The first token from a place where a piece with a token stands, and the tokens behind it. -/
theorem exists_first (hrun : run lx steps place done (c :: cs) = .ok tokens)
    (hpiece : piece lx c cs = .ok p) (hsome : p.token.isSome = true) :
    ∃ first after, tokens = done.reverse ++ first :: after ∧ Follows first place.offset ∧
      ∀ token ∈ after, Follows token (place.offset + 1) := by
  have hsteps : ¬OutOfSteps (run lx steps place done (c :: cs)) := by
    rintro ⟨cap, line, column, herror⟩
    rw [hrun] at herror
    cases herror
  obtain ⟨found, hfound⟩ := Option.isSome_iff_exists.1 hsome
  obtain ⟨left, -, hnext⟩ := run_piece hpiece hsteps
  obtain ⟨after, htokens, hread⟩ := scanned_of_run (hnext.symm.trans hrun)
  have hpositive := length_chars_pos hpiece
  have hoffset : (place.advance p.chars).offset = place.offset + p.chars.length :=
    Place.offset_advance place p.chars
  refine ⟨⟨found.1, found.2, .between place (place.advance p.chars)⟩, after, ?_, ?_,
    fun token htoken => (hread.follows token htoken).mono (by omega)⟩
  · rw [htokens, List.reverse_append, List.append_assoc]
    simp [Piece.tokenBetween, hfound]
  · constructor
    · exact Nat.le_refl _
    · change _ ≤ (place.advance p.chars).offset
      omega

theorem exists_parts {mark : List Char} {ending : Char} {text : String}
    (hcomment : IsComment lx mark ending text)
    (hrun : run lx steps .start [] (front ++ back) = .ok tokens) (htoken : token ∈ tokens)
    (hstart : token.span.start = front.length)
    (hsteps : ¬OutOfSteps
      (run lx steps .start [] (front ++ (' ' :: (mark ++ [ending]) ++ back)))) :
    ∃ before first after comment after', tokens = before ++ first :: after ∧
      Parts lx steps front (' ' :: (mark ++ [ending])) back text before first after comment
        after' := by
  obtain ⟨_, rfl, hscanned⟩ := scanned_of_run hrun
  obtain ⟨n, front', c, rest, p, hreaches, hparts, hstart', hpiece, hsome⟩ :=
    hscanned.exists_reaches htoken
  have hlength : front.length = front'.length := by
    rw [← hstart, hstart']
    exact Nat.zero_add _
  obtain ⟨rfl, rfl⟩ := List.append_inj hparts hlength
  have hfeed : c ≠ '\n' := by
    rintro rfl
    rw [piece_separator (by decide)] at hpiece
    cases hpiece
    cases hsome
  obtain ⟨left, -, -, rfl, -⟩ := hreaches.exists_of_run hrun
  obtain ⟨front', before, hfront, hbefore, hread⟩ :=
    hreaches.exists_front ⟨c, rfl, hfeed⟩ Place.start
  obtain rfl := List.append_cancel_right hfront
  have hoffset : (Place.start.advance front).offset = front.length := by
    rw [Place.offset_advance]
    exact Nat.zero_add _
  have hblank : ∀ d, (' ' :: (mark ++ [ending]) ++ c :: rest).head? = some d → d = ' ' :=
    fun d hd => (Option.some.inj hd).symm
  rw [hread _ (.inr hblank)] at hsteps
  have hback := hread _ (.inl rfl) left []
  rw [hrun] at hback
  obtain ⟨left, comment, rfl, htype, htext, hinserted⟩ := run_comment hcomment hsteps
  rw [hinserted] at hsteps
  obtain ⟨read, read', htokens, hedited, hshifted⟩ :=
    run_elsewhere hback.symm (Nat.le_add_right left 3) (Place.offset_advance _ _) hsteps
  obtain ⟨first, after, htokens', hfirst, hafter⟩ := exists_first hback.symm hpiece hsome
  rw [htokens', List.append_cancel_left_eq] at htokens
  subst htokens
  rw [List.append_nil, List.reverse_reverse] at htokens'
  refine ⟨before, first, after, comment, read', htokens', ?_, ?_, htype, htext, ?_, ?_, ?_,
    hshifted⟩
  · have hnothing := hread [] (.inr nofun) (left + 3) []
    rw [List.append_nil, List.append_nil] at hnothing
    rw [hnothing, run_nil, List.reverse_reverse]
  · rw [hread _ (.inr hblank), hinserted, hedited]
    simp
  · refine fun token htoken => (hbefore token htoken).mono ?_
    change 0 + _ ≤ _
    omega
  · rwa [hoffset] at hfirst
  · rwa [hoffset] at hafter

end Lexer

end SqlTree

import SqlTree.Proofs.Insertion.Scanning
import SqlTree.Proofs.Position

/-!
# Reading a text line by line

No piece of a text that can be read to its end changes when a line feed follows it, so the text is
read by itself before whatever comes in the next line (`run_append_feed`).  What comes there is
read as it is read alone, only further on and further down (`run_moved`).  Main statement:
`Lexicon.tokenize_append`.
-/

namespace SqlTree

open Text

/-! ## Moving what was read -/

namespace Text.Place

/-- A place further on and further down, in the same column. -/
def moved (distance lines : Nat) (p : Place) : Place :=
  ⟨p.offset + distance, p.line + lines, p.column⟩

variable {distance lines : Nat} {p : Place}

theorem next_moved (c : Char) :
    (p.moved distance lines).next c = (p.next c).moved distance lines := by
  unfold next moved
  split
  · rw [Nat.add_right_comm p.offset, Nat.add_right_comm p.line]
  · rw [Nat.add_right_comm p.offset]

theorem advance_moved (cs : List Char) :
    (p.moved distance lines).advance cs = (p.advance cs).moved distance lines := by
  induction cs generalizing p with
  | nil => rfl
  | cons c cs ih =>
      change ((p.moved distance lines).next c).advance cs = _
      rw [next_moved, ih]
      rfl

/-- Behind a text and a line feed a line starts like the first one. -/
theorem advance_feed (cs : List Char) :
    start.advance (cs ++ ['\n']) = start.moved (cs.length + 1) (cs.count '\n' + 1) := by
  have hoffset := offset_advance start (cs ++ ['\n'])
  have hline := line_advance start (cs ++ ['\n'])
  have hcolumn := column_advance_feed start cs
  rw [List.length_append, List.length_singleton] at hoffset
  rw [List.count_append, List.count_singleton_self] at hline
  cases hplace : start.advance (cs ++ ['\n'])
  rw [hplace] at hoffset hline hcolumn
  dsimp only at hoffset hline hcolumn
  rw [hoffset, hline, hcolumn]
  rfl

end Text.Place

def Token.moved (distance lines : Nat) (token : Token) : Token :=
  { token with span := ⟨token.span.start + distance, token.span.stop + distance,
      token.span.line + lines, token.span.column⟩ }

def Error.movedDown (lines : Nat) : Error → Error
  | .lexical cause line column => .lexical cause (line + lines) column
  | e => e

/-- What is read further on and further down, behind tokens that were read before. -/
def readBehind (before : List Token) (distance lines : Nat) (read : Except Error (List Token)) :
    Except Error (List Token) :=
  (read.mapError (Error.movedDown lines)).map fun tokens =>
    before ++ tokens.map (Token.moved distance lines)

namespace Lexer

variable {lx : Lexicon} {cs : List Char} {p : Piece}
  {tokens before done : List Token} {steps fewer distance lines : Nat} {place : Place}

/-! ## The line before -/

/-- A text that is read to its end is read to its end before a line feed, too. -/
theorem run_append_feed (hrun : run lx steps place done cs = .ok tokens) :
    ∃ left ≤ steps, ∀ more, run lx steps place done (cs ++ '\n' :: more) =
      run lx left (place.advance cs) tokens.reverse ('\n' :: more) := by
  fun_induction run lx steps place done cs with
  | case1 steps place done =>
      cases hrun
      refine ⟨steps, Nat.le_refl _, fun more => ?_⟩
      rw [List.reverse_reverse]
      rfl
  | case2 => cases hrun
  | case3 => cases hrun
  | case4 steps place done c cs p hpiece stop ih =>
      obtain ⟨left, hleft, hnext⟩ := ih hrun
      obtain ⟨-, hfront⟩ := lexeme_of_piece hpiece
      refine ⟨left, Nat.le_succ_of_le hleft, fun more => ?_⟩
      rw [List.cons_append, run, piece_append_feed hpiece more, ← hfront, Place.advance_append]
      exact hnext more

/-! ## The lines behind -/

theorem tokenBetween_moved {start stop : Place} :
    p.tokenBetween (start.moved distance lines) (stop.moved distance lines) =
      (p.tokenBetween start stop).map (Token.moved distance lines) := by
  unfold Piece.tokenBetween
  rw [Option.map_map]
  rfl

/-- From a place further on and further down the same is read, unless the steps do not suffice. -/
theorem run_moved (hfewer : fewer ≤ steps)
    (hsteps : ¬OutOfSteps (run lx fewer (place.moved distance lines)
      (done.map (Token.moved distance lines) ++ before) cs)) :
    run lx fewer (place.moved distance lines) (done.map (Token.moved distance lines) ++ before) cs =
      readBehind before.reverse distance lines (run lx steps place done cs) := by
  fun_induction run lx steps place done cs generalizing fewer
  case case1 =>
    rw [run_nil, List.reverse_append, ← List.map_reverse]
    rfl
  case case2 =>
    obtain rfl := Nat.le_zero.1 hfewer
    exact (hsteps ⟨_, _, _, rfl⟩).elim
  case case3 fault hpiece spot =>
    cases fewer with
    | zero => exact (hsteps ⟨_, _, _, rfl⟩).elim
    | succ fewer =>
        rw [run, hpiece]
        dsimp only
        rw [Place.advance_moved]
        rfl
  case case4 steps place done c cs p hpiece stop ih =>
    obtain ⟨left, rfl, hnext⟩ := run_piece hpiece hsteps
    have hdone : (p.tokenBetween (place.moved distance lines)
          ((place.moved distance lines).advance p.chars)).toList ++
          (done.map (Token.moved distance lines) ++ before) =
        ((p.tokenBetween place stop).toList ++ done).map (Token.moved distance lines) ++
          before := by
      rw [Place.advance_moved, tokenBetween_moved, List.map_append, List.append_assoc]
      cases p.tokenBetween place stop <;> rfl
    rw [hdone, Place.advance_moved] at hnext
    rw [hnext] at hsteps ⊢
    exact ih (Nat.le_of_succ_le_succ hfewer) hsteps

/-! ## Enough steps -/

/-- One step for each character suffices, because each piece takes at least one. -/
theorem not_outOfSteps (hlength : cs.length ≤ steps) :
    ¬OutOfSteps (run lx steps place done cs) := by
  fun_induction run lx steps place done cs with
  | case1 =>
      rintro ⟨cap, line, column, herror⟩
      cases herror
  | case2 => cases hlength
  | case3 steps place done c cs fault hpiece spot =>
      rintro ⟨cap, line, column, herror⟩
      rw [Except.error.injEq, Error.lexical.injEq] at herror
      exact cause_ne_tooManySteps hpiece cap herror.1
  | case4 steps place done c cs p hpiece stop ih =>
      refine ih ?_
      obtain ⟨-, hfront⟩ := lexeme_of_piece hpiece
      have hpositive := length_chars_pos hpiece
      have hparts := congrArg List.length hfront
      rw [List.length_append] at hparts
      omega

end Lexer

/-! ## Two texts -/

theorem Text.length_unifyNewlines_le (cs : List Char) : (unifyNewlines cs).length ≤ cs.length := by
  induction cs with
  | nil => exact Nat.le_refl _
  | cons c cs ih =>
      rw [unifyNewlines, List.length_cons]
      split
      · exact Nat.le_succ_of_le ih
      · rw [List.length_cons]
        exact Nat.succ_le_succ ih

namespace Lexicon

variable {lx : Lexicon} {a b : String} {tokens : List Token}

theorem tokenize_eq_run (hreturn : '\r' ∉ a.toList) :
    lx.tokenize a = Lexer.run lx lx.maxSteps .start [] a.toList := by
  rw [tokenize, unifyNewlines_eq_self hreturn]

theorem tokenize_append_feed (ha : '\r' ∉ a.toList) (hb : '\r' ∉ b.toList)
    (htokens : lx.tokenize a = .ok tokens)
    (hsteps : ¬Lexer.OutOfSteps (lx.tokenize (a ++ "\n" ++ b))) :
    lx.tokenize (a ++ "\n" ++ b) =
      readBehind tokens (a.toList.length + 1) (a.toList.count '\n' + 1) (lx.tokenize b) := by
  have htext : (a ++ "\n" ++ b).toList = a.toList ++ '\n' :: b.toList := by simp
  have hreturn : '\r' ∉ (a ++ "\n" ++ b).toList := by simp [ha, hb]
  rw [tokenize_eq_run ha] at htokens
  obtain ⟨left, hleft, hfirst⟩ := Lexer.run_append_feed htokens
  rw [tokenize_eq_run hreturn, htext, hfirst] at hsteps ⊢
  obtain ⟨fewer, rfl, hfeed⟩ := Lexer.run_piece (Lexer.piece_separator (by decide)) hsteps
  have hplace : (Place.start.advance a.toList).advance ['\n'] =
      Place.start.moved (a.toList.length + 1) (a.toList.count '\n' + 1) := by
    rw [← Place.advance_append, Place.advance_feed]
  rw [hfeed] at hsteps ⊢
  dsimp only at hsteps ⊢
  rw [hplace] at hsteps ⊢
  have hbehind : Lexer.run lx fewer _ ([].map (Token.moved _ _) ++ tokens.reverse) b.toList =
      readBehind tokens.reverse.reverse _ _ (Lexer.run lx lx.maxSteps .start [] b.toList) :=
    Lexer.run_moved (Nat.le_of_succ_le hleft) hsteps
  rw [List.reverse_reverse, ← tokenize_eq_run hb] at hbehind
  exact hbehind

/-- A text that can be read is read alike before a line break, and what comes behind the line
break is read as it is read alone, further on and further down: it gives the same tokens, or it is
refused for the same reason.  The steps suffice wherever there is one for each character. -/
theorem tokenize_append (lx : Lexicon) :
    (∀ (a b : String) (tokens : List Token), '\r' ∉ a.toList → '\r' ∉ b.toList →
      lx.tokenize a = .ok tokens → ¬Lexer.OutOfSteps (lx.tokenize (a ++ "\n" ++ b)) →
      (∀ more, lx.tokenize b = .ok more → lx.tokenize (a ++ "\n" ++ b) =
        .ok (tokens ++ more.map (Token.moved (a.length + 1) (a.toList.count '\n' + 1)))) ∧
      ∀ cause line column, lx.tokenize b = .error (.lexical cause line column) →
        lx.tokenize (a ++ "\n" ++ b) =
          .error (.lexical cause (line + (a.toList.count '\n' + 1)) column)) ∧
    ∀ text : String, text.length ≤ lx.maxSteps → ¬Lexer.OutOfSteps (lx.tokenize text) := by
  constructor
  · intro a b tokens ha hb htokens hsteps
    have hwhole := tokenize_append_feed ha hb htokens hsteps
    rw [String.length_toList] at hwhole
    constructor
    · intro more hmore
      rw [hwhole, hmore]
      rfl
    · intro cause line column herror
      rw [hwhole, herror]
      rfl
  · intro text hlength
    refine Lexer.not_outOfSteps ((length_unifyNewlines_le text.toList).trans ?_)
    rwa [String.length_toList]

/-- A line comment ends with its line, and in the next line a string that is not closed is
refused. -/
theorem tokenize_append_lineComment :
    let lx := Dialect.mySql.lexicon
    let before : List Token :=
      [⟨.number, "1", ⟨0, 1, 1, 1⟩⟩, ⟨.lineComment, "c", ⟨2, 6, 1, 3⟩⟩]
    lx.tokenize "1 -- c" = .ok before ∧
      ¬Lexer.OutOfSteps (lx.tokenize ("1 -- c" ++ "\n" ++ "N")) ∧
      lx.tokenize ("1 -- c" ++ "\n" ++ "N") =
        .ok (before ++ [⟨.identifier, "N", ⟨7, 8, 2, 1⟩⟩]) ∧
      lx.tokenize ("1 -- c" ++ "\n" ++ "N '") = .error (.lexical .unterminatedString 2 3) := by
  intro lx before
  obtain ⟨hlines, hsteps⟩ := tokenize_append lx
  have hbefore : lx.tokenize "1 -- c" = .ok before := by decide +kernel
  have hword : lx.tokenize "N" = .ok [⟨.identifier, "N", ⟨0, 1, 1, 1⟩⟩] := by decide +kernel
  have hquote : lx.tokenize "N '" = .error (.lexical .unterminatedString 1 3) := by decide +kernel
  have henough := hsteps ("1 -- c" ++ "\n" ++ "N") (by decide)
  have henough' := hsteps ("1 -- c" ++ "\n" ++ "N '") (by decide)
  exact ⟨hbefore, henough,
    (hlines _ _ before (by decide) (by decide) hbefore henough).1 _ hword,
    (hlines _ _ before (by decide) (by decide) hbefore henough').2 _ _ _ hquote⟩

end Lexicon

end SqlTree

import SqlTree.Proofs.Scan
import SqlTree.Token.Escape

/-!
# Places that reading comes to

Reading comes to the places between the pieces of a text and to no others; a place inside a string
or a comment is jumped over.  A run to the end of a text comes to such places one after the other,
each with one step (`Reaches.exists_of_run`), and the delimiter tokens among the tokens it gives
are the delimiters of the text that stand at such places (`Scanned.reaches`).
-/

namespace SqlTree

open Text

/-! ## Delimiters -/

namespace Escape

theorem delimiterType?_ne {c : Char} {type : TokenType} (htype : delimiterType? c = some type) :
    type.isComment = false ∧ type.isKeyword = false ∧ type ≠ .identifier ∧ type ≠ .number ∧
      type ≠ .string ∧ type ≠ .nationalString ∧ type ≠ .hint := by
  unfold delimiterType? at htype
  split at htype <;> cases htype <;> decide

theorem delimiterType_of_some {c : Char} {type : TokenType} (htype : delimiterType? c = some type) :
    delimiterType c = .ok type := by
  rw [delimiterType, htype]

end Escape

namespace Lexer

open Escape

variable {lx : Lexicon} {c d : Char} {cs rest more : List Char} {p : Piece} {type : TokenType}
  {tokens done : List Token} {steps n m : Nat} {place : Place}

theorem piece_delimiter (htype : delimiterType? c = some type) :
    piece lx c cs = .ok ⟨[c], some (type, String.ofList [c]), cs⟩ := by
  have hsymbol : symbols.find? (fun entry => entry.1.isPrefixOf ([c] ++ cs)) = some ([c], type) ∧
      c ≠ '/' ∧ c ≠ '-' := by
    unfold delimiterType? at htype
    split at htype <;> cases htype <;> exact ⟨rfl, by decide, by decide⟩
  obtain ⟨hfind, hslash, hdash⟩ := hsymbol
  exact piece_symbol hfind (not_opensComment hslash hdash) rfl

/-- A symbol with the type of a delimiter is that delimiter. -/
theorem symbols_delimiter (htype : delimiterType? d = some type) :
    ∀ entry ∈ symbols, entry.2 = type → entry.1 = [d] := by
  unfold delimiterType? at htype
  split at htype <;> cases htype <;> decide

/-- A piece that stands for a token with the type of a delimiter is that delimiter. -/
theorem eq_of_delimiter {text : String} (hpiece : piece lx c cs = .ok p)
    (htoken : p.token = some (type, text)) (htype : delimiterType? d = some type) :
    c = d ∧ p.rest = cs := by
  obtain ⟨hcomment, hkeyword, hidentifier, hnumber, hstring, hnational, hhint⟩ :=
    delimiterType?_ne htype
  obtain ⟨hlexeme, hfront⟩ := lexeme_of_piece hpiece
  cases hlexeme with
  | separator => cases htoken
  | line | block =>
      cases htoken
      cases hcomment
  | hint =>
      cases htoken
      exact (hhint rfl).elim
  | @word first chars =>
      have hword : wordType lx (String.ofList (first :: chars)) = type :=
        congrArg Prod.fst (Option.some.inj htoken)
      unfold wordType at hword
      split at hword
      · rw [← hword] at hkeyword
        cases hkeyword
      · exact (hidentifier hword.symm).elim
  | national =>
      cases htoken
      exact (hnational rfl).elim
  | whole | fraction =>
      cases htoken
      exact (hnumber rfl).elim
  | string =>
      cases htoken
      exact (hstring rfl).elim
  | symbol hfind =>
      cases htoken
      have hspelling := symbols_delimiter htype _ (List.mem_of_find?_eq_some hfind) rfl
      dsimp only at hspelling hfront
      rw [hspelling] at hfront
      cases hfront
      exact ⟨rfl, rfl⟩

/-! ## Reaching a place -/

/-- Reading a text comes to a rest of it after a number of pieces. -/
inductive Reaches (lx : Lexicon) (rest : List Char) : Nat → List Char → Prop where
  /-- The rest is all of the text. -/
  | here : Reaches lx rest 0 rest
  /-- One more piece stands before. -/
  | piece {n : Nat} {c : Char} {cs : List Char} {p : Piece} (hpiece : Lexer.piece lx c cs = .ok p)
      (hmore : Reaches lx rest n p.rest) : Reaches lx rest (n + 1) (c :: cs)

namespace Reaches

theorem trans (h : Reaches lx more n cs) (hmore : Reaches lx rest m more) :
    Reaches lx rest (n + m) cs := by
  induction h with
  | here => rwa [Nat.zero_add]
  | piece hpiece _ ih =>
      rw [Nat.add_right_comm]
      exact .piece hpiece ih

/-- A run to the end of a text comes to every place that reading comes to. -/
theorem exists_of_run (h : Reaches lx rest n cs) (hrun : run lx steps place done cs = .ok tokens) :
    ∃ left place' done', steps = n + left ∧ run lx left place' done' rest = .ok tokens := by
  induction h generalizing steps place done with
  | here => exact ⟨steps, place, done, (Nat.zero_add steps).symm, hrun⟩
  | piece hpiece _ ih =>
      cases steps with
      | zero => cases hrun
      | succ steps =>
          rw [run, hpiece] at hrun
          obtain ⟨left, place', done', rfl, hleft⟩ := ih hrun
          exact ⟨left, place', done', Nat.add_right_comm .., hleft⟩

/-- A run goes on from a place that reading comes to.  The delimiters among the tokens that it has
read by then stand in the text before that place. -/
theorem run_eq (h : Reaches lx rest n cs) (place : Place) :
    ∃ (front : List Char) (tokens : List Token), cs = front ++ rest ∧
      (∀ token ∈ tokens, ∀ d, delimiterType? d = some token.type → d ∈ front) ∧
      ∀ steps done, run lx (n + steps) place done cs =
        run lx steps (place.advance front) (tokens.reverse ++ done) rest := by
  induction h generalizing place with
  | here =>
      refine ⟨[], [], rfl, fun _ hnil => absurd hnil List.not_mem_nil, fun steps done => ?_⟩
      rw [Nat.zero_add]
      rfl
  | @piece n c cs p hpiece _ ih =>
      obtain ⟨-, hfront⟩ := lexeme_of_piece hpiece
      obtain ⟨front, tokens, hrest, hdelimiters, hrun⟩ := ih (place.advance p.chars)
      refine ⟨p.chars ++ front, (p.tokenBetween place (place.advance p.chars)).toList ++ tokens,
        ?_, fun t ht d hd => ?_, fun steps done => ?_⟩
      · rw [← hfront, hrest, List.append_assoc]
      · rcases List.mem_append.1 ht with hnew | hold
        · obtain ⟨type, text, htoken, rfl⟩ := exists_of_mem_tokenBetween hnew
          obtain ⟨rfl, hcs⟩ := eq_of_delimiter hpiece htoken hd
          rw [hcs] at hfront
          have hchars : p.chars ++ cs = [c] ++ cs := hfront
          rw [List.append_cancel_right hchars]
          exact List.mem_append_left _ List.mem_cons_self
        · exact List.mem_append_right _ (hdelimiters t hold d hd)
      · rw [Nat.add_right_comm, run, hpiece]
        dsimp only
        rw [hrun, Place.advance_append, List.reverse_append, List.append_assoc, reverse_toList]

end Reaches

/-- The delimiter tokens that are read stand for delimiters at places that reading comes to. -/
theorem Scanned.reaches (h : Scanned lx place cs tokens) :
    ∀ token ∈ tokens, ∀ d, delimiterType? d = some token.type →
      ∃ n rest, Reaches lx (d :: rest) n cs := by
  induction h with
  | nil => exact List.forall_mem_nil _
  | @piece place c cs p tokens hpiece _ ih =>
      intro token htoken d hd
      rcases List.mem_append.1 htoken with hhere | hlater
      · obtain ⟨type, text, hfound, rfl⟩ := exists_of_mem_tokenBetween hhere
        obtain ⟨rfl, -⟩ := eq_of_delimiter hpiece hfound hd
        exact ⟨0, cs, .here⟩
      · obtain ⟨n, rest, hreaches⟩ := ih token hlater d hd
        exact ⟨n + 1, rest, .piece hpiece hreaches⟩

/-- A run fails for lexical reasons only. -/
theorem lexical_of_run {e : Error} (hrun : run lx steps place done cs = .error e) :
    ∃ cause line column, e = .lexical cause line column := by
  fun_induction run lx steps place done cs with
  | case1 => cases hrun
  | case2 =>
      cases hrun
      exact ⟨_, _, _, rfl⟩
  | case3 =>
      cases hrun
      exact ⟨_, _, _, rfl⟩
  | case4 steps place done c cs p hpiece stop ih => exact ih hrun

end Lexer

/-! ## The stages of a dialect -/

namespace Dialect

variable {text : String} {leftType rightType : TokenType}

theorem exists_delimiterTypes (d : Dialect) :
    ∃ leftType rightType, Escape.delimiterType? d.delimiters.left = some leftType ∧
      Escape.delimiterType? d.delimiters.right = some rightType := by
  cases d <;> exact ⟨_, _, rfl, rfl⟩

/-- A text without carriage returns is read as it is. -/
theorem tokenize_eq_run (d : Dialect) (hreturn : '\r' ∉ text.toList) :
    d.tokenize text = Lexer.run d.lexicon d.lexicon.maxSteps .start [] text.toList := by
  rw [tokenize, Lexicon.tokenize, unifyNewlines_eq_self hreturn]

/-- Behind the lexer comes one pass over the tokens. -/
theorem normalize_eq_run (d : Dialect)
    (hleft : Escape.delimiterType? d.delimiters.left = some leftType)
    (hright : Escape.delimiterType? d.delimiters.right = some rightType)
    (hreturn : '\r' ∉ text.toList) :
    d.normalize text = Lexer.run d.lexicon d.lexicon.maxSteps .start [] text.toList >>=
      Escape.Pass.run ⟨d.delimiters, leftType, rightType, text.toList.toArray⟩ := by
  unfold normalize SqlTree.normalize
  rw [d.tokenize_eq_run hreturn, Escape.delimiterType_of_some hleft,
    Escape.delimiterType_of_some hright, unifyNewlines_eq_self hreturn]
  rfl

end Dialect

end SqlTree

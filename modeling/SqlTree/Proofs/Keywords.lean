import SqlTree.Proofs.Brackets
import SqlTree.Proofs.Run

/-!
# Keywords and words at the cursor

A cursor moves over keywords one after the other (`Cursor.PassesWords`).  A plain word is taken
where it stands next (`Cursor.nextIsWord`).
-/

namespace SqlTree

open SqlTree.Parser

/-- A cursor moved over keywords. -/
def Cursor.PassesWords (c : Cursor) (words : List Keyword) (d : Cursor) : Prop :=
  ∃ tokens, c.Passes tokens d ∧ tokens.map Token.type = words.map .keyword

namespace Cursor.PassesWords

variable {c d : Cursor} {word : Keyword} {words : List Keyword}

theorem eq_of_nil (h : c.PassesWords [] d) : d = c := by
  obtain ⟨tokens, ⟨hahead, hbehind, hdepth⟩, htypes⟩ := h
  obtain rfl := List.map_eq_nil_iff.1 htypes
  rw [Cursor.mk.injEq]
  exact ⟨hbehind, hahead.symm, hdepth⟩

theorem head_tail (h : c.PassesWords (word :: words) d) :
    c.nextType = some (.keyword word) ∧ c.step.PassesWords words d := by
  obtain ⟨tokens, ⟨hahead, hbehind, hdepth⟩, htypes⟩ := h
  obtain ⟨token, tokens, rfl, htype, htypes⟩ := List.map_eq_cons_iff.1 htypes
  obtain ⟨behind, ahead, depth⟩ := c
  cases hahead
  refine ⟨congrArg some htype, tokens, ⟨rfl, ?_, hdepth⟩, htypes⟩
  simpa [Cursor.step] using hbehind

theorem tail (h : c.PassesWords (word :: words) d) : c.step.PassesWords words d :=
  h.head_tail.2

theorem take (h : c.PassesWords (word :: words) d) : acceptKeyword word c = .ok true c.step :=
  accept_of_next h.head_tail.1

theorem skip (h : c.PassesWords (word :: words) d) (other : Keyword) (hne : word ≠ other) :
    acceptKeyword other c = .ok false c := by
  refine accept_of_not_next ?_
  rw [h.head_tail.1, ne_eq, Option.some.injEq, TokenType.keyword.injEq]
  exact hne

theorem nil (c : Cursor) : c.PassesWords [] c :=
  ⟨[], .refl c, rfl⟩

theorem cons (hnext : c.nextType = some (.keyword word)) (h : c.step.PassesWords words d) :
    c.PassesWords (word :: words) d := by
  obtain ⟨token, ahead, hahead, htype⟩ := exists_ahead_of_nextType hnext
  obtain ⟨tokens, hpasses, htypes⟩ := h
  refine ⟨token :: tokens, (Passes.step hahead).trans hpasses, ?_⟩
  rw [List.map_cons, List.map_cons, htype, htypes]

end Cursor.PassesWords

namespace Parser

variable {c d : Cursor} {word : Keyword}

theorem expectKeyword_of_next (hnext : c.nextType = some (.keyword word)) :
    ∃ token, expectKeyword word c = .ok token c.step :=
  expect_of_next hnext

theorem passesWords_of_expectKeyword {token : Token} (hread : expectKeyword word c = .ok token d) :
    c.PassesWords [word] d := by
  obtain ⟨tokens, hahead, htype, rfl⟩ := expect_eq_ok.1 hread
  exact .cons (htype ▸ Cursor.nextType_of_ahead hahead) (.nil _)

end Parser

def Cursor.nextIsWord (word : String) (c : Cursor) : Bool :=
  c.ahead.head?.any (·.isThisWord word)

namespace Parser

variable {c : Cursor} {word : String}

theorem acceptWord_of_next (hnext : c.nextIsWord word = true) :
    acceptWord word c = .ok true c.step := by
  obtain ⟨behind, _ | ⟨token, tokens⟩, depth⟩ := c
  · cases hnext
  · exact if_pos hnext

theorem acceptWord_of_not_next (hnext : c.nextIsWord word = false) :
    acceptWord word c = .ok false c := by
  obtain ⟨behind, _ | ⟨token, tokens⟩, depth⟩ := c
  · rfl
  · exact if_neg (Bool.eq_false_iff.1 hnext)

end Parser

end SqlTree

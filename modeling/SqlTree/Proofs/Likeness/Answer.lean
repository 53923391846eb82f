import SqlTree.Parsed
import SqlTree.Proofs.Likeness.Statement
import SqlTree.Session

/-!
# Like answers

What two readings from like places give: like trees, or errors that may come together, unless one of
them is an error that parts the readings.
-/

namespace SqlTree

namespace Likeness

variable {L : Likeness}

/-- Parsers that are kept alike, from like places. -/
theorem Kept.agree {α : Type} {V : α → α → Prop} {p q : Parser α} (h : L.Kept V p q) {c d : Cursor}
    (hbeside : L.Beside c d) (hlinked : L.Linked c.ahead := by exact fun _ _ _ => trivial) :
    L.Agree (fun a b c d => V a b ∧ L.Beside c d) (p c) (q d) := by
  have hagree := h [] c c d ⟨hbeside, hlinked, [], .refl c, rfl⟩ trivial
  generalize p c = x, q d = y at hagree
  cases hagree with
  | ok h => exact .ok ⟨h.1, h.2.toBeside⟩
  | error h hbeside => exact .error h hbeside
  | first h => exact .first h
  | second h => exact .second h

/-- Either way to read a cursor gives like trees at like places. -/
theorem agree_read (hL : L.Lawful) (reading : Reading) {c d : Cursor} (hbeside : L.Beside c d)
    (hlinked : L.Linked c.ahead := by exact fun _ _ _ => trivial) :
    L.Agree (fun a b c d => L.Like a b ∧ L.Beside c d) (L.first.read reading c)
      (L.second.read reading d) := by
  cases reading with
  | expression => exact (kept_expression hL).agree hbeside hlinked
  | statement => exact (kept_statement hL).agree hbeside hlinked

/-- Two answers that are like trees or errors that may come together, unless one of them is an error
that parts the readings. -/
inductive Answers (L : Likeness) : Except Error Expr → Except Error Expr → Prop where
  | ok {a b : Expr} (h : L.Like a b) : Answers L (.ok a) (.ok b)
  | error {e f : Error} (h : L.error e f) : Answers L (.error e) (.error f)
  | first {e : Error} {y : Except Error Expr} (h : L.parts e) : Answers L (.error e) y
  | second {f : Error} {x : Except Error Expr} (h : L.parts f) : Answers L x (.error f)

/-- Like tokens give like statements. -/
theorem answers_statementOf (hL : L.Lawful) {tokens tokens' : List Token}
    (htokens : List.Forall₂ L.token tokens tokens')
    (hlinked : L.Linked tokens := by exact fun _ _ _ => trivial) :
    L.Answers (L.first.statementOf tokens) (L.second.statementOf tokens') := by
  have hagree := agree_read hL .statement (c := Cursor.start tokens) (d := Cursor.start tokens')
    ⟨.nil, htokens, rfl⟩ hlinked
  change L.Agree _ (L.first.statement _) (L.second.statement _) at hagree
  unfold Settings.statementOf
  generalize L.first.statement (Cursor.start tokens) = x,
    L.second.statement (Cursor.start tokens') = y at hagree
  cases hagree with
  | ok h => exact .ok h.1
  | error h _ => exact .error h
  | first h => exact .first h
  | second h => exact .second h

end Likeness

end SqlTree

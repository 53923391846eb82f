/-!
# Newlines and places

Positions count characters after every carriage return that stands directly before a line feed has
been dropped.  Any other carriage return is left alone and is a blank like any other.

A place is an offset together with the line and the column it stands in.  Offsets count characters
from zero, lines and columns from one, and a line feed is the last character of its line.
-/

namespace SqlTree.Text

/-! ## One newline for all platforms -/

/-- Drops each carriage return that stands directly before a line feed. -/
def unifyNewlines : List Char → List Char
  | [] => []
  | c :: cs =>
    if c = '\r' ∧ cs.head? = some '\n' then unifyNewlines cs else c :: unifyNewlines cs

/-- Text without carriage returns is left as it is, whatever follows. -/
theorem unifyNewlines_append {xs : List Char} (h : '\r' ∉ xs) (ys : List Char) :
    unifyNewlines (xs ++ ys) = xs ++ unifyNewlines ys := by
  induction xs with
  | nil => rfl
  | cons x xs ih =>
    rw [List.mem_cons, not_or] at h
    simp [unifyNewlines, Ne.symm h.1, ih h.2]

/-- Text without carriage returns is left as it is. -/
theorem unifyNewlines_eq_self {cs : List Char} (h : '\r' ∉ cs) : unifyNewlines cs = cs := by
  have happend := unifyNewlines_append h []
  rwa [unifyNewlines, List.append_nil] at happend

/-- Only a line feed can come to the front of a text. -/
theorem head?_unifyNewlines {c : Char} (hc : c ≠ '\n') {cs : List Char}
    (h : (unifyNewlines cs).head? = some c) : cs.head? = some c := by
  cases cs with
  | nil => cases h
  | cons d cs =>
    rw [unifyNewlines] at h
    split at h
    case isFalse => exact h
    case isTrue hdrop =>
      obtain ⟨rest, rfl⟩ : ∃ rest, cs = '\n' :: rest := by
        cases cs with
        | nil => cases hdrop.2
        | cons e rest =>
          injection hdrop.2 with he
          exact ⟨rest, by rw [he]⟩
      rw [unifyNewlines, if_neg (by simp)] at h
      injection h with h
      exact absurd h.symm hc

/-! ## Places -/

/-- A place in a text. -/
structure Place where
  /-- Characters before the place. -/
  offset : Nat
  /-- The line, counted from one. -/
  line : Nat
  /-- The column, counted from one. -/
  column : Nat
  deriving DecidableEq, Repr

namespace Place

def start : Place := ⟨0, 1, 1⟩

def next (p : Place) (c : Char) : Place :=
  if c = '\n' then ⟨p.offset + 1, p.line + 1, 1⟩ else ⟨p.offset + 1, p.line, p.column + 1⟩

def advance (p : Place) (cs : List Char) : Place :=
  cs.foldl next p

@[simp] theorem advance_nil (p : Place) : p.advance [] = p := rfl

theorem advance_append (p : Place) (xs ys : List Char) :
    p.advance (xs ++ ys) = (p.advance xs).advance ys :=
  List.foldl_append

@[simp] theorem offset_next (p : Place) (c : Char) : (p.next c).offset = p.offset + 1 := by
  unfold next; split <;> rfl

/-- Reading characters moves the offset by their number. -/
@[simp] theorem offset_advance (p : Place) (cs : List Char) :
    (p.advance cs).offset = p.offset + cs.length := by
  induction cs generalizing p with
  | nil => rfl
  | cons c cs ih =>
    change ((p.next c).advance cs).offset = _
    rw [ih, offset_next, List.length_cons]
    omega

end Place

end SqlTree.Text

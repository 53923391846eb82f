import Mathlib.Data.List.Induction
import SqlTree.Text.Place

/-!
# Lines and columns

Where an offset stands in a text, told by its line feeds alone: the line is counted by the line
feeds before the offset, and the column by the characters between the last of these and the
offset.  Main statement: a place that is kept up while characters are read says just that
(`stands_iff`).  So a column counted on from the start of a stretch of text is the column of some
offset only if there is no line feed in that stretch (`Stands.exists_further_iff`).
-/

namespace SqlTree.Text

/-- An offset of a text stands in a line and a column.  Lines end with their line feed, and lines
and columns are counted from one. -/
structure Stands (cs : List Char) (offset line column : Nat) : Prop where
  inside : offset ≤ cs.length
  line : line = (cs.take offset).count '\n' + 1
  column : ∃ start ≤ offset, (start = 0 ∨ cs[start - 1]? = some '\n') ∧
    '\n' ∉ (cs.take offset).drop start ∧ column = offset - start + 1

namespace Place

variable (p : Place) {cs : List Char}

/-- Reading characters moves the line by the number of line feeds among them. -/
theorem line_advance (cs : List Char) : (p.advance cs).line = p.line + cs.count '\n' := by
  induction cs generalizing p with
  | nil => rfl
  | cons c cs ih =>
      change ((p.next c).advance cs).line = _
      rw [ih, List.count_cons, next]
      by_cases hfeed : c = '\n'
      · rw [if_pos hfeed, if_pos (beq_iff_eq.2 hfeed)]
        dsimp only
        omega
      · rw [if_neg hfeed, if_neg (by simpa using hfeed)]
        rfl

/-- Within a line the column moves by the number of characters. -/
theorem column_advance (hline : '\n' ∉ cs) : (p.advance cs).column = p.column + cs.length := by
  induction cs generalizing p with
  | nil => rfl
  | cons c cs ih =>
      rw [List.mem_cons, not_or] at hline
      change ((p.next c).advance cs).column = _
      rw [ih _ hline.2, next, if_neg (Ne.symm hline.1), List.length_cons]
      dsimp only
      omega

/-- Behind a line feed a new line starts. -/
theorem column_advance_feed (cs : List Char) : (p.advance (cs ++ ['\n'])).column = 1 := by
  rw [advance_append]
  rfl

end Place

/-! ## Where the places of a text stand -/

variable {front back cs : List Char} {offset other line column : Nat}

theorem take_eq_append (hle : offset ≤ other) :
    cs.take other = cs.take offset ++ (cs.take other).drop offset := by
  have hfront : (cs.take other).take offset = cs.take offset := by
    rw [List.take_take, Nat.min_eq_left hle]
  rw [← hfront, List.take_append_drop]

theorem length_drop_take (hinside : other ≤ cs.length) :
    ((cs.take other).drop offset).length = other - offset := by
  rw [List.length_drop, List.length_take, Nat.min_eq_left hinside]

/-- The place behind the start of a text stands where that start ends. -/
theorem stands_advance (front back : List Char) :
    Stands (front ++ back) front.length (Place.start.advance front).line
      (Place.start.advance front).column := by
  constructor
  · rw [List.length_append]
    exact Nat.le_add_right _ _
  · rw [List.take_left, Place.line_advance, Nat.add_comm]
    rfl
  · rw [List.take_left]
    induction front using List.reverseRecOn generalizing back with
    | nil => exact ⟨0, Nat.le_refl 0, .inl rfl, List.not_mem_nil, rfl⟩
    | append_singleton front c ih =>
        by_cases hfeed : c = '\n'
        · subst hfeed
          refine ⟨(front ++ ['\n']).length, Nat.le_refl _, .inr ?_, ?_, ?_⟩
          · simp
          · rw [List.drop_length]
            exact List.not_mem_nil
          · rw [Place.column_advance_feed, Nat.sub_self]
        · obtain ⟨start, hstart, hbefore, hline, hcolumn⟩ := ih (c :: back)
          have hlength : (front ++ [c]).length = front.length + 1 := List.length_append
          refine ⟨start, by omega, ?_, ?_, ?_⟩
          · rwa [List.append_assoc]
          · rw [List.drop_append_of_le_length hstart, List.mem_append, not_or]
            exact ⟨hline, by simpa using Ne.symm hfeed⟩
          · have hlast : '\n' ∉ [c] := by simpa using Ne.symm hfeed
            rw [Place.advance_append, Place.column_advance _ hlast, hcolumn]
            simp only [List.length_cons, List.length_nil, hlength]
            omega

/-- Line and column of an offset are those of the place that reading up to it comes to. -/
theorem stands_iff :
    Stands cs offset line column ↔ offset ≤ cs.length ∧
      line = (Place.start.advance (cs.take offset)).line ∧
      column = (Place.start.advance (cs.take offset)).column := by
  constructor
  · rintro ⟨hinside, hline, start, hstart, hbefore, hrest, hcolumn⟩
    refine ⟨hinside, ?_, ?_⟩
    · rw [hline, Place.line_advance, Nat.add_comm]
      rfl
    · have hfirst : (Place.start.advance (cs.take start)).column = 1 := by
        cases start with
        | zero => rfl
        | succ last =>
            have hfeed : cs[last]? = some '\n' := hbefore.resolve_left (Nat.succ_ne_zero last)
            rw [List.take_add_one, hfeed]
            exact Place.column_advance_feed _ _
      rw [hcolumn, take_eq_append hstart, Place.advance_append, Place.column_advance _ hrest,
        length_drop_take hinside, hfirst]
      exact Nat.add_comm _ _
  · rintro ⟨hinside, rfl, rfl⟩
    have hstands := stands_advance (cs.take offset) (cs.drop offset)
    rwa [List.take_append_drop, List.length_take, Nat.min_eq_left hinside] at hstands

/-! ## Two offsets of one line -/

namespace Stands

/-- Without a line feed between them, an offset stands in the line of another one, further right
by the characters between them. -/
theorem further (h : Stands cs offset line column) (hle : offset ≤ other)
    (hinside : other ≤ cs.length) (hline : '\n' ∉ (cs.take other).drop offset) :
    Stands cs other line (column + (other - offset)) := by
  obtain ⟨-, rfl, rfl⟩ := stands_iff.1 h
  rw [stands_iff, take_eq_append hle, Place.advance_append]
  refine ⟨hinside, ?_, ?_⟩
  · rw [Place.line_advance (Place.start.advance (cs.take offset)), List.count_eq_zero.2 hline,
      Nat.add_zero]
  · rw [Place.column_advance _ hline, length_drop_take hinside]

/-- Between two offsets of one line there is no line feed, and the characters between them make up
the distance of their columns. -/
theorem column_eq {column' : Nat} (h : Stands cs offset line column)
    (h' : Stands cs other line column') (hle : offset ≤ other) :
    '\n' ∉ (cs.take other).drop offset ∧ column' = column + (other - offset) := by
  obtain ⟨-, hline, hcolumn⟩ := stands_iff.1 h
  obtain ⟨hinside, hline', hcolumn'⟩ := stands_iff.1 h'
  rw [take_eq_append hle, Place.advance_append] at hline' hcolumn'
  have hfeeds : ((cs.take other).drop offset).count '\n' = 0 := by
    rw [Place.line_advance] at hline'
    omega
  have hnone := List.count_eq_zero.1 hfeeds
  refine ⟨hnone, ?_⟩
  rw [hcolumn', Place.column_advance _ hnone, length_drop_take hinside, hcolumn]

/-- A column counted on from an offset is the column of some offset of the same line just when
there is no line feed in what is counted. -/
theorem exists_further_iff (h : Stands cs offset line column) (hle : offset ≤ other)
    (hinside : other ≤ cs.length) :
    (∃ third, Stands cs third line (column + (other - offset))) ↔
      '\n' ∉ (cs.take other).drop offset := by
  constructor
  · rintro ⟨third, hthird⟩
    by_cases hbehind : offset ≤ third
    · obtain ⟨hline, hcolumn⟩ := h.column_eq hthird hbehind
      have hsame : third = other := by omega
      rwa [hsame] at hline
    · obtain ⟨-, hcolumn⟩ := hthird.column_eq h (by omega)
      omega
  · exact fun hline => ⟨other, h.further hle hinside hline⟩

end Stands

end SqlTree.Text

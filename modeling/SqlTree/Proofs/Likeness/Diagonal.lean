import SqlTree.Proofs.Likeness.Statement
import SqlTree.Proofs.Run

/-!
# One reading beside itself

The same tokens, read twice with settings that may differ in their caps, give the same, unless an
error parts the readings.  In particular every reading is alike with itself.  What the walk
through the grammar then says is that whatever a rule of the grammar reads is well nested.
-/

namespace SqlTree

namespace Likeness

variable {α : Type}

/-- Two readings of the same tokens, which some errors may part. -/
def sameTokens (first second : Settings) (parts : Error → Prop) : Likeness :=
  ⟨first, second, {}, {}, Eq, fun _ _ => True, Eq, parts⟩

section

variable {first second : Settings} {parts : Error → Prop}

theorem like_sameTokens {a b : String} : (sameTokens first second parts).Like a b ↔ a = b :=
  Iff.rfl

theorem Beside.eq_of_sameTokens {c d : Cursor} (h : (sameTokens first second parts).Beside c d) :
    c = d :=
  h.eq id

theorem beside_self (c : Cursor) : (sameTokens first second parts).Beside c c :=
  ⟨List.forall₂_same.2 fun _ _ => rfl, List.forall₂_same.2 fun _ _ => rfl, rfl⟩

/-- Settings that read the same language; where their caps differ, meeting a cap parts the
readings. -/
theorem lawful_sameTokens (htag : first.tag = second.tag)
    (hstyle : first.limitStyle = second.limitStyle)
    (hiterations : first.maxIterations = second.maxIterations ∨
      ∀ construct cap, parts (.statement (.tooManyIterations construct cap)))
    (hdepth : first.maxDepth = second.maxDepth ∨ ∀ cap, parts (.statement (.tooDeep cap))) :
    (sameTokens first second parts).Lawful where
  limitStyle := hstyle
  maxIterations := hiterations
  maxDepth := hdepth
  link := .inl (congrArg (fun tag : Tag => tag.dialect == some .oracle) htag)
  into := .inl (congrArg (fun tag : Tag => tag.dialect == some .sqlServer) htag)
  tableHints := .inl (congrArg (fun tag : Tag => tag.dialect == some .sqlServer) htag)
  tag := htag
  constant := .refl rfl
  append hfront hback := like_sameTokens.2 <| by
    rw [like_sameTokens.1 hfront, like_sameTokens.1 hback]
  upper htext := like_sameTokens.2 (congrArg Text.upper (like_sameTokens.1 htext))
  type hab := congrArg Token.type hab
  text hab := congrArg Token.text hab
  word hab _ := by rw [show _ = _ from hab]
  escaped {a b} hab _ := by
    cases (hab : a = b)
    change (sameTokens first second parts).Like (Identifier.escaped a.text first.tag)
      (Identifier.escaped a.text second.tag)
    rw [htag]
    exact .refl rfl _
  same _ := rfl
  refused hbeside hcause :=
    congrArg₂ Cursor.error hbeside.eq_of_sameTokens (hcause.eq like_sameTokens.1)
  unsupported feature :=
    congrArg (fun tag : Tag => Error.unsupported feature (tag.dialect.elim "generic" Dialect.name))
      htag

end

/-- The likeness of a reading with itself. -/
def diagonal (settings : Settings) : Likeness :=
  sameTokens settings settings fun _ => False

theorem lawful_diagonal (settings : Settings) : (diagonal settings).Lawful :=
  lawful_sameTokens rfl rfl (.inl rfl) (.inl rfl)

/-- The levels on which a reading can stand. -/
theorem levels_diagonal (settings : Settings) (levels : Nat) :
    (diagonal settings).Levels ⟨settings, Level.produce settings levels⟩
      ⟨settings, Level.produce settings levels⟩ :=
  ⟨lawful_diagonal settings, rfl, rfl, kept_produce (lawful_diagonal settings) (.inl ⟨rfl, rfl⟩)⟩

/-- What is read is well nested, and the nesting level is left as it was. -/
theorem Kept.passes
    {settings : Settings} {V : α → α → Prop} {p : Parser α} (hp : (diagonal settings).Kept V p p)
    {a : α} {c d : Cursor} (hread : p c = .ok a d) :
    ∃ tokens, c.Passes tokens d ∧ Bracket.WellNested tokens := by
  have habreast : (diagonal settings).Abreast c [] c c :=
    ⟨beside_self c, fun _ _ _ => trivial, [], .refl c, rfl⟩
  have hone := hp [] c c c habreast trivial
  rw [hread] at hone
  cases hone with
  | ok h => exact h.2.passed

end Likeness

end SqlTree

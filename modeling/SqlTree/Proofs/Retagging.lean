import Mathlib.Data.List.Chain
import SqlTree.Proofs.Likeness.Answer
import SqlTree.Proofs.Relabelling
import SqlTree.Proofs.Stamped

/-!
# What the tag does

The tag of the settings is stamped on everything that is read (`Settings.read_stamped`).  Beyond
that it decides about three things only: where the rows of a query go, which database a table is
linked to and which hints a table has.  Where none of these is written, or where neither tag is of
a dialect that has them, settings that differ in their tags read equal trees
(`Settings.statementOf_retagged`).

Both come from one pair of readings, in which the trees of the first one are stamped with the tag
of the second one before they are compared.
-/

namespace SqlTree

/-- Errors that are the same up to the name of the dialect that has no room for a feature. -/
inductive Error.SameButDialect (tag tag' : Tag) : Error → Error → Prop where
  | same (e : Error) : SameButDialect tag tag' e e
  | unsupported (feature : Feature) :
      SameButDialect tag tag' (.unsupported feature (tag.dialect.elim "generic" Dialect.name))
        (.unsupported feature (tag'.dialect.elim "generic" Dialect.name))

/-- Two answers that are equal trees, or errors that are the same up to the name of a dialect. -/
inductive SameButTag (tag tag' : Tag) : Except Error Expr → Except Error Expr → Prop where
  | ok {a b : Expr} (hequal : (a == b) = true) : SameButTag tag tag' (.ok a) (.ok b)
  | error {e f : Error} (herror : e.SameButDialect tag tag' f) :
      SameButTag tag tag' (.error e) (.error f)

/-- The tags of no dialect and of those whose grammar has nothing of its own. -/
def Tag.plain : List Tag :=
  [⟨none⟩, ⟨some .mySql⟩, ⟨some .postgreSql⟩, ⟨some .sqlite⟩]

/-- Tokens without what only some of the tags tell how to read. -/
structure TagFree (tokens : List Token) : Prop where
  noInto : ∀ token ∈ tokens, token.type ≠ .keyword .INTO
  noAt : ∀ token ∈ tokens, token.type ≠ .atSign
  noHints : tokens.IsChain fun a b => a.type = .keyword .WITH → b.type ≠ .lparen

namespace Likeness

/-- The same tokens, read with one tag and with another one.  Where `free` holds, there is nothing
among the tokens that only some of the tags tell how to read. -/
def retagging (settings : Settings) (tag : Tag) (free : Prop) : Likeness where
  first := settings
  second := { settings with tag }
  firstLabel := .stamp tag
  secondLabel := {}
  token a b := a = b ∧ (free → a.type ≠ .keyword .INTO ∧ a.type ≠ .atSign)
  follows a b := free → a.type = .keyword .WITH → b.type ≠ .lparen
  error := Error.SameButDialect settings.tag tag
  parts _ := False

variable {settings : Settings} {tag : Tag} {free : Prop}

theorem like_retagging {a b : String} : (retagging settings tag free).Like a b ↔ a = b :=
  Iff.rfl

/-- Trees are alike if the first one becomes the second one when it is stamped. -/
theorem Like.relabel_eq {a b : Expr} (h : (retagging settings tag free).Like a b) :
    a.relabel (.stamp tag) = b := by
  have hlike : a.relabel (.stamp tag) = b.relabel {} := h
  rwa [b.relabel_same] at hlike

/-- The tags have to be plain or the same, or the tokens free. -/
theorem lawful_retagging
    (hfree : free ∨ settings.tag = tag ∨ (settings.tag ∈ Tag.plain ∧ tag ∈ Tag.plain)) :
    (retagging settings tag free).Lawful := by
  have hshares : free ∨ ((retagging settings tag free).SharesDialect .oracle ∧
      (retagging settings tag free).SharesDialect .sqlServer) := by
    refine hfree.imp_right fun htags => ?_
    rcases htags with rfl | ⟨hfirst, hsecond⟩
    · exact ⟨rfl, rfl⟩
    · have hplain : ∀ tag ∈ Tag.plain, (tag.dialect == some .oracle) = false ∧
          (tag.dialect == some .sqlServer) = false := by decide
      exact ⟨(hplain _ hfirst).1.trans (hplain _ hsecond).1.symm,
        (hplain _ hfirst).2.trans (hplain _ hsecond).2.symm⟩
  exact {
    limitStyle := rfl
    maxIterations := .inl rfl
    maxDepth := .inl rfl
    link := hshares.symm.imp And.left fun hfree _ _ hab => (hab.2 hfree).2
    into := hshares.symm.imp And.right fun hfree _ _ hab => (hab.2 hfree).1
    tableHints := hshares.symm.imp And.right fun hfree _ _ hfollows => hfollows hfree
    tag := rfl
    constant := fun _ => rfl
    append := fun hfront hback => by
      rw [like_retagging, like_retagging.1 hfront, like_retagging.1 hback]
    upper := fun htext => congrArg Text.upper (like_retagging.1 htext)
    type := fun hab => congrArg Token.type hab.1
    text := fun hab => congrArg Token.text hab.1
    word := fun hab _ => by rw [hab.1]
    escaped := fun {a b} hab _ => by
      rw [hab.1]
      change Identifier.relabel _ _ = Identifier.relabel _ _
      simp [Identifier.relabel, Identifier.escaped, Relabel.stamp, retagging]
    same := .same
    refused := fun hbeside hcause => by
      rw [hbeside.eq And.left, hcause.eq like_retagging.1]
      exact .same _
    unsupported := .unsupported }

/-- Cursors stand beside themselves, unless there are tokens that are not free. -/
theorem beside_retagging {c : Cursor}
    (htokens : free → ∀ token ∈ c.behind ++ c.ahead,
      token.type ≠ .keyword .INTO ∧ token.type ≠ .atSign) :
    (retagging settings tag free).Beside c c := by
  refine ⟨?_, ?_, rfl⟩
  · exact List.forall₂_same.2 fun token htoken =>
      ⟨rfl, fun hfree => htokens hfree token (List.mem_append_left _ htoken)⟩
  · exact List.forall₂_same.2 fun token htoken =>
      ⟨rfl, fun hfree => htokens hfree token (List.mem_append_right _ htoken)⟩

end Likeness

namespace Settings

/-- Everything in the tree that is read carries the tag of the settings: stamping it again changes
nothing, and each node that a visit goes to has that tag. -/
theorem read_stamped (settings : Settings) (reading : Reading) {c d : Cursor} {e : Expr}
    (hread : settings.read reading c = .ok e d) :
    e.relabel (.stamp settings.tag) = e ∧ ∀ visit ∈ e.visits, visit.2 = settings.tag := by
  have hlawful : (Likeness.retagging settings settings.tag False).Lawful :=
    Likeness.lawful_retagging (.inr (.inl rfl))
  have hbeside : (Likeness.retagging settings settings.tag False).Beside c c :=
    Likeness.beside_retagging False.elim
  have hagree := Likeness.agree_read hlawful reading hbeside fun _ _ _ => False.elim
  have hsame : e.relabel (.stamp settings.tag) = e := by
    change Likeness.Agree _ _ (settings.read reading c) (settings.read reading c) at hagree
    rw [hread] at hagree
    cases hagree with
    | ok h => exact h.1.relabel_eq
  refine ⟨hsame, ?_⟩
  rw [← hsame]
  exact e.stamped_relabel settings.tag

/-- The tokens of `SELECT f ( a ) FROM b AS c`. -/
def aliased : List Token :=
  [.unplaced (.keyword .SELECT) "SELECT", .unplaced .identifier "f", .unplaced .lparen "(",
    .unplaced .identifier "a", .unplaced .rparen ")", .unplaced (.keyword .FROM) "FROM",
    .unplaced .identifier "b", .unplaced (.keyword .AS) "AS", .unplaced .identifier "c"]

theorem read_stamped_aliased :
    ∃ e d, (Dialect.oracle.settings.read .statement (.start aliased) = .ok e d ∧
      ∀ visit ∈ e.visits, visit.2 = ⟨some .oracle⟩) ∧
      ∃ e d, (⟨⟨none⟩, none, 9, 9⟩ : Settings).read .expression (.start (aliased.drop 1)) =
        .ok e d ∧
        ∀ visit ∈ e.visits, visit.2 = ⟨none⟩ := by
  obtain ⟨e, d, hread⟩ : ∃ e d,
      Dialect.oracle.settings.read .statement (.start aliased) = .ok e d := ⟨_, _, rfl⟩
  obtain ⟨e', d', hread'⟩ : ∃ e d,
      (⟨⟨none⟩, none, 9, 9⟩ : Settings).read .expression (.start (aliased.drop 1)) = .ok e d :=
    ⟨_, _, rfl⟩
  exact ⟨e, d, ⟨hread, (read_stamped _ _ hread).2⟩, e', d', hread', (read_stamped _ _ hread').2⟩

/-- Settings that differ in their tags read equal trees from the same tokens, or refuse them with
the same error up to the name of a dialect, if both tags are plain or there is nothing among the
tokens that only some of the tags tell how to read. -/
theorem statementOf_retagged (settings : Settings) (tag : Tag) (tokens : List Token)
    (hfree : (settings.tag ∈ Tag.plain ∧ tag ∈ Tag.plain) ∨ TagFree tokens) :
    SameButTag settings.tag tag (settings.statementOf tokens)
      ({ settings with tag }.statementOf tokens) := by
  have hlawful : (Likeness.retagging settings tag (TagFree tokens)).Lawful :=
    Likeness.lawful_retagging (hfree.symm.imp_right .inr)
  have htokens :
      List.Forall₂ (Likeness.retagging settings tag (TagFree tokens)).token tokens tokens :=
    List.forall₂_same.2 fun token htoken =>
      ⟨rfl, fun hfree => ⟨hfree.noInto token htoken, hfree.noAt token htoken⟩⟩
  have hlinked : (Likeness.retagging settings tag (TagFree tokens)).Linked tokens := by
    intro a b hpair hfree
    have hchain := List.IsChain.infix hfree.noHints hpair
    exact List.isChain_pair.1 hchain
  have hanswers := Likeness.answers_statementOf hlawful htokens hlinked
  change Likeness.Answers _ (settings.statementOf tokens)
    ({ settings with tag }.statementOf tokens) at hanswers
  generalize settings.statementOf tokens = x,
    { settings with tag }.statementOf tokens = y at hanswers
  cases hanswers with
  | @ok a b h =>
      rw [← h.relabel_eq]
      exact .ok (a.beq_stamp tag)
  | error h => exact .error h
  | first h => exact h.elim
  | second h => exact h.elim

/-- Two plain tags before tokens that are not free, and two other ones before tokens that are. -/
theorem statementOf_retagged_aliased :
    (Tag.mk none ∈ Tag.plain ∧ Tag.mk (some .mySql) ∈ Tag.plain ∧
      SameButTag ⟨none⟩ ⟨some .mySql⟩
        ((⟨⟨none⟩, none, 9, 9⟩ : Settings).statementOf
          (aliased ++ [.unplaced (.keyword .INTO) "INTO"]))
        ((⟨⟨some .mySql⟩, none, 9, 9⟩ : Settings).statementOf
          (aliased ++ [.unplaced (.keyword .INTO) "INTO"]))) ∧
      TagFree aliased ∧
        SameButTag ⟨some .sqlServer⟩ ⟨some .oracle⟩
          ((⟨⟨some .sqlServer⟩, none, 9, 9⟩ : Settings).statementOf aliased)
          ((⟨⟨some .oracle⟩, none, 9, 9⟩ : Settings).statementOf aliased) := by
  have hfirst : Tag.mk none ∈ Tag.plain := by simp [Tag.plain]
  have hsecond : Tag.mk (some .mySql) ∈ Tag.plain := by simp [Tag.plain]
  have hfree : TagFree aliased := ⟨by decide, by decide, by decide⟩
  refine ⟨⟨hfirst, hsecond, ?_⟩, hfree, ?_⟩
  · exact statementOf_retagged ⟨⟨none⟩, none, 9, 9⟩ _ _ (.inl ⟨hfirst, hsecond⟩)
  · exact statementOf_retagged ⟨⟨some .sqlServer⟩, none, 9, 9⟩ _ _ (.inr hfree)

end Settings

end SqlTree

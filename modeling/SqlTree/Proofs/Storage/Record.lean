import SqlTree.Json.Decode
import SqlTree.Proofs.AllOf

/-!
# Stored forms and the records that read them

A clause is stored with its expressions inside it, and it is read back if they are. `Codec.Stored`
says so of one value and counts the expressions, so that two things come out of one walk over the
fields of a record: that it is read back, and that it is at least as high as everything it holds.
The second is what ends the reading of a tree.  There is one rule for each kind of field.
-/

namespace SqlTree

open Json

/-- A way to store expressions and to read them again.  `null` is no stored form, since it would be
read as a missing expression. -/
structure Codec (ε : Type) where
  write : ε → Json
  read : Json → Option ε
  write_ne_null : ∀ e, write e ≠ .null

namespace Codec

variable {ε α β : Type}

/-- What is stored of the expression is read back. -/
def Keeps (c : Codec ε) (e : ε) : Prop :=
  c.read (c.write e) = some e

/-- The value is a stored form of `a`, which holds the given expressions. -/
structure Stored (c : Codec ε) (v : Json) (read : Json → Option α) (a : α) (held : List ε) :
    Prop where
  read_eq : AllOf c.Keeps held → read v = some a
  ne_null : v ≠ .null
  height_le : AllOf (fun e => (c.write e).height ≤ v.height) held

/-- Some of the fields are a stored form of `a`, which holds the given expressions. -/
structure StoredIn (c : Codec ε) (fields : List (String × Json)) (read : FieldReader α) (a : α)
    (held : List ε) : Prop where
  read_eq : AllOf c.Keeps held → read (.named fields) = some (a, .named fields)
  height_le : AllOf (fun e => (c.write e).height ≤ heightOfFields fields) held

variable {c : Codec ε} {fields : List (String × Json)} {name : String} {v : Json}
  {read : Json → Option α} {a : α} {held held' : List ε}

/-! ## Fields -/

theorem height_le_of_lookup (hlookup : fields.lookup name = some v) :
    v.height ≤ heightOfFields fields := by
  induction fields with
  | nil => cases hlookup
  | cons field fields ih =>
      obtain ⟨key, value⟩ := field
      rw [List.lookup_cons] at hlookup
      rw [heightOfFields]
      split at hlookup
      · cases hlookup
        exact Nat.le_max_left _ _
      · exact Nat.le_trans (ih hlookup) (Nat.le_max_right _ _)

namespace StoredIn

theorem pure : c.StoredIn fields (pure a) a [] where
  read_eq _ := rfl
  height_le := AllOf.nil

theorem bind {first : FieldReader α} {next : α → FieldReader β} {b : β}
    (hfirst : c.StoredIn fields first a held) (hnext : c.StoredIn fields (next a) b held') :
    c.StoredIn fields (first >>= next) b (held ++ held') where
  read_eq hkeeps := by
    obtain ⟨hheld, hheld'⟩ := AllOf.append_iff.1 hkeeps
    change (first (.named fields)).bind (fun x => next x.1 x.2) = _
    rw [hfirst.read_eq hheld]
    exact hnext.read_eq hheld'
  height_le := AllOf.append_iff.2 ⟨hfirst.height_le, hnext.height_le⟩

theorem field (hlookup : fields.lookup name = some v) (hv : c.Stored v read a held) :
    c.StoredIn fields (field name read) a held where
  read_eq hkeeps := by
    simp only [Json.field, hlookup, hv.read_eq hkeeps, Option.map_some]
  height_le e he := Nat.le_trans (hv.height_le e he) (height_le_of_lookup hlookup)

/-- A field that may be missing.  What is stored in it has been changed by `f` before. -/
theorem optional {w : β → Json} {f : α → β} {h : α → List ε} {a? : Option α}
    (hlookup : fields.lookup name = some (maybe w (a?.map f)))
    (hstored : ∀ a, c.Stored (w (f a)) read a (h a)) :
    c.StoredIn fields (optionField name read) a? (a?.toList.flatMap h) := by
  rcases a? with _ | a
  · refine ⟨fun _ => ?_, AllOf.nil⟩
    simp only [optionField, hlookup]
    rfl
  · rw [Option.toList_some, List.flatMap_singleton]
    refine ⟨fun hkeeps => ?_, fun e he => ?_⟩
    · have hmaybe : (w (f a)).maybe? read = some (some a) := by
        rw [maybe?, (hstored a).read_eq hkeeps, Option.map_some]
        exact (hstored a).ne_null
      simp only [optionField, hlookup, maybe, Option.map_some, hmaybe]
    · exact Nat.le_trans ((hstored a).height_le e he) (height_le_of_lookup hlookup)

/-- A field that may be missing and holds no expression. -/
theorem optionalPlain {w : α → Json} {a? : Option α}
    (hlookup : fields.lookup name = some (maybe w a?)) (hstored : ∀ a, c.Stored (w a) read a []) :
    c.StoredIn fields (optionField name read) a? [] := by
  have hnone : a?.toList.flatMap (fun _ => ([] : List ε)) = [] := by cases a? <;> rfl
  rw [← hnone]
  exact optional (f := id) (by rwa [Option.map_id]) hstored

theorem tag {tag : Tag} (hother : fields.lookup "dialect" = none) :
    c.StoredIn (fields ++ tag.jsonFields) tagField tag [] where
  read_eq _ := by
    have hdialect : (fields ++ tag.jsonFields).lookup "dialect" =
        tag.dialect.map fun d => .string d.storedName := by
      rw [List.lookup_append, hother, Option.none_or, Tag.jsonFields]
      cases tag.dialect <;> rfl
    rcases tag with ⟨_ | d⟩
    · simp only [tagField, optionField, hdialect]
      rfl
    · simp only [tagField, optionField, hdialect, Option.map_some, maybe?, constant?, constantName?,
        Option.bind_some, Dialect.ofStoredName?_storedName]
      rfl
  height_le := AllOf.nil

/-- The tag is the last field of every record. -/
theorem tagged {tag : Tag} {build : Tag → α} (hother : fields.lookup "dialect" = none) :
    c.StoredIn (fields ++ tag.jsonFields) (tagField >>= fun tag => Pure.pure (build tag))
      (build tag) [] :=
  .bind (.tag hother) .pure

end StoredIn

/-! ## Values -/

namespace Stored

theorem expr (e : ε) : c.Stored (c.write e) c.read e [e] where
  read_eq hkeeps := (AllOf.cons_iff.1 hkeeps).1
  ne_null := c.write_ne_null e
  height_le := AllOf.cons_iff.2 ⟨Nat.le_refl _, AllOf.nil⟩

/-- A value that holds no expression. -/
theorem plain (hread : read v = some a) (hv : v ≠ .null) : c.Stored v read a [] where
  read_eq _ := hread
  ne_null := hv
  height_le := AllOf.nil

theorem string (s : String) : c.Stored (.string s) string? s [] :=
  plain rfl nofun

theorem bool (b : Bool) : c.Stored (.bool b) bool? b [] :=
  plain rfl nofun

theorem constant {name : α → String} {ofName? : String → Option α}
    (hname : ∀ a, ofName? (name a) = some a) (a : α) :
    c.Stored (constant name a) (constant? ofName?) a [] :=
  plain (hname a) nofun

theorem height_le_of_mem_items {items : List Json} {item : Json} (hitem : item ∈ items) :
    item.height ≤ heightOfItems items := by
  induction items with
  | nil => cases hitem
  | cons first items ih =>
      rw [heightOfItems]
      rcases List.mem_cons.1 hitem with rfl | hitem
      · exact Nat.le_max_left _ _
      · exact Nat.le_trans (ih hitem) (Nat.le_max_right _ _)

/-- A list.  What is stored of its members has been changed by `f` before. -/
theorem list {w : β → Json} {f : α → β} {h : α → List ε}
    (hstored : ∀ a, c.Stored (w (f a)) read a (h a)) (as : List α) :
    c.Stored (list w (as.map f)) (list? read) as (as.flatMap h) where
  read_eq hkeeps := by
    rw [Json.list, list?, List.map_map]
    induction as with
    | nil => rfl
    | cons a as ih =>
        obtain ⟨ha, has⟩ := AllOf.append_iff.1 hkeeps
        rw [List.map_cons, List.mapM_cons, Function.comp, (hstored a).read_eq ha, ih has]
        rfl
  ne_null := nofun
  height_le e he := by
    obtain ⟨a, ha, hea⟩ := List.mem_flatMap.1 he
    have hitem := height_le_of_mem_items
      (List.mem_map_of_mem (f := w) (List.mem_map_of_mem (f := f) ha))
    rw [Json.list, height]
    exact Nat.le_succ_of_le (Nat.le_trans ((hstored a).height_le e hea) hitem)

/-- A list of values that hold no expression. -/
theorem listPlain {w : α → Json} (hstored : ∀ a, c.Stored (w a) read a []) (as : List α) :
    c.Stored (Json.list w as) (list? read) as [] := by
  have hnone : as.flatMap (fun _ => ([] : List ε)) = [] := by simp
  rw [← hnone]
  simpa using list (f := id) hstored as

/-- A list of expressions. -/
theorem exprs (es : List ε) : c.Stored (.array (es.map c.write)) (list? c.read) es es := by
  simpa [Json.list] using list (w := id) expr es

theorem record {tag : Tag} {read : FieldReader α}
    (hfields : c.StoredIn (fields ++ tag.jsonFields) read a held) (hheld : held = held') :
    c.Stored (record fields tag) (record? read) a held' where
  read_eq hkeeps := by
    rw [Json.record, record?, hfields.read_eq (hheld ▸ hkeeps)]
    rfl
  ne_null := nofun
  height_le e he := Nat.le_succ_of_le (hfields.height_le e (hheld ▸ he))

/-- A value that is read as a part of something else. -/
theorem map (hv : c.Stored v read a held) (f : α → β) :
    c.Stored v (fun v => (read v).map f) (f a) held where
  read_eq hkeeps := by rw [hv.read_eq hkeeps, Option.map_some]
  ne_null := hv.ne_null
  height_le := hv.height_le

end Stored

end Codec

end SqlTree

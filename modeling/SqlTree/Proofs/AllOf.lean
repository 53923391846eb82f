/-!
# What holds of all members of a list

What a node holds is listed by putting smaller lists together.  A property of all members is taken
apart along the same lines, down to the single members and to the members that may be missing.
-/

namespace SqlTree

/-- The property holds of all members of the list. -/
def AllOf {α : Type} (P : α → Prop) (as : List α) : Prop :=
  ∀ a ∈ as, P a

namespace AllOf

variable {α β : Type} {P : α → Prop} {a : α} {as bs : List α}

@[simp] theorem nil : AllOf P [] :=
  List.forall_mem_nil _

@[simp] theorem cons_iff : AllOf P (a :: as) ↔ P a ∧ AllOf P as :=
  List.forall_mem_cons

@[simp] theorem append_iff : AllOf P (as ++ bs) ↔ AllOf P as ∧ AllOf P bs :=
  List.forall_mem_append

@[simp] theorem flatMap_iff {xs : List β} {f : β → List α} :
    AllOf P (xs.flatMap f) ↔ ∀ x ∈ xs, AllOf P (f x) :=
  List.forall_mem_flatMap

@[simp] theorem map_iff {xs : List β} {f : β → α} :
    AllOf P (xs.map f) ↔ AllOf (fun x => P (f x)) xs :=
  List.forall_mem_map

@[simp] theorem flatten_iff {lists : List (List α)} :
    AllOf P lists.flatten ↔ AllOf (AllOf P) lists := by
  rw [← List.flatMap_id, flatMap_iff]
  rfl

@[simp] theorem toList_iff {a? : Option α} : AllOf P a?.toList ↔ ∀ a ∈ a?, P a := by
  cases a? <;> simp

end AllOf

end SqlTree

import TranslationKeys.Value
import TranslationKeys.Proofs.Number.Canonical
import Mathlib.Data.List.Basic

/-!
# Values that can be made

The type of values also has values that nothing makes: sets that hold an item twice, mappings with a
changeable key, doubles in a second form. What can be made is said here, by a check that can be run,
together with what it says of the parts of a value. Facts on values are proved from those on their
parts.
-/

namespace TranslationKeys.Value

/-- Whether no value of a list equals an earlier one. -/
def areDistinct : List Value → Bool
  | [] => true
  | v :: vs => vs.all (fun w => !same w v) && areDistinct vs

/-- Distinct values are pairwise different. -/
theorem areDistinct_iff {vs : List Value} :
    areDistinct vs = true ↔ vs.Pairwise fun v w => same w v = false := by
  induction vs with
  | nil => simp [areDistinct]
  | cons v vs ih => simp [areDistinct, ih, List.pairwise_cons]

mutual

/-- Whether a value can be made: doubles are canonical, and what sets and mappings are made of can
be a key and occurs only once. -/
def isWellFormed : Value → Bool
  | float x => x.isCanonical
  | list items => areWellFormed items
  | tuple items => areWellFormed items
  | map entries =>
    entriesWellFormed entries && areHashable (entries.map Prod.fst) &&
      areDistinct (entries.map Prod.fst)
  | set items => areWellFormed items && areHashable items && areDistinct items
  | frozenSet items => areWellFormed items && areHashable items && areDistinct items
  | _ => true

/-- Whether all values of a list can be made. -/
def areWellFormed : List Value → Bool
  | [] => true
  | v :: vs => isWellFormed v && areWellFormed vs

/-- Whether all keys and values of a mapping can be made. -/
def entriesWellFormed : List (Value × Value) → Bool
  | [] => true
  | (k, v) :: entries => isWellFormed k && isWellFormed v && entriesWellFormed entries

end

/-- All values of a list can be made if each can. -/
theorem areWellFormed_iff {vs : List Value} :
    areWellFormed vs = true ↔ ∀ v ∈ vs, isWellFormed v = true := by
  induction vs with
  | nil => simp [areWellFormed]
  | cons v vs ih => simp [areWellFormed, ih]

/-- The entries of a mapping can be made if each key and each value can. -/
theorem entriesWellFormed_iff {entries : List (Value × Value)} :
    entriesWellFormed entries = true ↔
      ∀ e ∈ entries, isWellFormed e.1 = true ∧ isWellFormed e.2 = true := by
  induction entries with
  | nil => simp [entriesWellFormed]
  | cons e entries ih => simp [entriesWellFormed, ih]

/-- All values of a list can be keys if each can. -/
theorem areHashable_iff {vs : List Value} :
    areHashable vs = true ↔ ∀ v ∈ vs, isHashable v = true := by
  induction vs with
  | nil => simp [areHashable]
  | cons v vs ih => simp [areHashable, ih]

/-- The items of a set, whether it can still change or not. -/
def setItems? : Value → Option (List Value)
  | set items => some items
  | frozenSet items => some items
  | _ => none

/-- A list can be made exactly if its items can. -/
theorem isWellFormed_list {items : List Value} :
    (list items).isWellFormed = true ↔ ∀ v ∈ items, v.isWellFormed = true := by
  rw [isWellFormed, areWellFormed_iff]

/-- A tuple can be made exactly if its items can. -/
theorem isWellFormed_tuple {items : List Value} :
    (tuple items).isWellFormed = true ↔ ∀ v ∈ items, v.isWellFormed = true := by
  rw [isWellFormed, areWellFormed_iff]

/-- A frozen set can be made exactly if its items can, can be keys, and are pairwise different. -/
theorem isWellFormed_frozenSet {items : List Value} :
    (frozenSet items).isWellFormed = true ↔
      (∀ v ∈ items, v.isWellFormed = true) ∧ (∀ v ∈ items, v.isHashable = true) ∧
        items.Pairwise fun v w => same w v = false := by
  rw [isWellFormed, Bool.and_eq_true, Bool.and_eq_true, areWellFormed_iff, areHashable_iff,
    areDistinct_iff, and_assoc]

/-- The items of a set that can be made can be made, can be keys, and are pairwise different. -/
theorem isWellFormed_items {v : Value} {items : List Value} (hv : v.isWellFormed = true)
    (hitems : v.setItems? = some items) :
    (∀ x ∈ items, x.isWellFormed = true) ∧ (∀ x ∈ items, x.isHashable = true) ∧
      items.Pairwise fun x y => same y x = false := by
  apply isWellFormed_frozenSet.1
  cases v <;> simp only [setItems?, reduceCtorEq, Option.some.injEq] at hitems <;> subst hitems
  · simpa only [isWellFormed] using hv
  · exact hv

/-- A mapping can be made exactly if its keys and values can, and its keys can be keys and are
pairwise different. -/
theorem isWellFormed_map {entries : List (Value × Value)} :
    (map entries).isWellFormed = true ↔
      (∀ e ∈ entries, e.1.isWellFormed = true ∧ e.2.isWellFormed = true) ∧
        (∀ e ∈ entries, e.1.isHashable = true) ∧
        entries.Pairwise fun e f => same f.1 e.1 = false := by
  rw [isWellFormed, Bool.and_eq_true, Bool.and_eq_true, entriesWellFormed_iff, areHashable_iff,
    areDistinct_iff, List.forall_mem_map, List.pairwise_map, and_assoc]

/-! ### Parts -/

/-- The parts of a value: the items of a sequence or a set, the keys and the values of a mapping. -/
def parts : Value → List Value
  | list items | tuple items | set items | frozenSet items => items
  | map entries => entries.flatMap fun e => [e.1, e.2]
  | _ => []

/-- The items of a set are its parts. -/
theorem parts_of_setItems? {v : Value} {items : List Value}
    (hitems : v.setItems? = some items) : v.parts = items := by
  cases v <;> simp only [setItems?, reduceCtorEq, Option.some.injEq] at hitems <;> exact hitems

/-- The key and the value of an entry are parts of the mapping. -/
theorem mem_parts_of_mem_entries {e : Value × Value} {entries : List (Value × Value)}
    (he : e ∈ entries) : e.1 ∈ (map entries).parts ∧ e.2 ∈ (map entries).parts :=
  ⟨List.mem_flatMap.2 ⟨e, he, by simp⟩, List.mem_flatMap.2 ⟨e, he, by simp⟩⟩

/-- The parts of a value are smaller than the value. -/
theorem sizeOf_lt_of_mem_parts {v x : Value} (hx : x ∈ v.parts) : sizeOf x < sizeOf v := by
  cases v with
  | list items | tuple items | set items | frozenSet items =>
    have hlt := List.sizeOf_lt_of_mem hx
    simp only [parts] at hlt
    simp
    omega
  | map entries =>
    obtain ⟨⟨k, u⟩, he, hxe⟩ := List.mem_flatMap.1 hx
    have hlt := List.sizeOf_lt_of_mem he
    simp only [Prod.mk.sizeOf_spec, map.sizeOf_spec] at hlt ⊢
    rcases List.mem_pair.1 hxe with rfl | rfl <;> omega
  | _ => exact absurd hx List.not_mem_nil

/-- What holds of a value whenever it holds of its parts holds of every value. -/
@[elab_as_elim]
theorem induction_parts {p : Value → Prop} (v : Value)
    (step : ∀ v, (∀ x ∈ v.parts, p x) → p v) : p v := by
  induction hsize : sizeOf v using Nat.strongRecOn generalizing v with
  | _ size ih =>
    subst hsize
    exact step v fun x hx => ih _ (sizeOf_lt_of_mem_parts hx) x rfl

/-- The parts of a value that can be made can be made. -/
theorem isWellFormed_of_mem_parts {v x : Value} (hv : v.isWellFormed = true) (hx : x ∈ v.parts) :
    x.isWellFormed = true := by
  cases v with
  | list items => exact isWellFormed_list.1 hv x hx
  | tuple items => exact isWellFormed_tuple.1 hv x hx
  | set items | frozenSet items => exact (isWellFormed_items hv rfl).1 x hx
  | map entries =>
    obtain ⟨e, he, hxe⟩ := List.mem_flatMap.1 hx
    rcases List.mem_pair.1 hxe with rfl | rfl
    · exact ((isWellFormed_map.1 hv).1 e he).1
    · exact ((isWellFormed_map.1 hv).1 e he).2
  | _ => exact absurd hx List.not_mem_nil

end TranslationKeys.Value

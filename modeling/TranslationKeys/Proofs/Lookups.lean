import Mathlib.Data.List.Basic

/-!
# Entries by name

Parsers, visitor keys and options are entries that are looked up by their names, and are put over
others of the same name. Whatever a collection of entries is used for, the last entry of a name that
was put over the others is the one that counts.
-/

namespace TranslationKeys

/-- Where every step either sets what is read or leaves it, the last one that sets it counts. -/
theorem read_foldl_eq_getLast? {σ α β : Type} {step : σ → α → σ} (read : σ → Option β)
    {sets : α → Option β} {xs : List α}
    (h : ∀ x ∈ xs, ∀ s, read (step s x) = (sets x).or (read s)) (s : σ) :
    read (xs.foldl step s) = (xs.filterMap sets).getLast?.or (read s) := by
  induction xs generalizing s with
  | nil => rfl
  | cons x xs ih =>
    obtain ⟨hx, hxs⟩ := List.forall_mem_cons.1 h
    rw [List.foldl_cons, ih hxs, hx]
    cases hset : sets x with
    | none => simp [hset]
    | some b =>
      cases hlast : (xs.filterMap sets).getLast? <;> simp [hset, List.getLast?_cons, hlast]

section Lookups

variable {α : Type}

/-- A name is looked up by comparing it with one entry after the other. -/
theorem lookup_cons_eq (entry : String × α) (entries : List (String × α)) (name : String) :
    (entry :: entries).lookup name =
      if name = entry.1 then some entry.2 else entries.lookup name := by
  rw [List.lookup_cons]
  by_cases h : name = entry.1
  · simp [h]
  · have hbeq : (name == entry.1) = false := by simpa using h
    simp [h, hbeq]

/-- A name is found among entries exactly if it is one of their names. -/
theorem isSome_lookup_iff {entries : List (String × α)} {name : String} :
    (entries.lookup name).isSome = true ↔ name ∈ entries.map Prod.fst := by
  induction entries with
  | nil => simp
  | cons entry entries ih =>
    rw [lookup_cons_eq, List.map_cons, List.mem_cons, ← ih]
    split
    · rename_i h
      simp [h]
    · rename_i h
      simp [h]

/-- Entries whose values are changed are looked up by the same names. -/
theorem lookup_map_snd {β : Type} (entries : List (String × α)) (f : α → β) (name : String) :
    (entries.map fun entry => (entry.1, f entry.2)).lookup name = (entries.lookup name).map f := by
  induction entries with
  | nil => rfl
  | cons entry entries ih =>
    rw [List.map_cons, lookup_cons_eq, lookup_cons_eq, ih]
    split <;> rfl

/-- Where an entry that is put is found under its name and all others as before, entries put one
after the other are found by the last of their name. -/
theorem lookup_foldl_of_lookup_put {put : List (String × α) → String × α → List (String × α)}
    (hput : ∀ entries entry name, (put entries entry).lookup name =
      if name = entry.1 then some entry.2 else entries.lookup name)
    (entries puts : List (String × α)) (name : String) :
    (puts.foldl put entries).lookup name =
      (puts.reverse.lookup name).or (entries.lookup name) := by
  induction puts generalizing entries with
  | nil => simp
  | cons entry puts ih =>
    rw [List.foldl_cons, ih, hput, List.reverse_cons, List.lookup_append, Option.or_assoc,
      lookup_cons_eq]
    split <;> simp

end Lookups

end TranslationKeys

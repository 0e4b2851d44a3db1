import TranslationKeys.Text.Split

/-!
# Pieces of a split list

The pieces of a list lose nothing but the separators: what stands before the first separator is the
first piece, and every other item is in one of the pieces.
-/

namespace TranslationKeys

variable {α : Type} [BEq α]

/-- There is always a piece. -/
theorem splitAtEach_ne_nil (separator : α) (xs : List α) : splitAtEach separator xs ≠ [] := by
  cases xs with
  | nil => simp [splitAtEach]
  | cons x xs =>
    rw [splitAtEach]
    split
    · simp
    · split <;> simp

variable [LawfulBEq α] {separator : α} {xs : List α}

/-- A separator ends an empty piece. -/
theorem splitAtEach_cons_self (separator : α) (xs : List α) :
    splitAtEach separator (separator :: xs) = [] :: splitAtEach separator xs := by
  obtain ⟨piece, pieces, h⟩ := List.exists_cons_of_ne_nil (splitAtEach_ne_nil separator xs)
  simp [splitAtEach, h]

/-- What is no separator goes on with the first piece. -/
theorem exists_splitAtEach_cons {x : α} (hx : x ≠ separator) (xs : List α) :
    ∃ piece pieces, splitAtEach separator xs = piece :: pieces ∧
      splitAtEach separator (x :: xs) = (x :: piece) :: pieces := by
  obtain ⟨piece, pieces, h⟩ := List.exists_cons_of_ne_nil (splitAtEach_ne_nil separator xs)
  have hne : (x == separator) = false := beq_eq_false_iff_ne.2 hx
  exact ⟨piece, pieces, h, by simp [splitAtEach, h, hne]⟩

/-- The first separator ends the first piece. -/
theorem splitAtEach_append (h : separator ∉ xs) (ys : List α) :
    splitAtEach separator (xs ++ separator :: ys) = xs :: splitAtEach separator ys := by
  induction xs with
  | nil => exact splitAtEach_cons_self separator ys
  | cons x xs ih =>
    obtain ⟨hx, hxs⟩ := not_or.1 (mt List.mem_cons.2 h)
    obtain ⟨piece, pieces, hrest, hcons⟩ :=
      exists_splitAtEach_cons (Ne.symm hx) (xs ++ separator :: ys)
    obtain ⟨rfl, rfl⟩ := List.cons.inj (hrest.symm.trans (ih hxs))
    exact hcons

/-- A list without separators is one piece. -/
theorem splitAtEach_of_notMem (h : separator ∉ xs) : splitAtEach separator xs = [xs] := by
  induction xs with
  | nil => rfl
  | cons x xs ih =>
    obtain ⟨hx, hxs⟩ := not_or.1 (mt List.mem_cons.2 h)
    obtain ⟨piece, pieces, hrest, hcons⟩ := exists_splitAtEach_cons (Ne.symm hx) xs
    obtain ⟨rfl, rfl⟩ := List.cons.inj (hrest.symm.trans (ih hxs))
    exact hcons

/-- What is no separator is in one of the pieces. -/
theorem exists_mem_splitAtEach {x : α} (hx : x ∈ xs) (hne : x ≠ separator) :
    ∃ piece ∈ splitAtEach separator xs, x ∈ piece := by
  induction xs with
  | nil => exact absurd hx List.not_mem_nil
  | cons y xs ih =>
    by_cases hy : y = separator
    · subst hy
      obtain ⟨piece, hpiece, hmem⟩ := ih (List.mem_of_ne_of_mem hne hx)
      rw [splitAtEach_cons_self]
      exact ⟨piece, List.mem_cons_of_mem _ hpiece, hmem⟩
    · obtain ⟨first, pieces, hfirst, hcons⟩ := exists_splitAtEach_cons hy xs
      rw [hcons]
      rcases List.mem_cons.1 hx with rfl | hx
      · exact ⟨x :: first, List.mem_cons_self, List.mem_cons_self⟩
      · obtain ⟨piece, hpiece, hmem⟩ := ih hx
        rcases List.mem_cons.1 (hfirst ▸ hpiece) with rfl | hpiece
        · exact ⟨y :: piece, List.mem_cons_self, List.mem_cons_of_mem _ hmem⟩
        · exact ⟨piece, List.mem_cons_of_mem _ hpiece, hmem⟩

end TranslationKeys

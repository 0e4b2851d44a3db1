import TranslationKeys.Text.CodePoint
import Mathlib.Data.List.Forall2

/-!
# The order of texts

Texts are totally ordered, and a string is determined by its code points. A list of names therefore
has only one ascending order.
-/

namespace TranslationKeys

/-- A character is determined by its code point. -/
theorem CodePoint.ofChar_injective : Function.Injective CodePoint.ofChar := by
  intro c d h
  have hval : c.toNat = d.toNat := by simpa [CodePoint.ofChar] using h
  exact Char.toNat_inj.1 hval

namespace Text

/-- A string is determined by its code points. -/
theorem ofString_injective : Function.Injective ofString := by
  intro s t h
  have hchars : s.toList = t.toList :=
    (List.map_injective_iff.2 CodePoint.ofChar_injective) h
  exact String.toList_inj.1 hchars

/-- Of two texts, one comes first. -/
theorem le_total (s t : Text) : (le s t || le t s) = true := by
  induction s generalizing t with
  | nil => simp [le]
  | cons a s ih =>
    cases t with
    | nil => simp [le]
    | cons b t =>
      by_cases hab : a = b
      · subst hab
        simpa [le] using ih t
      · have hne : a.val ≠ b.val := fun h => hab (Fin.ext h)
        have hba : b ≠ a := fun h => hab h.symm
        simp only [le, hab, hba, if_false, Bool.or_eq_true, decide_eq_true_eq]
        omega

/-- Two texts that each come before the other are the same. -/
theorem le_antisymm {s t : Text} (hst : le s t = true) (hts : le t s = true) : s = t := by
  induction s generalizing t with
  | nil =>
    cases t with
    | nil => rfl
    | cons b t => simp [le] at hts
  | cons a s ih =>
    cases t with
    | nil => simp [le] at hst
    | cons b t =>
      by_cases hab : a = b
      · subst hab
        simp only [le, if_true] at hst hts
        rw [ih hst hts]
      · have hba : b ≠ a := fun h => hab h.symm
        simp only [le, hab, hba, if_false, decide_eq_true_eq] at hst hts
        omega

/-- The order of texts is transitive. -/
theorem le_trans {s t u : Text} (hst : le s t = true) (htu : le t u = true) : le s u = true := by
  induction s generalizing t u with
  | nil => simp [le]
  | cons a s ih =>
    cases t with
    | nil => simp [le] at hst
    | cons b t =>
      cases u with
      | nil => simp [le] at htu
      | cons c u =>
        by_cases hab : a = b
        · subst hab
          by_cases hac : a = c
          · subst hac
            simp only [le, if_true] at hst htu ⊢
            exact ih hst htu
          · simp only [le, hac, if_false] at htu ⊢
            exact htu
        · simp only [le, hab, if_false, decide_eq_true_eq] at hst
          by_cases hbc : b = c
          · subst hbc
            simp [le, hab, hst]
          · simp only [le, hbc, if_false, decide_eq_true_eq] at htu
            have hac : a ≠ c := fun h => by
              subst h
              omega
            simp only [le, hac, if_false, decide_eq_true_eq]
            omega

/-- What two texts have in common at their start does not count for their order. -/
theorem le_append_left (start s t : Text) : le (start ++ s) (start ++ t) = le s t := by
  induction start with
  | nil => rfl
  | cons a start ih => simpa [le] using ih

/-- Sorting by names puts them in ascending order. -/
theorem pairwise_mergeSort {α : Type} (name : α → String) (items : List α) :
    (items.mergeSort fun a b => le (ofString (name a)) (ofString (name b))).Pairwise
      fun a b => le (ofString (name a)) (ofString (name b)) = true := by
  refine List.pairwise_mergeSort (fun a b c hab hbc => ?_) (fun a b => ?_) items
  · exact le_trans hab hbc
  · exact le_total _ _

/-- A string that comes before another one in ascending order. -/
def IsBefore (a b : String) : Prop :=
  le (ofString a) (ofString b) = true ∧ a ≠ b

/-- Sorting by distinct names puts each one before all that follow. -/
theorem pairwise_isBefore_mergeSort {α : Type} {name : α → String} {items : List α}
    (h : (items.map name).Nodup) :
    (items.mergeSort fun a b => le (ofString (name a)) (ofString (name b))).Pairwise
      fun a b => IsBefore (name a) (name b) := by
  have hdistinct := ((List.mergeSort_perm items fun a b =>
    le (ofString (name a)) (ofString (name b))).map name).nodup_iff.2 h
  exact (pairwise_mergeSort name items).and (List.pairwise_map.1 hdistinct)

end Text

end TranslationKeys

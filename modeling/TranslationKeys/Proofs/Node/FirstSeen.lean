import TranslationKeys.Node.Keys
import Mathlib.Data.List.Nodup

/-!
# Keys where they are first seen

Keeping each key where it is first seen loses no key and keeps none twice.
-/

namespace TranslationKeys

/-- Going on from the keys seen so far adds the new ones, each where it is first seen. -/
theorem foldl_firstSeen (keys seen : List Text) :
    keys.foldl (fun seen key => if seen.contains key then seen else seen ++ [key]) seen =
      seen ++ (keys.filter fun key => !seen.contains key).eraseDups := by
  induction keys generalizing seen with
  | nil => simp
  | cons key keys ih =>
    by_cases hseen : key ∈ seen
    · rw [List.foldl_cons, if_pos (by simpa using hseen), ih]
      simp [hseen]
    · have hrest : (keys.filter fun k => !seen.contains k).filter (fun k => !k == key) =
          keys.filter fun k => !(seen ++ [key]).contains k := by
        rw [List.filter_filter]
        apply List.filter_congr
        intro k _
        by_cases hk : k = key <;> simp [hk]
      rw [List.foldl_cons, if_neg (by simpa using hseen), ih,
        List.filter_cons_of_pos (by simpa using hseen), List.eraseDups_cons, hrest,
        List.append_assoc, List.singleton_append]

/-- Keeping keys where they are first seen is erasing the later duplicates. -/
theorem firstSeen_eq_eraseDups (keys : List Text) : firstSeen keys = keys.eraseDups := by
  unfold firstSeen
  rw [foldl_firstSeen]
  simp

/-- Going on from the keys seen so far keeps no key twice. -/
theorem nodup_foldl_firstSeen {keys seen : List Text} (hseen : seen.Nodup) :
    (keys.foldl (fun seen key => if seen.contains key then seen else seen ++ [key])
      seen).Nodup := by
  induction keys generalizing seen with
  | nil => exact hseen
  | cons key keys ih =>
    rw [List.foldl_cons]
    by_cases hkey : key ∈ seen
    · rw [if_pos (by simpa using hkey)]
      exact ih hseen
    · rw [if_neg (by simpa using hkey)]
      exact ih (List.concat_eq_append ▸ (List.nodup_concat seen key).2 ⟨hkey, hseen⟩)

/-- No key is kept twice. -/
theorem nodup_firstSeen (keys : List Text) : (firstSeen keys).Nodup :=
  nodup_foldl_firstSeen List.nodup_nil

/-- A key is kept exactly if it was there. -/
theorem mem_firstSeen {keys : List Text} {key : Text} : key ∈ firstSeen keys ↔ key ∈ keys := by
  rw [firstSeen_eq_eraseDups, List.mem_eraseDups]

end TranslationKeys

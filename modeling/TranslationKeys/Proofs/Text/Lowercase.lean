import TranslationKeys.Text.Lowercase

/-!
# Lower case in ASCII

Of the characters of ASCII only the capital letters have another lower-case form, and neighbours do
not matter.
-/

namespace TranslationKeys

/-- What holds of the first 128 characters holds of every character of ASCII. -/
theorem forall_of_ascii {P : Char → Prop} (h : ∀ n < 128, P (Char.ofNat n)) {c : Char}
    (hc : c.toNat < 128) : P c := by
  rw [← Char.ofNat_toNat c]
  exact h c.toNat hc

/-- The capital letters of ASCII. -/
def asciiCapitals : CaseRun := ⟨'A'.toNat, 'Z'.toNat, 1, 32⟩

/-- All other runs of capitals lie beyond ASCII. -/
theorem caseRuns_eq : ∃ others, caseRuns = asciiCapitals :: others ∧
    ∀ run ∈ others, 128 ≤ run.first :=
  ⟨caseRuns.tail, rfl, by decide +kernel⟩

/-- In ASCII only the capital letters have another lower-case form. -/
theorem simpleLower_of_ascii {c : Char} (h : c.toNat < 128) : simpleLower c = c.toLower := by
  obtain ⟨others, hruns, hothers⟩ := caseRuns_eq
  have hnone : others.find? (·.holds c.toNat) = none := by
    refine List.find?_eq_none.2 fun run hrun => ?_
    have := hothers run hrun
    simp only [CaseRun.holds, Bool.and_eq_true, decide_eq_true_eq]
    omega
  have hletter := forall_of_ascii (P := fun c => (if asciiCapitals.holds c.toNat then
    Char.ofNat (Int.toNat (c.toNat + 32)) else c) = c.toLower) (by decide) h
  rw [← hletter, simpleLower, hruns, List.find?_cons, hnone]
  cases asciiCapitals.holds c.toNat <;> rfl

/-- A text of ASCII is lower-cased letter by letter. -/
theorem lowercase_of_ascii {cs : List Char} (h : ∀ c ∈ cs, c.toNat < 128) :
    lowercase cs = cs.map Char.toLower := by
  have hafter (before : List Char) : lowerAfter before cs = cs.map Char.toLower := by
    induction cs generalizing before with
    | nil => rfl
    | cons c cs ih =>
      obtain ⟨hc, hcs⟩ := List.forall_mem_cons.1 h
      have hdotted : ¬ (c.toNat == 0x130) = true := by simp; omega
      have hsigma : ¬ (c.toNat == 0x3A3) = true := by simp; omega
      rw [lowerAfter, ih hcs, lowerBetween, if_neg hdotted, if_neg hsigma, simpleLower_of_ascii hc]
      rfl
  exact hafter []

end TranslationKeys

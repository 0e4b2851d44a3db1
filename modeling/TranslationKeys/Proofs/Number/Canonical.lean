import TranslationKeys.Number.Binary64
import Mathlib.Tactic.Ring

/-!
# Canonical doubles

A double is kept in one form: the mantissa is below 2^53, the exponent is not below the least one,
and the mantissa is at least 2^52 unless the exponent is the least one. In this form the parts are
determined by the magnitude, so that two doubles that equal the same integer are the same number.
-/

namespace TranslationKeys

namespace Binary64

/-- The one form in which a double is kept. -/
def isCanonical : Binary64 → Bool
  | .finite _ mantissa exponent =>
    mantissa < 2 ^ 53 && minExponent ≤ exponent && (2 ^ 52 ≤ mantissa || exponent == minExponent)
  | _ => true

/-- The number of units of the least exponent that a double of the given parts has. -/
def units (mantissa : Nat) (exponent : Int) : Nat :=
  mantissa * 2 ^ (exponent - minExponent).toNat

/-- Two canonical doubles of the same magnitude have the same parts. -/
theorem eq_of_units_eq {s t : Bool} {m n : Nat} {d e : Int}
    (hm : (finite s m d).isCanonical = true) (hn : (finite t n e).isCanonical = true)
    (h : units m d = units n e) : m = n ∧ d = e := by
  simp only [isCanonical, Bool.and_eq_true, decide_eq_true_eq, Bool.or_eq_true, beq_iff_eq] at hm hn
  -- Of two different exponents the greater one belongs to a mantissa that is too large for it.
  have hlt {m n : Nat} {d e : Int} (hm : m < 2 ^ 53) (hd : minExponent ≤ d)
      (hn : 2 ^ 52 ≤ n ∨ e = minExponent) (hde : d < e) (h : units m d = units n e) : False := by
    have hlarge : 2 ^ 52 ≤ n := hn.resolve_right (by omega)
    have hsplit : (e - minExponent).toNat = (d - minExponent).toNat + (e - d).toNat := by omega
    have hpow : 2 ≤ 2 ^ (e - d).toNat := Nat.le_self_pow (by omega) 2
    unfold units at h
    rw [hsplit, pow_add, mul_comm (2 ^ (d - minExponent).toNat), ← mul_assoc] at h
    have hcancel := Nat.eq_of_mul_eq_mul_right (Nat.two_pow_pos _) h
    have := Nat.mul_le_mul hlarge hpow
    omega
  rcases lt_trichotomy d e with hde | hde | hde
  · exact absurd h fun h => hlt hm.1.1 hm.1.2 hn.2 hde h
  · subst hde
    exact ⟨Nat.eq_of_mul_eq_mul_right (Nat.two_pow_pos _) h, rfl⟩
  · exact absurd h fun h => hlt hn.1.1 hn.1.2 hm.2 hde h.symm

/-- A double that equals an integer has as many units as the integer. -/
theorem units_eq_of_toInt? {s : Bool} {m : Nat} {d i : Int} (hd : minExponent ≤ d)
    (h : (finite s m d).toInt? = some i) :
    units m d = i.natAbs * 2 ^ (-minExponent).toNat ∧ (i < 0 → s = true) ∧ (0 < i → s = false) := by
  simp only [toInt?] at h
  split at h
  · rename_i hdvd
    have hq := Nat.div_mul_cancel (Nat.dvd_of_mod_eq_zero (by simpa using hdvd))
    generalize m * 2 ^ d.toNat / 2 ^ (-d).toNat = q at h hq
    have hi : (if s then -(q : Int) else (q : Int)) = i := Option.some.inj h
    have hunits : units m d = q * 2 ^ (-minExponent).toNat := by
      unfold units
      rcases le_total 0 d with hd0 | hd0
      · have hzero : (-d).toNat = 0 := by omega
        have hsum : (d - minExponent).toNat = d.toNat + (-minExponent).toNat := by
          have : minExponent = -1074 := rfl
          omega
        rw [hzero, pow_zero, mul_one] at hq
        rw [hsum, pow_add, ← mul_assoc, hq]
      · have hzero : d.toNat = 0 := by omega
        have hsum : (-minExponent).toNat = (-d).toNat + (d - minExponent).toNat := by omega
        rw [hzero, pow_zero, mul_one] at hq
        rw [hsum, pow_add, ← mul_assoc, hq]
    cases s with
    | false =>
      rw [if_neg (by simp)] at hi
      exact ⟨by rw [hunits, ← hi, Int.natAbs_natCast], fun hneg => by omega, fun _ => rfl⟩
    | true =>
      rw [if_pos rfl] at hi
      exact ⟨by rw [hunits, ← hi, Int.natAbs_neg, Int.natAbs_natCast], fun _ => rfl,
        fun hpos => by omega⟩
  · exact nomatch h

/-- Canonical doubles that equal the same integer are the same number. -/
theorem sameNumber_of_toInt?_eq {x y : Binary64} {i : Int} (hx : x.isCanonical = true)
    (hy : y.isCanonical = true) (hxi : x.toInt? = some i) (hyi : y.toInt? = some i) :
    x.sameNumber y = true := by
  cases x with
  | nan | infinite => exact nomatch hxi
  | finite s m d =>
    cases y with
    | nan | infinite => exact nomatch hyi
    | finite t n e =>
      have hd : minExponent ≤ d := by
        simp only [isCanonical, Bool.and_eq_true, decide_eq_true_eq] at hx
        exact hx.1.2
      have he : minExponent ≤ e := by
        simp only [isCanonical, Bool.and_eq_true, decide_eq_true_eq] at hy
        exact hy.1.2
      obtain ⟨hxu, hxneg, hxpos⟩ := units_eq_of_toInt? hd hxi
      obtain ⟨hyu, hyneg, hypos⟩ := units_eq_of_toInt? he hyi
      obtain ⟨rfl, rfl⟩ := eq_of_units_eq hx hy (hxu.trans hyu.symm)
      rcases lt_trichotomy i 0 with hi | hi | hi
      · simp [sameNumber, hxneg hi, hyneg hi]
      · have hzero : m = 0 := by
          have hprod : m * 2 ^ (d - minExponent).toNat = 0 := by
            simpa [units, hi] using hxu
          exact (Nat.mul_eq_zero.1 hprod).resolve_right (Nat.two_pow_pos _).ne'
        simp [sameNumber, hzero, isZero]
      · simp [sameNumber, hxpos hi, hypos hi]

end Binary64

end TranslationKeys

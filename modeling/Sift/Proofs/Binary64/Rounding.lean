import Mathlib.Algebra.Group.Nat.Defs
import Sift.Binary64.Rounding

namespace Sift

/-- A fraction is rounded down if at most half of its denominator is left, and up if at least half is. -/
theorem roundHalfEven_cases (num den : Nat) :
    (roundHalfEven num den = num / den ∧ 2 * (num % den) ≤ den) ∨
      (roundHalfEven num den = num / den + 1 ∧ den ≤ 2 * (num % den)) := by
  simp only [roundHalfEven]
  split
  · exact .inl ⟨rfl, by omega⟩
  · split
    · exact .inr ⟨rfl, by omega⟩
    · rcases Nat.mod_two_eq_zero_or_one (num / den) with even | odd
      · exact .inl ⟨by omega, by omega⟩
      · exact .inr ⟨by omega, by omega⟩

theorem roundHalfEven_one (num : Nat) : roundHalfEven num 1 = num := by
  simp [roundHalfEven, Nat.mod_one]

/-- Without the bits after the first 53 of them, a number has 53 bits. -/
theorem leading_bits {num : Nat} (large : 2 ^ 53 ≤ num) :
    2 ^ 52 ≤ num / 2 ^ (num.log2 - 52) ∧ num / 2 ^ (num.log2 - 52) < 2 ^ 53 := by
  have nonzero : num ≠ 0 := by omega
  have many : 53 ≤ num.log2 := (Nat.le_log2 nonzero).mpr large
  have lower : 2 ^ num.log2 ≤ num := Nat.log2_self_le nonzero
  have upper : num < 2 ^ (num.log2 + 1) := Nat.lt_log2_self
  generalize shift : num.log2 - 52 = s
  have below : 2 ^ num.log2 = 2 ^ 52 * 2 ^ s := by
    rw [← Nat.pow_add]
    congr 1
    omega
  have above : 2 ^ (num.log2 + 1) = 2 ^ 53 * 2 ^ s := by
    rw [← Nat.pow_add]
    congr 1
    omega
  refine ⟨(Nat.le_div_iff_mul_le (Nat.two_pow_pos s)).mpr ?_,
    (Nat.div_lt_iff_lt_mul (Nat.two_pow_pos s)).mpr ?_⟩
  · rwa [below] at lower
  · rwa [above] at upper

theorem log2_sub_eq_zero {num : Nat} (short : num < 2 ^ 53) : num.log2 - 52 = 0 := by
  by_cases zero : num = 0
  · rw [zero]
    decide
  · have bits := (Nat.log2_lt zero).mpr short
    omega

/-- A natural number with its bits after the first 53 rounded away. -/
def roundedNat (n : Nat) : Nat :=
  roundHalfEven n (2 ^ (n.log2 - 52)) * 2 ^ (n.log2 - 52)

namespace Binary64

theorem ofParts_finite (negative : Bool) {mantissa shift : Nat}
    (canonical : mantissa < 9007199254740992 ∧ shift ≤ 2045 ∧ (shift = 0 ∨ 4503599627370496 ≤ mantissa)) :
    ∃ x, ofParts negative mantissa shift = finite x ∧ x.negative = negative ∧ x.units = mantissa * 2 ^ shift :=
  ⟨⟨negative, mantissa, shift, canonical⟩, dif_pos canonical, rfl, Nat.shiftLeft_eq ..⟩

/-- A whole number of units comes to its first 53 bits, rounded. -/
theorem ofUnits_rounded (negative : Bool) {num : Nat} (small : num.log2 ≤ 2096) :
    ∃ x, ofUnits negative num 1 = finite x ∧ x.negative = negative ∧ x.units = roundedNat num := by
  simp only [ofUnits, Nat.div_one, Nat.one_shiftLeft]
  by_cases short : num < 9007199254740992
  · have notNext : num ≠ 9007199254740992 := Nat.ne_of_lt short
    rw [roundedNat, log2_sub_eq_zero short]
    simp only [if_pos short, Nat.pow_zero, roundHalfEven_one, if_neg notNext]
    exact ofParts_finite negative ⟨short, Nat.zero_le _, .inl rfl⟩
  · obtain ⟨lower, upper⟩ := leading_bits (Nat.le_of_not_lt short)
    have rounded := roundHalfEven_cases num (2 ^ (num.log2 - 52))
    simp only [if_neg short]
    rw [roundedNat]
    split
    · -- rounding up to the next power of two makes the mantissa one bit longer, which the shift takes up
      rename_i next
      have canonical : 4503599627370496 < 9007199254740992 ∧ num.log2 - 52 + 1 ≤ 2045 ∧
          (num.log2 - 52 + 1 = 0 ∨ 4503599627370496 ≤ 4503599627370496) :=
        ⟨by decide, by omega, .inr (Nat.le_refl _)⟩
      obtain ⟨x, isX, sign, units⟩ := ofParts_finite negative canonical
      refine ⟨x, isX, sign, ?_⟩
      rw [units, next, Nat.pow_succ]
      omega
    · exact ofParts_finite negative ⟨by omega, by omega, .inr (by omega)⟩

theorem log2_mul_two_pow_le {n bits : Nat} (fits : n < 2 ^ bits) (unit : Nat) :
    (n * 2 ^ unit).log2 ≤ bits + unit := by
  by_cases zero : n = 0
  · simp [zero]
  · have product : n * 2 ^ unit ≠ 0 := Nat.mul_ne_zero zero (Nat.ne_of_gt (Nat.two_pow_pos unit))
    have bound : n * 2 ^ unit < 2 ^ (bits + unit) := by
      rw [Nat.pow_add]
      exact Nat.mul_lt_mul_of_pos_right fits (Nat.two_pow_pos unit)
    exact Nat.le_of_lt ((Nat.log2_lt product).mpr bound)

/-- An integer of 64 bits comes to finitely many units, with its own sign. -/
theorem ofInt_units {n : Int} (fits : n.natAbs < 2 ^ 64) :
    ∃ x, ofInt n = finite x ∧ x.negative = decide (n < 0) ∧ x.units = roundedNat (n.natAbs * unitsInOne) := by
  -- The exponent has a name so that the power is never computed.
  obtain ⟨unit, exponent⟩ : ∃ unit, unit = 1074 := ⟨1074, rfl⟩
  have small := log2_mul_two_pow_le fits unit
  rw [ofInt, unitsInOne, ← exponent, Nat.one_shiftLeft]
  exact ofUnits_rounded _ (by omega)

/-- No integer of 64 bits is so large that it is rounded to infinity. -/
theorem ofInt_finite {n : Int} (fits : n.natAbs < 2 ^ 64) : ∃ x, ofInt n = finite x := by
  obtain ⟨x, rounded, -⟩ := ofInt_units fits
  exact ⟨x, rounded⟩

end Binary64

end Sift

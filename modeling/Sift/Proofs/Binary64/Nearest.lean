import Sift.Proofs.Binary64.Rounding

namespace Sift

/-- No multiple of the denominator is nearer. -/
theorem roundHalfEven_nearest {den : Nat} (positive : 0 < den) (num q : Nat) :
    ((num : Int) - (roundHalfEven num den * den : Nat)).natAbs ≤ ((num : Int) - (q * den : Nat)).natAbs := by
  have split := Nat.div_add_mod' num den
  have small := Nat.mod_lt num positive
  have next : (num / den + 1) * den = num / den * den + den := Nat.succ_mul ..
  have rounded := roundHalfEven_cases num den
  have distance : ((num : Int) - (roundHalfEven num den * den : Nat)).natAbs ≤ num % den ∧
      ((num : Int) - (roundHalfEven num den * den : Nat)).natAbs ≤ den - num % den := by
    rcases rounded with ⟨down, half⟩ | ⟨up, half⟩
    · rw [down]
      omega
    · rw [up]
      omega
  rcases Nat.lt_or_ge (num / den) q with above | below
  · have product := Nat.mul_le_mul_right den (Nat.succ_le_of_lt above)
    rw [Nat.succ_mul] at product
    omega
  · have product := Nat.mul_le_mul_right den below
    omega

/-- Numbers of 53 bits at most with any number of zeros after them: those that binary64 has, so far as they
are whole. -/
def IsShort (n : Nat) : Prop :=
  ∃ m k, m ≤ 2 ^ 53 ∧ n = m * 2 ^ k

theorem isShort_of_le {n : Nat} (small : n ≤ 2 ^ 53) : IsShort n :=
  ⟨n, 0, small, (Nat.mul_one n).symm⟩

theorem IsShort.shifted {n : Nat} (short : IsShort n) (k : Nat) : IsShort (n * 2 ^ k) := by
  obtain ⟨m, j, bound, rfl⟩ := short
  exact ⟨m, j + k, bound, by rw [Nat.pow_add, Nat.mul_assoc]⟩

/-- What a number is rounded to is one that the format has. -/
theorem isShort_roundedNat (n : Nat) : IsShort (roundedNat n) := by
  refine ⟨_, _, ?_, rfl⟩
  by_cases short : n < 2 ^ 53
  · rw [log2_sub_eq_zero short, Nat.pow_zero, roundHalfEven_one]
    exact Nat.le_of_lt short
  · obtain ⟨-, upper⟩ := leading_bits (Nat.le_of_not_lt short)
    have rounded := roundHalfEven_cases n (2 ^ (n.log2 - 52))
    omega

/-- No number that binary64 has is nearer. -/
theorem roundedNat_nearest (n : Nat) {m : Nat} (short : IsShort m) :
    ((n : Int) - roundedNat n).natAbs ≤ ((n : Int) - m).natAbs := by
  obtain ⟨digits, k, bound, rfl⟩ := short
  have nearest := roundHalfEven_nearest (Nat.two_pow_pos (n.log2 - 52)) n
  rw [roundedNat]
  by_cases coarse : n.log2 - 52 ≤ k
  · have multiple : digits * 2 ^ k = digits * 2 ^ (k - (n.log2 - 52)) * 2 ^ (n.log2 - 52) := by
      rw [Nat.mul_assoc, ← Nat.pow_add, Nat.sub_add_cancel coarse]
    rw [multiple]
    exact nearest _
  · -- a number with smaller units stays below the power of two that the rounded one begins at
    have power : 2 ^ 52 * 2 ^ (n.log2 - 52) = 2 ^ n.log2 := by
      rw [← Nat.pow_add]
      congr 1
      omega
    have begins : 2 ^ n.log2 ≤ n := Nat.log2_self_le (by rintro rfl; simp at coarse)
    have below : digits * 2 ^ k ≤ 2 ^ n.log2 := by
      refine Nat.le_trans (Nat.mul_le_mul_right _ bound) ?_
      rw [← Nat.pow_add]
      exact Nat.pow_le_pow_right (by decide) (by omega)
    have first := nearest (2 ^ 52)
    rw [power] at first
    omega

/-- Numbers that the format has stay as they are. -/
theorem roundedNat_of_isShort {n : Nat} (short : IsShort n) : roundedNat n = n := by
  have nearest := roundedNat_nearest n short
  omega

/-- What is nearest to a larger number is no smaller. -/
theorem roundedNat_mono {n m : Nat} (le : n ≤ m) : roundedNat n ≤ roundedNat m := by
  rcases Nat.eq_or_lt_of_le le with rfl | less
  · exact Nat.le_refl _
  · have first := roundedNat_nearest n (isShort_roundedNat m)
    have second := roundedNat_nearest m (isShort_roundedNat n)
    omega

/-- A common factor does not change to which number a fraction is rounded. -/
theorem roundHalfEven_mul_right {c : Nat} (positive : 0 < c) (num den : Nat) :
    roundHalfEven (num * c) (den * c) = roundHalfEven num den := by
  have less : ∀ a b, a * c < b * c ↔ a < b := fun a b => Nat.mul_lt_mul_right positive
  simp only [roundHalfEven, Nat.mul_div_mul_right _ _ positive, Nat.mul_mod_mul_right, ← Nat.mul_assoc, less]

theorem roundedNat_mul_two_pow (n k : Nat) : roundedNat (n * 2 ^ k) = roundedNat n * 2 ^ k := by
  by_cases short : n < 2 ^ 53
  · have isShort := isShort_of_le (Nat.le_of_lt short)
    rw [roundedNat_of_isShort isShort, roundedNat_of_isShort (isShort.shifted k)]
  · have large := Nat.le_of_not_lt short
    have nonzero : n ≠ 0 := by omega
    have many : 53 ≤ n.log2 := (Nat.le_log2 nonzero).mpr large
    have bits : (n * 2 ^ k).log2 = n.log2 + k := by
      have lower := Nat.log2_self_le nonzero
      have upper : n < 2 ^ (n.log2 + 1) := Nat.lt_log2_self
      refine (Nat.log2_eq_iff (Nat.mul_ne_zero nonzero (Nat.ne_of_gt (Nat.two_pow_pos k)))).mpr ⟨?_, ?_⟩
      · rw [Nat.pow_add]
        exact Nat.mul_le_mul_right _ lower
      · rw [Nat.add_right_comm, Nat.pow_add]
        exact Nat.mul_lt_mul_of_pos_right upper (Nat.two_pow_pos k)
    have unit : 2 ^ (n.log2 + k - 52) = 2 ^ (n.log2 - 52) * 2 ^ k := by
      rw [← Nat.pow_add]
      congr 1
      omega
    rw [roundedNat, roundedNat, bits, unit, roundHalfEven_mul_right (Nat.two_pow_pos k), Nat.mul_assoc]

end Sift

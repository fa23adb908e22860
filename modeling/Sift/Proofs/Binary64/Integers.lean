import Mathlib.Data.Int.Order.Basic
import Mathlib.Data.List.TakeWhile
import Mathlib.Order.Compare
import Sift.Binary64.Reader
import Sift.Proofs.Binary64.Nearest
import Sift.Proofs.Json.Text
import Sift.Proofs.Token.Scan

namespace Sift

/-- An integer with the bits of its magnitude after the first 53 rounded away. -/
def roundedInt (n : Int) : Int :=
  if n < 0 then -(roundedNat n.natAbs : Int) else roundedNat n.natAbs

theorem roundedInt_of_le {n : Int} (small : n.natAbs ≤ 2 ^ 53) : roundedInt n = n := by
  rw [roundedInt, roundedNat_of_isShort (isShort_of_le small)]
  omega

/-- Rounding keeps the order of integers, weakly. -/
theorem roundedInt_mono {a b : Int} (le : a ≤ b) : roundedInt a ≤ roundedInt b := by
  unfold roundedInt
  split
  · split
    · have magnitudes := roundedNat_mono (by omega : b.natAbs ≤ a.natAbs)
      omega
    · omega
  · have positive : ¬b < 0 := by omega
    have magnitudes := roundedNat_mono (by omega : a.natAbs ≤ b.natAbs)
    rw [if_neg positive]
    omega

/-- Integers that rounding does not make one are in the order of what they are rounded to. -/
theorem roundedInt_lt_iff {a b : Int} (apart : roundedInt a ≠ roundedInt b) :
    roundedInt a < roundedInt b ↔ a < b := by
  refine ⟨fun less => ?_, fun less => lt_of_le_of_ne (roundedInt_mono less.le) apart⟩
  by_contra above
  exact absurd (roundedInt_mono (not_lt.mp above)) (not_le.mpr less)

/-- Rounding makes no other integer the same as one of less than 53 bits. -/
theorem eq_of_roundedInt_eq {a b : Int} (small : b.natAbs < 2 ^ 53) (same : roundedInt a = roundedInt b) :
    a = b := by
  have limit : roundedInt (2 ^ 53) = 2 ^ 53 := roundedInt_of_le (by decide)
  have limit' : roundedInt (-2 ^ 53) = -2 ^ 53 := roundedInt_of_le (by decide)
  rw [roundedInt_of_le (Nat.le_of_lt small)] at same
  by_cases within : a.natAbs ≤ 2 ^ 53
  · rwa [roundedInt_of_le within] at same
  · rcases Int.lt_or_le a 0 with negative | positive
    · have below := roundedInt_mono (by omega : a ≤ -2 ^ 53)
      omega
    · have above := roundedInt_mono (by omega : (2 : Int) ^ 53 ≤ a)
      omega

namespace Binary64

/-- An integer of 64 bits becomes the number that it is rounded to. -/
theorem ofInt_rounded {n : Int} (fits : n.natAbs < 2 ^ 64) :
    ∃ x, ofInt n = finite x ∧ x.signed = roundedInt n * unitsInOne := by
  obtain ⟨x, isX, sign, units⟩ := ofInt_units fits
  have scaled : roundedNat (n.natAbs * unitsInOne) = roundedNat n.natAbs * unitsInOne := by
    obtain ⟨unit, exponent⟩ : ∃ unit, unit = 1074 := ⟨1074, rfl⟩
    rw [unitsInOne, ← exponent, Nat.one_shiftLeft, roundedNat_mul_two_pow]
  refine ⟨x, isX, ?_⟩
  rw [Finite64.signed, sign, units, scaled, roundedInt]
  simp only [decide_eq_true_eq, Int.natCast_mul]
  split
  · rw [Int.neg_mul]
  · rfl

/-- Integers of 64 bits compare as what is left of them in 53 bits. -/
theorem compare?_ofInt_rounded {a b : Int} (fits : a.natAbs < 2 ^ 64) (fits' : b.natAbs < 2 ^ 64) :
    compare? (ofInt a) (ofInt b) = some (compare (roundedInt a) (roundedInt b)) := by
  obtain ⟨x, isX, value⟩ := ofInt_rounded fits
  obtain ⟨y, isY, value'⟩ := ofInt_rounded fits'
  have positive : (0 : Int) < unitsInOne := by decide +kernel
  rw [isX, isY, compare?, value, value']
  congr 1
  rcases lt_trichotomy (roundedInt a) (roundedInt b) with less | same | greater
  · rw [compare_lt_iff_lt.mpr less, compare_lt_iff_lt]
    exact Int.mul_lt_mul_of_pos_right less positive
  · rw [same, compare_eq_iff_eq.mpr rfl, compare_eq_iff_eq.mpr rfl]
  · rw [compare_gt_iff_gt.mpr greater, compare_gt_iff_gt]
    exact Int.mul_lt_mul_of_pos_right greater positive

/-- Integers of 53 bits compare as they do without a limit. -/
theorem compare?_ofInt {a b : Int} (fits : a.natAbs < 2 ^ 53) (fits' : b.natAbs < 2 ^ 53) :
    compare? (ofInt a) (ofInt b) = some (compare a b) := by
  rw [compare?_ofInt_rounded (by omega) (by omega), roundedInt_of_le (Nat.le_of_lt fits),
    roundedInt_of_le (Nat.le_of_lt fits')]

end Binary64

theorem isDigit_toLower {c : Char} (digit : c.isDigit = true) : c.toLower.isDigit = true := by
  have each : ∀ r ∈ [(48, 57)], ∀ k < r.2 + 1 - r.1, (Char.ofNat (r.1 + k)).toLower.isDigit = true := by
    decide
  obtain ⟨lower, upper⟩ := Char.isDigit_iff_toNat.mp digit
  exact forall_char_of_ranges (p := fun c => c.toLower.isDigit) each
    ⟨(48, 57), List.mem_cons_self .., lower, upper⟩

theorem takeSign_of_digit {d : Char} (digit : d.isDigit = true) (ds : List Char) :
    takeSign (d :: ds) = (false, d :: ds) := by
  unfold takeSign
  split
  · rename_i dash
    rw [(List.cons.inj dash).1] at digit
    cases digit
  · rename_i plus
    rw [(List.cons.inj plus).1] at digit
    cases digit
  · rfl

namespace Binary64

/-- No word for a number begins with a digit. -/
theorem read?_of_digit {cs ds : List Char} {negative : Bool} {d : Char}
    (signed : takeSign cs = (negative, d :: ds)) (digit : d.isDigit = true) :
    read? cs = readUnsigned? negative (d :: ds) := by
  have noWord : ∀ first others, first.isDigit = false →
      String.ofList ((d :: ds).map Char.toLower) ≠ String.ofList (first :: others) := by
    intro first others letter same
    have heads := List.head_eq_of_cons_eq (String.ofList_injective same)
    have lowered := isDigit_toLower digit
    rw [heads, letter] at lowered
    cases lowered
  have infinity : ¬(String.ofList ((d :: ds).map Char.toLower) = "inf" ∨
      String.ofList ((d :: ds).map Char.toLower) = "infinity") :=
    not_or.mpr ⟨noWord 'i' ['n', 'f'] rfl, noWord 'i' ['n', 'f', 'i', 'n', 'i', 't', 'y'] rfl⟩
  have nan := noWord 'n' ['a', 'n'] rfl
  unfold read?
  rw [signed]
  simp only [if_neg infinity]
  rw [if_neg nan]

theorem ofDecimal_natural (negative : Bool) {n : Nat} (short : (digits n).length ≤ 310) :
    ofDecimal negative n 0 = ofUnits negative (n * unitsInOne) 1 := by
  by_cases zero : n = 0
  · subst zero
    rw [Nat.zero_mul]
    rfl
  · have finite : ¬310 < ((digits n).length : Int) + 0 := by omega
    have positive : ¬((digits n).length : Int) + 0 < -330 := by omega
    simp only [ofDecimal, if_neg zero, if_neg finite, if_neg positive]
    rw [show tenTo 0 = 1 from rfl, Nat.mul_one]

/-- Digits alone spell the number that they are in decimal, rounded once. -/
theorem readUnsigned?_digits (negative : Bool) {n : Nat} (short : (digits n).length ≤ 310) :
    readUnsigned? negative (digits n) = some (ofUnits negative (n * unitsInOne) 1) := by
  have allDigits : ∀ c ∈ digits n, c.isDigit = true := fun _ => isDigit_of_mem_digits
  have whole : (digits n).takeWhile Char.isDigit = digits n := List.takeWhile_eq_self_iff.mpr allDigits
  have nothing : (digits n).dropWhile Char.isDigit = [] := List.dropWhile_eq_nil_iff.mpr allDigits
  have filled : (digits n).isEmpty = false := List.isEmpty_eq_false_iff.mpr Nat.toDigits_ne_nil
  simp [readUnsigned?, whole, nothing, filled, takeFraction, exponent?, numberOf_digits, ofDecimal_natural, short]

/-- The decimal text of an integer spells the number that the integer is rounded to. -/
theorem read?_integerText {n : Int} (short : (digits n.natAbs).length ≤ 310) :
    read? (integerText n) = some (ofInt n) := by
  obtain ⟨d, ds, split, digit, -⟩ := exists_digits_eq_cons n.natAbs
  have unsigned : ∀ {negative : Bool}, takeSign (integerText n) = (negative, digits n.natAbs) →
      read? (integerText n) = some (ofUnits negative (n.natAbs * unitsInOne) 1) := by
    intro negative signed
    have read := readUnsigned?_digits negative short
    rw [split] at signed read
    rw [read?_of_digit signed digit, read]
  cases n with
  | ofNat n =>
    have signed : takeSign (integerText (.ofNat n)) = (false, digits n) := by
      rw [integerText, show digits n = d :: ds from split]
      exact takeSign_of_digit digit ds
    exact unsigned signed
  | negSucc n =>
    have signed : takeSign (integerText (.negSucc n)) = (true, digits (n + 1)) := rfl
    rw [ofInt, decide_eq_true (Int.negSucc_lt_zero n)]
    exact unsigned signed

end Binary64

end Sift

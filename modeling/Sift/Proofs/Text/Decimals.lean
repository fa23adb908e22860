import Mathlib.Data.Int.Order.Basic
import Mathlib.Order.Compare
import Sift.Proofs.Calendar.Chronology
import Sift.Proofs.Json.Text

namespace Sift

/-- Digits further to the left count for more. -/
theorem numberOf_append (cs ds : List Char) :
    numberOf (cs ++ ds) = 10 ^ ds.length * numberOf cs + numberOf ds := by
  unfold numberOf
  rw [Nat.ofDigitChars_append, Nat.ofDigitChars_eq_ofDigitChars_zero]

/-- A greater number has as many digits or more. -/
theorem length_digits_le {m n : Nat} (le : m ≤ n) : (digits m).length ≤ (digits n).length := by
  have positive : 0 < (digits n).length := List.length_pos_iff.mpr Nat.toDigits_ne_nil
  have bound := numberOf_lt fun c (member : c ∈ digits n) => isDigit_of_mem_digits member
  rw [numberOf_digits] at bound
  exact (Nat.length_toDigits_le_iff (by decide) positive).mpr (Nat.lt_of_le_of_lt le bound)

/-- Whether a number, with zeros put after it until it has as many digits as another one, is at most that one. -/
def StaysBelow (m n : Nat) : Prop :=
  m * 10 ^ ((digits n).length - (digits m).length) ≤ n

instance (m n : Nat) : Decidable (StaysBelow m n) :=
  inferInstanceAs (Decidable (_ ≤ _))

theorem not_staysBelow_of_lt {m n : Nat} (less : m < n) : ¬StaysBelow n m := by
  have shorter := length_digits_le less.le
  rw [StaysBelow, Nat.sub_eq_zero_of_le shorter, Nat.pow_zero, Nat.mul_one, Nat.not_le]
  exact less

/-- The lesser number has the lesser text if it stays below with zeros put after it. -/
theorem digits_lt_iff {m n : Nat} (less : m < n) : digits m < digits n ↔ StaysBelow m n := by
  have shorter := length_digits_le less.le
  -- The lesser number has the order of the digits in front of the greater one, or is these.
  obtain ⟨front, back, split, length⟩ : ∃ front back, digits n = front ++ back ∧ (digits m).length = front.length :=
    ⟨_, _, (List.take_append_drop (digits m).length (digits n)).symm, by simp [shorter]⟩
  have allDigits : ∀ c ∈ front ++ back, c.isDigit = true := fun _ member => isDigit_of_mem_digits (split ▸ member)
  obtain ⟨frontDigits, backDigits⟩ := List.forall_mem_append.mp allDigits
  have value : 10 ^ back.length * numberOf front + numberOf back = n := by
    rw [← numberOf_append, ← split, numberOf_digits]
  have zeros : (digits n).length - (digits m).length = back.length := by
    rw [split, List.length_append, length, Nat.add_sub_cancel_left]
  have before : digits m < front ↔ m < numberOf front := by
    rw [lt_iff_numberOf_lt (fun _ => isDigit_of_mem_digits) frontDigits length, numberOf_digits]
  have behind : front < digits m ↔ numberOf front < m := by
    rw [lt_iff_numberOf_lt frontDigits (fun _ => isDigit_of_mem_digits) length.symm, numberOf_digits]
  have atFront : digits m ++ [] < front ++ back ↔ digits m < front ∨ digits m = front ∧ [] < back :=
    append_lt_append length [] back
  rw [StaysBelow, zeros, split, ← List.append_nil (digits m), atFront]
  cases back with
  | nil =>
    have whole : numberOf front = n := by simpa [numberOf] using value
    exact iff_of_true (.inl (before.mpr (whole ▸ less))) (by simpa using less.le)
  | cons d ds =>
    have small := numberOf_lt backDigits
    have positive : 0 < 10 ^ (d :: ds).length := Nat.pow_pos (by decide)
    have scaled := units_lt_iff small positive (numberOf front) m
    rw [value, Nat.add_zero, Nat.mul_comm] at scaled
    rw [and_iff_left (List.nil_lt_cons d ds), ← le_iff_lt_or_eq, ← not_lt, behind, ← not_lt, scaled]
    simp

theorem digits_inj {m n : Nat} : digits m = digits n ↔ m = n := by
  refine ⟨fun same => ?_, congrArg _⟩
  rw [← numberOf_digits m, same, numberOf_digits]

/-- The greater number has the lesser text if the other one does not stay below. -/
theorem digits_lt_iff_of_gt {m n : Nat} (greater : n < m) : digits m < digits n ↔ ¬StaysBelow n m := by
  have different : digits n ≠ digits m := mt digits_inj.mp greater.ne
  rw [← digits_lt_iff greater, not_lt, different.symm.le_iff_lt]

theorem dash_lt_digits (cs : List Char) (n : Nat) : '-' :: cs < digits n := by
  obtain ⟨d, ds, split, digit, -⟩ := exists_digits_eq_cons n
  have bounds := digit_bounds digit
  have dash : '-' < d := show '-'.toNat < d.toNat by
    have code : '-'.toNat = 45 := rfl
    omega
  rw [split]
  exact List.cons_lt_cons_iff.mpr (.inl dash)

/-- The decimal text of an integer. -/
def decimalText (n : Int) : String :=
  String.ofList (integerText n)

theorem toList_decimalText (n : Int) : (decimalText n).toList = integerText n :=
  String.toList_ofList

/-- Whether two integers stand in the order of their decimal texts. -/
def KeepsOrder (a b : Int) : Prop :=
  a = b ∨ ¬(a < 0 ↔ b < 0) ∨ (0 ≤ a ↔ StaysBelow a.natAbs b.natAbs ∨ StaysBelow b.natAbs a.natAbs)

instance (a b : Int) : Decidable (KeepsOrder a b) :=
  inferInstanceAs (Decidable (_ ∨ _))

theorem keepsOrder_comm {a b : Int} : KeepsOrder a b ↔ KeepsOrder b a := by
  unfold KeepsOrder
  by_cases sameSign : a < 0 ↔ b < 0
  · have positive : 0 ≤ a ↔ 0 ≤ b := by omega
    rw [positive, or_comm (a := StaysBelow a.natAbs b.natAbs), eq_comm (a := a), iff_comm (a := a < 0)]
  · exact iff_of_true (.inr (.inl sameSign)) (.inr (.inl (mt iff_comm.mp sameSign)))

/-- Two integers are in the order of their texts if the order is kept. -/
theorem integerText_lt_iff {a b : Int} (less : a < b) : integerText a < integerText b ↔ KeepsOrder a b := by
  have different : a ≠ b := less.ne
  have natural : ∀ n : Nat, ¬Int.ofNat n < 0 := fun n => (Int.natCast_nonneg n).not_gt
  cases a with
  | ofNat m =>
    cases b with
    | ofNat n =>
      have below : m < n := Int.ofNat_lt.mp less
      have sameSign : Int.ofNat m < 0 ↔ Int.ofNat n < 0 := iff_of_false (natural m) (natural n)
      have positive : 0 ≤ Int.ofNat m := Int.natCast_nonneg m
      rw [KeepsOrder, or_iff_right different, or_iff_right (not_not_intro sameSign), iff_true_left positive]
      refine (digits_lt_iff below).trans (or_iff_left ?_).symm
      exact not_staysBelow_of_lt below
    | negSucc n => exact absurd (less.trans (Int.negSucc_lt_zero n)) (natural m)
  | negSucc m =>
    cases b with
    | ofNat n =>
      have signs : ¬(Int.negSucc m < 0 ↔ Int.ofNat n < 0) := fun same =>
        natural n (same.mp (Int.negSucc_lt_zero m))
      exact iff_of_true (dash_lt_digits _ n) (.inr (.inl signs))
    | negSucc n =>
      have below : n + 1 < m + 1 := by omega
      have sameSign : Int.negSucc m < 0 ↔ Int.negSucc n < 0 :=
        iff_of_true (Int.negSucc_lt_zero m) (Int.negSucc_lt_zero n)
      have negative : ¬0 ≤ Int.negSucc m := (Int.negSucc_lt_zero m).not_ge
      rw [KeepsOrder, or_iff_right different, or_iff_right (not_not_intro sameSign), iff_false_left negative,
        Int.natAbs_negSucc, Int.natAbs_negSucc, or_iff_right (not_staysBelow_of_lt below),
        ← digits_lt_iff_of_gt below]
      exact List.cons_lt_cons_self

theorem integerText_inj {a b : Int} : integerText a = integerText b ↔ a = b := by
  refine ⟨fun same => ?_, congrArg _⟩
  cases a with
  | ofNat m =>
    cases b with
    | ofNat n => exact congrArg _ (digits_inj.mp same)
    | negSucc n => exact absurd same (dash_lt_digits _ m).ne'
  | negSucc m =>
    cases b with
    | ofNat n => exact absurd same (dash_lt_digits _ n).ne
    | negSucc n => exact congrArg _ (Nat.succ.inj (digits_inj.mp (List.tail_eq_of_cons_eq same)))

theorem compareText_integerText_eq_eq {a b : Int} :
    compareText (integerText a) (integerText b) = .eq ↔ compare a b = .eq := by
  have neither : ∀ o : Ordering, o = .eq ↔ ¬(o = .lt ∨ o = .gt) := by decide
  rw [neither, compareText_eq_lt_iff, compareText_eq_gt_iff, ← ne_iff_lt_or_gt, not_ne_iff, integerText_inj,
    compare_eq_iff_eq]

/-- Two integers compare as their decimal texts do just if they stand in the order of these. -/
theorem compareText_integerText {a b : Int} :
    compareText (integerText a) (integerText b) = compare a b ↔ KeepsOrder a b := by
  rcases lt_trichotomy a b with less | rfl | greater
  · rw [compare_lt_iff_lt.mpr less, compareText_eq_lt_iff, integerText_lt_iff less]
  · have same := compare_eq_iff_eq.mpr (Eq.refl a)
    rw [same]
    exact iff_of_true (compareText_integerText_eq_eq.mpr same) (.inl rfl)
  · rw [compare_gt_iff_gt.mpr greater, compareText_eq_gt_iff, integerText_lt_iff greater, keepsOrder_comm]

end Sift

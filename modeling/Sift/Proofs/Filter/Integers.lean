import Sift.Proofs.Binary64.Integers
import Sift.Proofs.Filter.Collections

namespace Sift

namespace Operator

/-- The operators that relate numbers. -/
def comparisons : List Operator :=
  [equal, notEqual, greater, greaterOrEqual, less, lessOrEqual]

/-- What such an operator says of the integer in a field and the one it is compared with. -/
def Relates : Operator → Int → Int → Prop
  | equal, a, b => a = b
  | notEqual, a, b => a ≠ b
  | greater, a, b => b < a
  | greaterOrEqual, a, b => b ≤ a
  | less, a, b => a < b
  | lessOrEqual, a, b => a ≤ b
  | _, _, _ => False

/-- The relations are the same for integers in the same order. -/
theorem relates_congr {a b x y : Int} (equal : x = y ↔ a = b) (less : x < y ↔ a < b) (operator : Operator) :
    operator.Relates x y ↔ operator.Relates a b := by
  cases operator <;> simp only [Relates] <;> omega

/-- All of them are true of the rounded integers just if they are of the integers, unless two are made one. -/
theorem relates_rounded_iff {a b : Int} :
    (∀ operator ∈ comparisons, operator.Relates (roundedInt a) (roundedInt b) ↔ operator.Relates a b) ↔
      a = b ∨ roundedInt a ≠ roundedInt b := by
  constructor
  · intro right
    have same : roundedInt a = roundedInt b ↔ a = b := right .equal (by decide)
    exact or_iff_not_imp_left.mpr (mt same.mp)
  · rintro (rfl | apart) operator -
    · exact relates_congr (iff_of_true rfl rfl) (iff_of_false (lt_irrefl _) (lt_irrefl _)) operator
    · have different : a ≠ b := fun same => apart (congrArg roundedInt same)
      exact relates_congr (iff_of_false apart different) (roundedInt_lt_iff apart) operator

end Operator

namespace Filter

variable {field : String} {value : Json} {operand : Operand}

/-- A test of a field that has a single value is a test of that value. -/
theorem accepts_comparing_scalar (plain : '.' ∉ field.toList) (scalar : value.isScalar = true) {operator : Operator}
    (binary : operator.isUnary = false) (positive : operator.positive = operator) :
    (comparing field operator operand).accepts (.object [(field, value)]) = operator.holds value operand := by
  rw [accepts_comparing binary positive, Json.elements_reached, Json.valuesAlong_field plain,
    Json.elements_of_isScalar scalar, List.any_cons, List.any_nil, Bool.or_false]

theorem accepts_comparing_notEqual (document : Json) :
    (comparing field .notEqual operand).accepts document = !(comparing field .equal operand).accepts document :=
  Test.accepts_negated (t := ⟨field, .equal, some operand⟩) ⟨rfl, rfl⟩ rfl document

/-- A value that compares with that of a test as two integers do meets the test just if they are so related. -/
theorem accepts_comparing_iff {x y : Int} (plain : '.' ∉ field.toList) (scalar : value.isScalar = true)
    (compared : value.compare? operand = some (compare x y)) {operator : Operator}
    (member : operator ∈ Operator.comparisons) :
    (comparing field operator operand).accepts (.object [(field, value)]) = true ↔ operator.Relates x y := by
  have equal : (comparing field .equal operand).accepts (.object [(field, value)]) = true ↔ x = y := by
    rw [accepts_comparing_scalar plain scalar rfl rfl, Operator.holds, compared, beq_iff_eq, Option.some.injEq,
      compare_eq_iff_eq]
  have answer := @accepts_comparing_scalar field value operand plain scalar
  cases operator with
  | equal => exact equal
  | notEqual => rw [accepts_comparing_notEqual, Bool.not_eq_true', Bool.eq_false_iff, Ne, equal, Operator.Relates]
  | greater =>
    rw [answer rfl rfl, Operator.Relates, ← compare_gt_iff_gt]
    simp [Operator.holds, compared]
  | greaterOrEqual =>
    rw [answer rfl rfl, Operator.Relates, ← compare_ge_iff_ge]
    cases order : compare x y <;> simp [Operator.holds, compared, order]
  | less =>
    rw [answer rfl rfl, Operator.Relates, ← compare_lt_iff_lt]
    simp [Operator.holds, compared]
  | lessOrEqual =>
    rw [answer rfl rfl, Operator.Relates, ← compare_le_iff_le]
    cases order : compare x y <;> simp [Operator.holds, compared, order]
  | _ => simp [Operator.comparisons] at member

variable {a b : Int} {inRange : -9223372036854775808 ≤ a ∧ a < 18446744073709551616}
  {fits : -9223372036854775808 ≤ b ∧ b < 9223372036854775808}

/-- Integers of a document and of a test are compared as binary64 rounds them. -/
theorem accepts_rounded_iff (plain : '.' ∉ field.toList) {operator : Operator}
    (member : operator ∈ Operator.comparisons) :
    (comparing field operator (.integer b fits)).accepts (.object [(field, .number (.int a inRange))]) = true ↔
      operator.Relates (roundedInt a) (roundedInt b) := by
  have compared : (Json.number (.int a inRange)).compare? (.integer b fits) =
      some (compare (roundedInt a) (roundedInt b)) := by
    rw [Json.compare?, Operand.number?, Option.bind_some, JsonNumber.toBinary64,
      Binary64.compare?_ofInt_rounded (by omega) (by omega)]
  exact accepts_comparing_iff plain rfl compared member

/-- The integer in a field and that of a test are compared once they are rounded. The answers are right just if
that does not make two different ones the same, which it never does if one of them has less than 53 bits. -/
theorem accepts_integer_iff (plain : '.' ∉ field.toList)
    (inRange : -9223372036854775808 ≤ a ∧ a < 18446744073709551616)
    (fits : -9223372036854775808 ≤ b ∧ b < 9223372036854775808) :
    (∀ operator ∈ Operator.comparisons,
      (comparing field operator (.integer b fits)).accepts (.object [(field, .number (.int a inRange))]) = true ↔
        operator.Relates (roundedInt a) (roundedInt b)) ∧
    ((∀ operator ∈ Operator.comparisons,
      (comparing field operator (.integer b fits)).accepts (.object [(field, .number (.int a inRange))]) = true ↔
        operator.Relates a b) ↔ a = b ∨ roundedInt a ≠ roundedInt b) ∧
    (a.natAbs < 2 ^ 53 ∨ b.natAbs < 2 ^ 53 → ∀ operator ∈ Operator.comparisons,
      (comparing field operator (.integer b fits)).accepts (.object [(field, .number (.int a inRange))]) = true ↔
        operator.Relates a b) := by
  have right_iff : (∀ operator ∈ Operator.comparisons,
      (comparing field operator (.integer b fits)).accepts (.object [(field, .number (.int a inRange))]) = true ↔
        operator.Relates a b) ↔ a = b ∨ roundedInt a ≠ roundedInt b := by
    rw [← Operator.relates_rounded_iff]
    exact forall₂_congr fun operator member => by rw [accepts_rounded_iff plain member]
  refine ⟨fun operator member => accepts_rounded_iff plain member, right_iff, fun small => right_iff.mpr ?_⟩
  by_cases same : roundedInt a = roundedInt b
  · left
    rcases small with small | small
    · exact (eq_of_roundedInt_eq small same.symm).symm
    · exact eq_of_roundedInt_eq small same
  · exact .inr same

/-- Two past the 53rd power of two is a number of binary64, one past it is rounded down. -/
theorem accepts_integer_iff_two_past :
    '.' ∉ "f".toList ∧
    (-9223372036854775808 ≤ (9007199254740994 : Int) ∧ (9007199254740994 : Int) < 18446744073709551616) ∧
    (-9223372036854775808 ≤ (9007199254740993 : Int) ∧ (9007199254740993 : Int) < 9223372036854775808) ∧
    (comparing "f" .greater (.integer 9007199254740993 (by decide))).accepts
      (.object [("f", .number (.int 9007199254740994 (by decide)))]) = true := by
  have plain : '.' ∉ "f".toList := by decide
  have apart : roundedInt 9007199254740994 ≠ roundedInt 9007199254740993 := by decide +kernel
  have right := (accepts_integer_iff (a := 9007199254740994) (b := 9007199254740993) plain (by decide)
    (by decide)).2.1.mpr (.inr apart)
  have greater : Operator.greater.Relates 9007199254740994 9007199254740993 :=
    show (9007199254740993 : Int) < 9007199254740994 by decide
  exact ⟨plain, by decide, by decide, (right .greater (by decide)).mpr greater⟩

/-- One past the 53rd power of two counts as that power. -/
theorem accepts_integer_one_past :
    ¬((comparing "f" .equal (.integer 9007199254740992 (by decide))).accepts
        (.object [("f", .number (.int 9007199254740993 (by decide)))]) = true ↔
      (9007199254740993 : Int) = 9007199254740992) := by
  decide +kernel

end Filter

end Sift

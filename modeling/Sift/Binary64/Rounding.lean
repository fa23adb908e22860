import Sift.Binary64.Basic
import Sift.Text.Digits

namespace Sift

/-- The natural number nearest to a fraction, an even one if two are equally near. -/
def roundHalfEven (num den : Nat) : Nat :=
  let whole := num / den
  let twice := 2 * (num % den)
  if twice < den then whole
  else if den < twice then whole + 1
  else whole + whole % 2

namespace Binary64

/-- The smallest positive number goes this many times into 1. -/
def unitsInOne : Nat :=
  1 <<< 1074

/-- The number with a mantissa and a shift, infinite where the format has none with them. -/
def ofParts (negative : Bool) (mantissa shift : Nat) : Binary64 :=
  if canonical : mantissa < 9007199254740992 ∧ shift ≤ 2045 ∧
      (shift = 0 ∨ 4503599627370496 ≤ mantissa) then
    finite ⟨negative, mantissa, shift, canonical⟩
  else infinite negative

/-- The number nearest to a fraction of smallest positive numbers. What rounds past the largest finite number is
infinite. -/
def ofUnits (negative : Bool) (num den : Nat) : Binary64 :=
  let whole := num / den
  let shift := if whole < 9007199254740992 then 0 else whole.log2 - 52
  let mantissa := roundHalfEven num (den <<< shift)
  if mantissa = 9007199254740992 then ofParts negative 4503599627370496 (shift + 1)
  else ofParts negative mantissa shift

/-- The number nearest to an integer. -/
def ofInt (n : Int) : Binary64 :=
  ofUnits (n < 0) (n.natAbs * unitsInOne) 1

/-- The number nearest to a decimal fraction. Its digits and exponent alone tell whether it lies
beyond all finite numbers or below half of the smallest. -/
def ofDecimal (negative : Bool) (significand : Nat) (exponent : Int) : Binary64 :=
  let order := (digits significand).length + exponent
  if significand = 0 then finite (.zero negative)
  else if 310 < order then infinite negative
  else if order < -330 then finite (.zero negative)
  else
    match exponent with
    | .ofNat n => ofUnits negative (significand * tenTo n * unitsInOne) 1
    | .negSucc n => ofUnits negative (significand * unitsInOne) (tenTo (n + 1))

def mul (x y : Finite64) : Binary64 :=
  ofUnits (x.negative != y.negative) (x.units * y.units) unitsInOne

/-- The quotient of two numbers, rounded. The divisor is not zero. -/
def div (x y : Finite64) : Binary64 :=
  ofUnits (x.negative != y.negative) (x.units * unitsInOne) y.units

end Binary64

end Sift

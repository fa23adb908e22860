namespace Sift

/-- A finite number of the format, held exactly: a mantissa of 53 bits at most, shifted to the left, that counts
smallest positive numbers, `2 ^ -1074`. Only the least shift goes with a short mantissa, so every number but
zero has one form, and zero has one for each sign. The bounds of the mantissa are the 53rd and the 52nd power of
two. -/
structure Finite64 where
  negative : Bool
  mantissa : Nat
  shift : Nat
  canonical : mantissa < 9007199254740992 ∧ shift ≤ 2045 ∧
    (shift = 0 ∨ 4503599627370496 ≤ mantissa)
  deriving DecidableEq, Repr

/-- A number of the format. -/
inductive Binary64 where
  | finite (x : Finite64)
  | infinite (negative : Bool)
  | nan
  deriving DecidableEq, Repr

namespace Finite64

/-- How many times the smallest positive number the magnitude is. -/
def units (x : Finite64) : Nat :=
  x.mantissa <<< x.shift

/-- The number in smallest positive numbers. Both zeros are 0. -/
def signed (x : Finite64) : Int :=
  if x.negative then -(x.units : Int) else x.units

def zero (negative : Bool) : Finite64 :=
  ⟨negative, 0, 0, by decide⟩

def negated (x : Finite64) : Finite64 :=
  { x with negative := !x.negative }

end Finite64

namespace Binary64

/-- How two numbers compare. NaN compares with nothing, not even with itself. -/
def compare? : Binary64 → Binary64 → Option Ordering
  | nan, _ => none
  | _, nan => none
  | infinite a, infinite b => some (compare b a)
  | infinite a, finite _ => some (if a then .lt else .gt)
  | finite _, infinite b => some (if b then .gt else .lt)
  | finite x, finite y => some (compare x.signed y.signed)

end Binary64

end Sift

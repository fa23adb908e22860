import Sift.Binary64.Rounding
import Sift.Json.Basic
import Sift.Text.Digits

namespace Sift

/-- The parts of a number as it is written. -/
structure NumberText where
  negative : Bool
  whole : List Char
  /-- The digits after the point, none where there is no point. -/
  fraction : List Char
  exponent : Option Int
  deriving DecidableEq, Repr

namespace NumberText

/-- The digits after a point. A point without digits is refused. -/
def fraction? : List Char → Option (List Char × List Char)
  | '.' :: cs =>
    let ds := cs.takeWhile Char.isDigit
    if ds.isEmpty then none else some (ds, cs.dropWhile Char.isDigit)
  | cs => some ([], cs)

def exponentDigits? (negative : Bool) (cs : List Char) : Option (Option Int × List Char) :=
  let ds := cs.takeWhile Char.isDigit
  if ds.isEmpty then none
  else
    let magnitude : Int := numberOf ds
    some (some (if negative then -magnitude else magnitude), cs.dropWhile Char.isDigit)

def exponent? : List Char → Option (Option Int × List Char)
  | c :: cs =>
    if c = 'e' ∨ c = 'E' then
      match cs with
      | '-' :: cs => exponentDigits? true cs
      | '+' :: cs => exponentDigits? false cs
      | cs => exponentDigits? false cs
    else some (none, c :: cs)
  | [] => some (none, [])

/-- The parts after the sign. A zero in front of other digits is refused. -/
def scanUnsigned? (negative : Bool) (cs : List Char) : Option (NumberText × List Char) := do
  let whole := cs.takeWhile Char.isDigit
  if whole.isEmpty ∨ (whole.head? = some '0' ∧ 1 < whole.length) then none
  else
    let (fraction, cs) ← fraction? (cs.dropWhile Char.isDigit)
    let (exponent, cs) ← exponent? cs
    return (⟨negative, whole, fraction, exponent⟩, cs)

/-- The parts of a number at the front of a text, and the text after it. -/
def scan? : List Char → Option (NumberText × List Char)
  | '-' :: cs => scanUnsigned? true cs
  | cs => scanUnsigned? false cs

/-- Digits added to a number as long as it stays within 64 bits, and how many of them were. -/
def gather (significand : Nat) : List Char → Nat × Nat
  | [] => (significand, 0)
  | c :: cs =>
    let next := significand * 10 + (c.toNat - '0'.toNat)
    if next < 18446744073709551616 then
      let (gathered, count) := gather next cs
      (gathered, count + 1)
    else (significand, 0)

/-- The leading digits that 64 bits hold, and the power of ten that they are to be multiplied by. -/
def scaled (t : NumberText) : Nat × Int :=
  let (significand, inWhole) := gather 0 t.whole
  let (significand, inFraction) := gather significand t.fraction
  (significand, t.exponent.getD 0 + (t.whole.length - inWhole : Nat) - inFraction)

/-- A power of ten in binary64, one of those that are finite. -/
def powerOfTen (n : Nat) : Binary64 :=
  .ofDecimal false 1 n

def finite? : Binary64 → Option Finite64
  | .finite x => some x
  | _ => none

/-- A number divided by a power of ten, by the largest finite one as often as it is needed. -/
def divided (x : Finite64) (n : Nat) : Option Finite64 :=
  if small : n ≤ 308 then do finite? (Binary64.div x (← finite? (powerOfTen n)))
  else if x.mantissa = 0 then some x
  else do
    let quotient ← finite? (Binary64.div x (← finite? (powerOfTen 308)))
    divided quotient (n - 308)
termination_by n
decreasing_by omega

/-- A natural number times a power of ten, computed in binary64. There is none if it is beyond all
finite numbers. -/
def product? (significand : Nat) (exponent : Int) : Option Finite64 := do
  let x ← finite? (.ofInt significand)
  match exponent with
  | .ofNat n =>
    if x.mantissa = 0 then some x
    else if n ≤ 308 then finite? (Binary64.mul x (← finite? (powerOfTen n)))
    else none
  | .negSucc n => divided x (n + 1)

/-- The number that is written. Digits alone are an integer, unless they are more than 64 bits hold or a zero
with a sign. A number with a point or an exponent, or with more digits than 64 bits hold, is computed in
binary64 from its leading digits and a power of ten, so that it may differ in the last place from the nearest
number. -/
def value? (t : NumberText) : Option JsonNumber :=
  let integer : Int := if t.negative then -(numberOf t.whole : Int) else numberOf t.whole
  if plain : t.fraction = [] ∧ t.exponent = none ∧ ¬(t.negative = true ∧ integer = 0) ∧
      -9223372036854775808 ≤ integer ∧ integer < 18446744073709551616 then
    some (.int integer plain.2.2.2)
  else
    (product? t.scaled.1 t.scaled.2).map fun x => .float (if t.negative then x.negated else x)

end NumberText

end Sift

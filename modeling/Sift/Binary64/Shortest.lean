import Sift.Binary64.Basic
import Sift.Text.Digits

namespace Sift

/-- Which of two equally near decimal numbers is written. -/
inductive Tie where
  | toEven
  | up
  deriving DecidableEq, Repr

/-- The decimal number `significand * 10 ^ exponent`. -/
structure Decimal where
  significand : Nat
  exponent : Int
  deriving DecidableEq, Repr

namespace Finite64

/-- Four times the magnitude, in smallest positive numbers. -/
def quadruple (x : Finite64) : Nat :=
  4 * x.units

/-- Four times the least number that rounds to this one. The gap below a power of two is half the
gap above it. -/
def leastQuadruple (x : Finite64) : Nat :=
  x.quadruple - (if x.mantissa = 4503599627370496 ∧ 0 < x.shift then 1 else 2) <<< x.shift

/-- Four times the greatest number that rounds to this one. -/
def greatestQuadruple (x : Finite64) : Nat :=
  x.quadruple + 2 <<< x.shift

/-- Whether the fraction `num / den`, times four in smallest positive numbers, rounds to this
number. The ends of the interval round to an even mantissa. -/
def roundsTo (x : Finite64) (num den : Nat) : Bool :=
  if x.mantissa % 2 = 0 then
    x.leastQuadruple * den ≤ num && num ≤ x.greatestQuadruple * den
  else
    x.leastQuadruple * den < num && num < x.greatestQuadruple * den

/-- Four smallest positive numbers go this many times into 1. -/
def quadruplesInOne : Nat :=
  1 <<< 1076

/-- The multiple of `10 ^ exponent` that rounds to this number and is nearest to it, if one rounds
to it. -/
def onGrid? (x : Finite64) (tie : Tie) (exponent : Int) : Option Nat :=
  let step := quadruplesInOne * tenTo exponent.toNat
  let den := tenTo (-exponent).toNat
  let below := x.quadruple * den / step
  let under := x.quadruple * den - below * step
  let beyond := (below + 1) * step - x.quadruple * den
  match x.roundsTo (below * step) den, x.roundsTo ((below + 1) * step) den with
  | false, false => none
  | true, false => some below
  | false, true => some (below + 1)
  | true, true =>
    if under < beyond then some below
    else if beyond < under then some (below + 1)
    else
      match tie with
      | .up => some (below + 1)
      | .toEven => some (below + below % 2)

/-- The multiple of the largest power of ten that rounds to this number, among so many powers of
ten from one downward. -/
def coarsest (x : Finite64) (tie : Tie) (exponent : Int) : Nat → Decimal
  | 0 => ⟨0, 0⟩
  | steps + 1 =>
    match x.onGrid? tie exponent with
    | some significand => ⟨significand, exponent⟩
    | none => coarsest x tie (exponent - 1) steps

/-- The decimal number with the fewest digits that rounds to this one. No power of ten above the number has a
multiple that does, and the one below the least power of two always has. Of the numbers with that few digits the
nearest is taken, and a rule says which of two equally near ones. -/
def shortest (x : Finite64) (tie : Tie) : Decimal :=
  let order := (digits (x.greatestQuadruple / quadruplesInOne)).length
  if x.mantissa = 0 then ⟨0, 0⟩ else x.coarsest tie order (order + 400)

end Finite64

namespace Decimal

def order (d : Decimal) : Int :=
  (digits d.significand).length - 1 + d.exponent

/-- The number without an exponent. `fraction` ends it where there are no digits after the
point. -/
def positional (d : Decimal) (fraction : List Char) : List Char :=
  let ds := digits d.significand
  match d.exponent with
  | .ofNat n => ds ++ List.replicate n '0' ++ fraction
  | .negSucc n =>
    let places := n + 1
    if places < ds.length then ds.take (ds.length - places) ++ '.' :: ds.drop (ds.length - places)
    else '0' :: '.' :: List.replicate (places - ds.length) '0' ++ ds

/-- The number as one digit, the others after a point, and an exponent with its sign. -/
def scientific (d : Decimal) : List Char :=
  let mark := if d.order < 0 then ['e', '-'] else ['e', '+']
  match digits d.significand with
  | [] => []
  | [c] => c :: mark ++ digits d.order.natAbs
  | c :: cs => c :: '.' :: cs ++ mark ++ digits d.order.natAbs

end Decimal

namespace Binary64

/-- A finite number with a minus sign in front if it is negative. -/
def withSign (x : Finite64) (magnitude : List Char) : List Char :=
  if x.negative then '-' :: magnitude else magnitude

/-- The plain text of a number: never an exponent, and no point without digits after it. -/
def plainText : Binary64 → List Char
  | finite x => withSign x ((x.shortest .up).positional [])
  | infinite false => ['i', 'n', 'f']
  | infinite true => ['-', 'i', 'n', 'f']
  | nan => ['N', 'a', 'N']

end Binary64

end Sift

import Sift.Binary64.Rounding

namespace Sift

/-- A sign at the front of a text, and the text after it. -/
def takeSign : List Char → Bool × List Char
  | '-' :: cs => (true, cs)
  | '+' :: cs => (false, cs)
  | cs => (false, cs)

/-- The digits after a point, if the text begins with one, and the text after them. -/
def takeFraction : List Char → List Char × List Char
  | '.' :: cs => (cs.takeWhile Char.isDigit, cs.dropWhile Char.isDigit)
  | cs => ([], cs)

def signedNumber? (cs : List Char) : Option Int :=
  let (negative, ds) := takeSign cs
  if ds.isEmpty || !ds.all Char.isDigit then none
  else if negative then some (-(numberOf ds : Int))
  else some (numberOf ds)

/-- The exponent that ends a number, which may be left out. -/
def exponent? : List Char → Option Int
  | [] => some 0
  | c :: cs => if c = 'e' ∨ c = 'E' then signedNumber? cs else none

namespace Binary64

/-- The number that a text without sign spells: digits before or after the point, or both. -/
def readUnsigned? (negative : Bool) (cs : List Char) : Option Binary64 :=
  let whole := cs.takeWhile Char.isDigit
  let (fraction, rest) := takeFraction (cs.dropWhile Char.isDigit)
  if whole.isEmpty && fraction.isEmpty then none
  else
    (exponent? rest).map fun exponent =>
      ofDecimal negative (numberOf (whole ++ fraction)) (exponent - fraction.length)

/-- The number that a text spells: a sign, digits with or without a point, an exponent, or one of the words for
infinity and for what is no number. Words are read in any case. -/
def read? (text : List Char) : Option Binary64 :=
  let (negative, cs) := takeSign text
  let word := String.ofList (cs.map Char.toLower)
  if word = "inf" ∨ word = "infinity" then some (infinite negative)
  else if word = "nan" then some nan
  else readUnsigned? negative cs

end Binary64

end Sift

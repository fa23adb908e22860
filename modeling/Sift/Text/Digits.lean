namespace Sift

/-- A number written in decimal. -/
def digits (n : Nat) : List Char :=
  Nat.toDigits 10 n

/-- The decimal digits of a number, with zeros in front up to a width. -/
def padded (width n : Nat) : List Char :=
  List.replicate (width - (digits n).length) '0' ++ digits n

def tenTo (n : Nat) : Nat :=
  Nat.pow 10 n

/-- The number that decimal digits are read as. -/
def numberOf (cs : List Char) : Nat :=
  Nat.ofDigitChars 10 cs 0

def integerText : Int → List Char
  | .ofNat n => digits n
  | .negSucc n => '-' :: digits (n + 1)

/-- A number that is written and read again is the same number. -/
theorem numberOf_digits (n : Nat) : numberOf (digits n) = n :=
  Nat.ofDigitChars_toDigits (by decide) (by decide)

theorem isDigit_of_mem_digits {n : Nat} {c : Char} (member : c ∈ digits n) : c.isDigit = true :=
  Nat.isDigit_of_mem_toDigits (by decide) (by decide) member

end Sift

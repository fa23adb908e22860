import Sift.Expression

namespace Sift

/-- Which way a property sorts. -/
inductive Direction where
  | ascending
  | descending
  deriving DecidableEq, Repr

/-- A property to sort by. -/
structure SortKey where
  property : PropertyPath
  direction : Direction
  deriving DecidableEq, Repr

/-- An ordering by one property, or by several of which a later one decides between documents that the earlier
ones leave equal. -/
inductive Sorting where
  | single (key : SortKey)
  | several (keys : List SortKey)
  deriving DecidableEq, Repr

namespace Sorting

def keys : Sorting → List SortKey
  | single key => [key]
  | several keys => keys

/-- The ordering by some properties. One property alone makes a single ordering. -/
def ofKeys : List SortKey → Sorting
  | [key] => single key
  | keys => several keys

/-- An ordering of some keys has these keys. -/
theorem keys_ofKeys (ks : List SortKey) : (ofKeys ks).keys = ks := by
  unfold ofKeys
  split <;> rfl

end Sorting

/-- A rule that the text of an ordering breaks. -/
inductive SortFault where
  | blank
  | leadingComma
  | trailingComma
  | emptySegment (position : Nat)
  | repeatedSign (segment : String)
  | signAlone (segment : String)
  | spaceAfterSign (segment : String)
  | missingComma (segment : String)
  | invalidName (name : String)
  | unreadable (segment : String)
  deriving DecidableEq, Repr

namespace SortFault

def message : SortFault → String
  | blank => "sort expression is empty"
  | leadingComma => "leading ','"
  | trailingComma => "trailing ','"
  | emptySegment position => "empty segment at position " ++ String.ofList (digits position)
  | repeatedSign segment => "repeated sign in '" ++ segment ++ "'"
  | signAlone segment => "sign without property in '" ++ segment ++ "'"
  | spaceAfterSign segment => "whitespace between sign and property in '" ++ segment ++ "'"
  | missingComma segment => "missing ',' between properties in '" ++ segment ++ "'"
  | invalidName name => "invalid property name '" ++ name ++ "'"
  | unreadable segment => "invalid sort segment '" ++ segment ++ "'"

def summary (faults : List SortFault) : String :=
  joinTexts "; " (faults.map message)

end SortFault

end Sift

import Sift.Error
import Sift.Text.Alphabetic
import Sift.Text.Blank

namespace Sift

def beginsIdentifier (c : Char) : Bool :=
  isAlphabetic c || c == '_'

def inIdentifier (c : Char) : Bool :=
  isAlphabetic c || c.isDigit || c == '_'

def isIdentifier : List Char → Bool
  | [] => false
  | c :: cs => beginsIdentifier c && cs.all inIdentifier

def pathOf? (cs : List Char) : Option PropertyPath :=
  let names := pieces '.' cs
  if names.all isIdentifier then some ⟨names.map String.ofList⟩ else none

def isSign (c : Char) : Bool :=
  c == '+' || c == '-'

namespace SortFault

/-- The rule that a piece without white space around it breaks, if it breaks one. -/
def inSegment? (segment : List Char) : Option SortFault :=
  let signs := segment.takeWhile isSign
  let name := segment.dropWhile isSign
  if 1 < signs.length then some (.repeatedSign (String.ofList segment))
  else if signs.length = 1 ∧ name.all isBlank then some (.signAlone (String.ofList segment))
  else if name.head?.any isBlank then some (.spaceAfterSign (String.ofList segment))
  else if name.any isBlank then some (.missingComma (String.ofList segment))
  else if (pathOf? name).isNone then some (.invalidName (String.ofList name))
  else none

/-- The rule that an empty piece breaks, by how many pieces stand before it and after it. -/
def ofEmpty (before after : Nat) : SortFault :=
  if before = 0 then .leadingComma
  else if after = 0 then .trailingComma
  else .emptySegment (before + 1)

/-- The rules that pieces break, with so many pieces before them. -/
def inPieces (before : Nat) : List (List Char) → List SortFault
  | [] => []
  | piece :: others =>
    let segment := trim piece
    let fault :=
      if segment.isEmpty then some (ofEmpty before others.length) else inSegment? segment
    fault.toList ++ inPieces (before + 1) others

/-- All rules that a text breaks, one for every piece that breaks any. -/
def all (text : String) : List SortFault :=
  if isBlankText text then [.blank] else inPieces 0 (pieces ',' text.toList)

end SortFault

namespace SortKey

/-- The direction that a text begins with, and the text after its sign. Without a sign the order
is ascending. -/
def takeDirection : List Char → Direction × List Char
  | '+' :: cs => (.ascending, cs)
  | '-' :: cs => (.descending, cs)
  | cs => (.ascending, cs)

def read? (segment : List Char) : Option SortKey :=
  let (direction, name) := takeDirection segment
  (pathOf? name).map fun path => ⟨path, direction⟩

def readAll : List (List Char) → Except QueryError (List SortKey)
  | [] => .ok []
  | piece :: others =>
    match read? (trim piece) with
    | none => .error (.invalidSort [.unreadable (String.ofList (trim piece))])
    | some key => (readAll others).map (key :: ·)

end SortKey

/-- The ordering that a text spells, once it breaks no rule. -/
def Sorting.read (text : String) : Except QueryError Sorting :=
  match SortFault.all text with
  | [] => (SortKey.readAll (pieces ',' text.toList)).map Sorting.ofKeys
  | faults => .error (.invalidSort faults)

end Sift

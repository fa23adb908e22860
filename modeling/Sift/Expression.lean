import Sift.Calendar.Basic
import Sift.Text.Pieces

namespace Sift

/-- The way from a document to one of its values, by the names of properties. -/
structure PropertyPath where
  segments : List String
  deriving DecidableEq, Repr

namespace PropertyPath

/-- The names of a path with dots between them, as the field of a filter has them. -/
def dotted (path : PropertyPath) : String :=
  joinTexts "." path.segments

def ofDotted (name : String) : PropertyPath :=
  ⟨(pieces '.' name.toList).map String.ofList⟩

/-- A field that is cut at its dots and put together again is the same field. -/
theorem dotted_ofDotted (name : String) : (ofDotted name).dotted = name := by
  have same : (String.toList ∘ String.ofList) = id := funext fun _ => String.toList_ofList
  simp [dotted, ofDotted, joinTexts, List.map_map, same, joinWith_pieces]

end PropertyPath

/-- One side of an interval. -/
inductive Boundary where
  | unbounded
  | constant (text : String)
  | date (date : Date)
  | time (time : Time)
  | dateTime (date : Date) (time : Time)
  deriving DecidableEq, Repr

/-- A condition on one value. -/
inductive Expression where
  | anything
  | constant (text : String)
  | startsWith (text : String)
  | endsWith (text : String)
  | contains (text : String)
  | oneOf (variants : List Expression)
  | interval (min max : Boundary)
  | group (inner : Expression)
  | and (left right : Expression)
  | or (left right : Expression)
  | not (inner : Expression)
  | path (path : PropertyPath)
  | date (date : Date)
  | time (time : Time)
  | dateTime (date : Date) (time : Time)
  deriving Repr

/-- A condition on the value of one property. A query says one or more of them. -/
structure Criterion where
  property : PropertyPath
  expression : Expression
  deriving Repr

end Sift

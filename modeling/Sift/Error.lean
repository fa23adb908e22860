import Sift.Grammar.Failure
import Sift.Sorting.Basic
import Sift.Token.Scan

namespace Sift

/-- The ways in which two filters or more are joined. -/
inductive Logic where
  | and
  | or
  deriving DecidableEq, Repr

namespace Logic

def code : Logic → String
  | and => "and"
  | or => "or"

def ofCode? : String → Option Logic
  | "and" => some and
  | "or" => some or
  | _ => none

end Logic

/-- Why a JSON text is no filter. -/
inductive WireFault where
  | notJson
  | noShape
  | unknownLogic (name : String)
  | tooFewParts (logic : Logic)
  | unwantedValue (code : String)
  | missingValue (code : String)
  deriving DecidableEq, Repr

namespace WireFault

def message : WireFault → String
  | notJson => "invalid JSON"
  | noShape => "data did not match any variant of untagged enum WireNode"
  | unknownLogic name => "unknown logic '" ++ name ++ "'"
  | tooFewParts logic => "'" ++ logic.code ++ "' needs at least two filters"
  | unwantedValue code => "operator '" ++ code ++ "' does not take a value"
  | missingValue code => "operator '" ++ code ++ "' requires a value"

end WireFault

namespace Ambiguity

def message : Ambiguity → String
  | unterminatedQuote => "unterminated quoted string"
  | danglingEscape => "dangling escape at end of input"

end Ambiguity

namespace Position

def text (p : Position) : String :=
  String.ofList (digits p.line ++ ':' :: digits p.column)

end Position

/-- Why a query, an ordering or a filter on the wire is refused. -/
inductive QueryError where
  | lexical (position : Position) (ambiguity : Ambiguity)
  | unexpected (position : Position) (expected : List Expected) (found : Found)
  | invalidSort (faults : List SortFault)
  | unsupportedValue (json : String)
  | unknownOperator (code : String)
  | unknownProperty (path : String)
  | malformedFilter (fault : WireFault)
  deriving DecidableEq, Repr

namespace QueryError

/-- The wording of a refusal. -/
def message : QueryError → String
  | lexical position ambiguity =>
    "Lexical error at " ++ position.text ++ ": " ++ ambiguity.message
  | unexpected position expected found =>
    "Syntax error at " ++ position.text ++ ": expected " ++
      joinTexts " or " (expected.map Expected.text) ++ ", found " ++ found.text
  | invalidSort faults => "Invalid sort expression: " ++ SortFault.summary faults
  | unsupportedValue json => "Unsupported value type: " ++ json
  | unknownOperator code => "Unknown operator: " ++ code
  | unknownProperty path => "Unknown property: " ++ path
  | malformedFilter fault => "Malformed filter: " ++ fault.message

/-- Where in its text a query is refused, if it is refused for a place in it. -/
def position? : QueryError → Option Position
  | lexical position _ => some position
  | unexpected position _ _ => some position
  | _ => none

end QueryError

end Sift

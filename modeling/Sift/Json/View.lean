import Sift.Expression
import Sift.Json.Basic
import Sift.Sorting.Basic
import Sift.Token.Basic

namespace Sift

namespace Kind

def name : Kind → String
  | letter => "Letter"
  | digit => "Digit"
  | dash => "Dash"
  | colon => "Colon"
  | underscore => "Underscore"
  | whitespace => "Whitespace"
  | equal => "Equal"
  | asterisk => "Asterisk"
  | bang => "Bang"
  | bar => "Or"
  | comma => "And"
  | leftBracket => "LeftBracket"
  | rightBracket => "RightBracket"
  | leftParenthesis => "LeftParenthesis"
  | rightParenthesis => "RightParenthesis"
  | ampersand => "Ampersand"
  | dot => "Dot"
  | doubleQuote => "DoubleQuote"
  | escaped => "Escaped"
  | other => "None"

end Kind

namespace Json

/-- What a choice is shown as if it holds something: an object with its name as the key. One that holds nothing
is shown by its name. -/
def tagged (name : String) (held : Json) : Json :=
  object [(name, held)]

def strings (texts : List String) : Json :=
  array (texts.map string)

end Json

namespace Token

/-- A token with its kind, its character and its place. -/
def toJson (t : Token) : Json :=
  .ofFields [("kind", .string t.kind.name), ("text", .string t.text),
    ("line", .ofInt t.position.line), ("column", .ofInt t.position.column)]

end Token

namespace Date

def toJson (d : Date) : Json :=
  .ofFields [("year", .ofInt d.year), ("month", .ofInt d.month), ("day", .ofInt d.day)]

end Date

namespace Time

def toJson (t : Time) : Json :=
  .ofFields [("hours", .ofInt t.hours), ("minutes", .ofInt t.minutes),
    ("seconds", .ofInt t.seconds), ("milliseconds", .ofInt t.milliseconds)]

end Time

namespace Boundary

def toJson : Boundary → Json
  | unbounded => .string "Unbounded"
  | constant text => .tagged "Constant" (.string text)
  | date d => .tagged "Date" d.toJson
  | time t => .tagged "Time" t.toJson
  | dateTime d t => .tagged "DateTime" (.array [d.toJson, t.toJson])

end Boundary

namespace Expression

mutual

/-- An expression as its constructor and what it holds. -/
def toJson : Expression → Json
  | anything => .string "Asterisk"
  | constant text => .tagged "Constant" (.string text)
  | startsWith text => .tagged "StartsWith" (.string text)
  | endsWith text => .tagged "EndsWith" (.string text)
  | contains text => .tagged "Contains" (.string text)
  | oneOf variants => .tagged "OneOf" (.array (toJsonAll variants))
  | interval min max => .tagged "Interval" (.ofFields [("min", min.toJson), ("max", max.toJson)])
  | group inner => .tagged "Group" inner.toJson
  | and left right => .tagged "And" (.array [left.toJson, right.toJson])
  | or left right => .tagged "Or" (.array [left.toJson, right.toJson])
  | not inner => .tagged "Not" inner.toJson
  | path p => .tagged "PropertyPath" (.strings p.segments)
  | date d => .tagged "Date" d.toJson
  | time t => .tagged "Time" t.toJson
  | dateTime d t => .tagged "DateTime" (.array [d.toJson, t.toJson])

def toJsonAll : List Expression → List Json
  | [] => []
  | e :: es => e.toJson :: toJsonAll es

end

end Expression

namespace Criterion

/-- A criterion as its path and its expression. -/
def toJson (criterion : Criterion) : Json :=
  .ofFields [("property", .strings criterion.property.segments),
    ("expression", criterion.expression.toJson)]

end Criterion

namespace Direction

def name : Direction → String
  | ascending => "Ascending"
  | descending => "Descending"

end Direction

namespace SortKey

def toJson (key : SortKey) : Json :=
  .ofFields [("property", .strings key.property.segments),
    ("direction", .string key.direction.name)]

end SortKey

namespace Sorting

def toJson : Sorting → Json
  | single key => .tagged "Sort" key.toJson
  | several keys => .tagged "MultiSort" (.array (keys.map SortKey.toJson))

end Sorting

end Sift

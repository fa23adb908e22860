import Sift.Json.Printer

namespace Sift

/-- The end of a line, and the indentation of the next one. -/
def newLine (indent : Nat) : List Char :=
  '\n' :: List.replicate (2 * indent) ' '

namespace Json

mutual

/-- A value over several lines, of which the first is already indented. -/
def prettyWritten (indent : Nat) : Json → List Char
  | array [] => ['[', ']']
  | array (item :: items) =>
    '[' :: newLine (indent + 1) ++ prettyWritten (indent + 1) item ++ prettyItems indent items
  | object [] => ['\x7b', '\x7d']
  | object ((key, value) :: fields) =>
    '\x7b' :: newLine (indent + 1) ++ quotedText key ++ ':' :: ' ' ::
      prettyWritten (indent + 1) value ++ prettyFields indent fields
  | json => json.written

/-- The items of an array after the first one, and its end. -/
def prettyItems (indent : Nat) : List Json → List Char
  | [] => newLine indent ++ [']']
  | item :: items =>
    ',' :: newLine (indent + 1) ++ prettyWritten (indent + 1) item ++ prettyItems indent items

/-- The fields of an object after the first one, and its end. -/
def prettyFields (indent : Nat) : List (String × Json) → List Char
  | [] => newLine indent ++ ['\x7d']
  | (key, value) :: fields =>
    ',' :: newLine (indent + 1) ++ quotedText key ++ ':' :: ' ' ::
      prettyWritten (indent + 1) value ++ prettyFields indent fields

end

/-- A value over several lines, each level of nesting indented by two spaces more. -/
def pretty (json : Json) : String :=
  String.ofList (json.prettyWritten 0)

end Json

end Sift

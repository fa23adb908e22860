import Sift.Binary64.Shortest
import Sift.Json.Basic

namespace Sift

def hexDigit (n : Nat) : Char :=
  Nat.digitChar (n % 16)

/-- A character as it is written between quotes: quotes, backslashes and control characters are
escaped, all others stand for themselves. -/
def escapedChar (c : Char) : List Char :=
  if c = '"' then ['\\', '"']
  else if c = '\\' then ['\\', '\\']
  else if c = '\x08' then ['\\', 'b']
  else if c = '\x0c' then ['\\', 'f']
  else if c = '\n' then ['\\', 'n']
  else if c = '\r' then ['\\', 'r']
  else if c = '\t' then ['\\', 't']
  else if c.toNat < 0x20 then ['\\', 'u', '0', '0', hexDigit (c.toNat / 16), hexDigit c.toNat]
  else [c]

/-- A text in quotes, with escapes for what may not stand in them. -/
def quotedText (text : String) : List Char :=
  '"' :: text.toList.flatMap escapedChar ++ ['"']

namespace JsonNumber

/-- A finite number in JSON: never without a fraction, and with an exponent only beyond sixteen
digits before the point or five places after it. A tie goes to the even digit. -/
def floatText (x : Finite64) : List Char :=
  let decimal := x.shortest .toEven
  Binary64.withSign x
    (if -5 ≤ decimal.order ∧ decimal.order < 16 then decimal.positional ['.', '0']
    else decimal.scientific)

def text : JsonNumber → List Char
  | int value _ => integerText value
  | float value => floatText value

end JsonNumber

namespace Json

mutual

def written : Json → List Char
  | null => ['n', 'u', 'l', 'l']
  | bool true => ['t', 'r', 'u', 'e']
  | bool false => ['f', 'a', 'l', 's', 'e']
  | number value => value.text
  | string value => quotedText value
  | array [] => ['[', ']']
  | array (item :: items) => '[' :: written item ++ writtenItems items
  | object [] => ['\x7b', '\x7d']
  | object ((key, value) :: fields) =>
    '\x7b' :: quotedText key ++ ':' :: written value ++ writtenFields fields

/-- The items of an array after the first one, and its end. -/
def writtenItems : List Json → List Char
  | [] => [']']
  | item :: items => ',' :: written item ++ writtenItems items

/-- The fields of an object after the first one, and its end. -/
def writtenFields : List (String × Json) → List Char
  | [] => ['\x7d']
  | (key, value) :: fields => ',' :: quotedText key ++ ':' :: written value ++ writtenFields fields

end

/-- A value as text without spaces. -/
def text (json : Json) : String :=
  String.ofList json.written

end Json

end Sift

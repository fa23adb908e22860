import Sift.Binary64.Reader
import Sift.Json.Basic
import Sift.Yaml.Node

namespace Sift

/-- A setting as a file or a variable of the environment gives it. It is turned into the type that is needed
only in the end. -/
inductive Setting where
  | null
  | bool (value : Bool)
  | integer (value : Int)
  | float (value : Binary64)
  | text (value : String)
  | list (items : List Setting)
  | table (entries : List (String × Setting))
  deriving Inhabited, Repr

namespace Setting

def lookup? (key : String) : List (String × Setting) → Option Setting
  | [] => none
  | (name, value) :: entries => if name = key then some value else lookup? key entries

def put (key : String) (value : Setting) : List (String × Setting) → List (String × Setting)
  | [] => [(key, value)]
  | (name, old) :: entries =>
    if name = key then (key, value) :: entries else (name, old) :: put key value entries

/-- A JSON number as a setting. An integer that is too large for 64 bits with a sign is rounded. -/
def ofNumber : JsonNumber → Setting
  | .int n _ => if n < 9223372036854775808 then integer n else float (.ofInt n)
  | .float x => float (.finite x)

mutual

def ofJson : Json → Setting
  | .null => null
  | .bool b => bool b
  | .number n => ofNumber n
  | .string s => text s
  | .array items => list (ofItems items)
  | .object fields => table (ofFields fields)

def ofItems : List Json → List Setting
  | [] => []
  | item :: items => ofJson item :: ofItems items

def ofFields : List (String × Json) → List (String × Setting)
  | [] => []
  | (key, value) :: fields => (key, ofJson value) :: ofFields fields

end

/-- The key that a value in YAML is, if it may be one: a text, a number or a truth value. -/
def keyOfNode? : Yaml.Node → Option String
  | .bool b => some (if b then "true" else "false")
  | .integer n => some (String.ofList (integerText n))
  | .real s => some s
  | .text s => some s
  | _ => none

mutual

/-- A value in YAML as a setting. There is none for an infinite number that is spelled with a point,
and none where a key may not be one. -/
def ofNode? : Yaml.Node → Option Setting
  | .null => some null
  | .misfit => some null
  | .bool b => some (bool b)
  | .integer n => some (integer n)
  | .real s => (Binary64.read? s.toList).map float
  | .text s => some (text s)
  | .list items => (ofNodes? items).map list
  | .table entries => (ofPairs? entries).map table

def ofNodes? : List Yaml.Node → Option (List Setting)
  | [] => some []
  | item :: items => do return (← ofNode? item) :: (← ofNodes? items)

def ofPairs? : List (Yaml.Node × Yaml.Node) → Option (List (String × Setting))
  | [] => some []
  | (key, value) :: pairs => do
    return ((← keyOfNode? key), (← ofNode? value)) :: (← ofPairs? pairs)

end

/-- An integer of 64 bits with a sign, written with or without one. -/
def readInt64? (cs : List Char) : Option Int :=
  Yaml.readInteger? 10 cs

/-- The text of a variable as a value: a truth value in any case, a number, or the text itself. -/
def ofVariable (s : String) : Setting :=
  let word := String.ofList (s.toList.map Char.toLower)
  if word = "true" then bool true
  else if word = "false" then bool false
  else
    match readInt64? s.toList with
    | some n => integer n
    | none =>
      match Binary64.read? s.toList with
      | some x => float x
      | none => text s

/-- A natural number of 64 bits, a plus sign in front or not. -/
def readNat64? (cs : List Char) : Option Nat :=
  let ds :=
    match cs with
    | '+' :: ds => ds
    | ds => ds
  if ds.isEmpty || !ds.all Char.isDigit then none
  else if numberOf ds < 18446744073709551616 then some (numberOf ds)
  else none

def maxNat64 : Nat := 18446744073709551615

/-- The natural number of 64 bits that is nearest to a binary64 number, halves away from zero. -/
def roundNat64 : Binary64 → Nat
  | .nan => 0
  | .infinite negative => if negative then 0 else maxNat64
  | .finite x =>
    if x.negative then 0
    else min ((2 * x.units + Binary64.unitsInOne) / (2 * Binary64.unitsInOne)) maxNat64

/-- The natural number that a value stands for. Words for truth values stand for 1 and 0. -/
def toNat? : Setting → Option Nat
  | integer n => if 0 ≤ n then some n.toNat else none
  | bool b => some (if b then 1 else 0)
  | float x => some (roundNat64 x)
  | text s =>
    let word := String.ofList (s.toList.map Char.toLower)
    if word ∈ ["true", "on", "yes"] then some 1
    else if word ∈ ["false", "off", "no"] then some 0
    else readNat64? s.toList
  | _ => none

end Setting

end Sift

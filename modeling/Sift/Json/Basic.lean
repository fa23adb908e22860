import Sift.Binary64.Rounding

namespace Sift

/-- A JSON number: an integer of 64 bits, signed or not, or a finite binary64 number. The bounds are
minus the 63rd power of two, and the 64th. -/
inductive JsonNumber where
  | int (value : Int) (fits : -9223372036854775808 ≤ value ∧ value < 18446744073709551616)
  | float (value : Finite64)
  deriving DecidableEq, Repr

/-- A JSON value. Integers are kept apart from other numbers, and an object has its keys in ascending order,
each once. -/
inductive Json where
  | null
  | bool (value : Bool)
  | number (value : JsonNumber)
  | string (value : String)
  | array (items : List Json)
  | object (fields : List (String × Json))
  deriving Inhabited, Repr

namespace JsonNumber

/-- The number in binary64. A large integer is rounded. -/
def toBinary64 : JsonNumber → Binary64
  | int value _ => .ofInt value
  | float value => .finite value

end JsonNumber

namespace Json

def field? (key : String) : List (String × Json) → Option Json
  | [] => none
  | (name, value) :: fields => if name = key then some value else field? key fields

/-- The value of an object under a key. No other value has fields. -/
def get? (json : Json) (key : String) : Option Json :=
  match json with
  | object fields => field? key fields
  | _ => none

/-- The fields of an object with a key set to a value, in ascending order of keys. -/
def setField (key : String) (value : Json) : List (String × Json) → List (String × Json)
  | [] => [(key, value)]
  | (name, old) :: fields =>
    if key < name then (key, value) :: (name, old) :: fields
    else if key = name then (key, value) :: fields
    else (name, old) :: setField key value fields

/-- The object of some fields. Of two values under one key the later one stands. -/
def ofFields (fields : List (String × Json)) : Json :=
  object (fields.foldl (fun set (key, value) => setField key value set) [])

/-- An integer as a JSON number: rounded where it has more than 64 bits, and then null if it is
beyond all finite numbers. -/
def ofInt (n : Int) : Json :=
  if fits : -9223372036854775808 ≤ n ∧ n < 18446744073709551616 then number (.int n fits)
  else
    match Binary64.ofInt n with
    | .finite x => number (.float x)
    | _ => null

/-- A binary64 number as a JSON value. JSON has no infinities and nothing for NaN. -/
def ofBinary64 : Binary64 → Json
  | .finite x => number (.float x)
  | .infinite _ => null
  | .nan => null

end Json

end Sift

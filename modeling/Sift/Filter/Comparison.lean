import Sift.Filter.Basic
import Sift.Json.Printer
import Sift.Text.Blank

namespace Sift

def compareText : List Char → List Char → Ordering
  | [], [] => .eq
  | [], _ :: _ => .lt
  | _ :: _, [] => .gt
  | a :: as, b :: bs => if a < b then .lt else if b < a then .gt else compareText as bs

/-- The number that a text spells, without the white space around it. -/
def numberOfText? (text : String) : Option Binary64 :=
  Binary64.read? (trim text.toList)

namespace Operand

/-- The number that a value compares as. Text must spell one, and dates and times are none. -/
def number? : Operand → Option Binary64
  | string text => numberOfText? text
  | integer n _ => some (.ofInt n)
  | float x => some x
  | _ => none

def isNumber : Operand → Bool
  | integer _ _ | float _ => true
  | _ => false

def bool? : Operand → Option Bool
  | boolean b => some b
  | string text => readBool? text
  | _ => none

end Operand

namespace Json

/-- The order of a text against a value. Against a number the text must spell a finite one. -/
def compareString? (text : String) (operand : Operand) : Option Ordering :=
  match operand with
  | .boolean b => (readBool? text).map (Ord.compare · b)
  | _ =>
    if operand.isNumber then
      match numberOfText? text, operand.number? with
      | some (.finite x), some expected => Binary64.compare? (.finite x) expected
      | _, _ => none
    else some (compareText text.toList operand.text.toList)

/-- The order of a value of a document against the value of a test, if they can be compared. Numbers compare as
numbers, also with text that spells one; all other text compares character by character. -/
def compare? (json : Json) (operand : Operand) : Option Ordering :=
  match json with
  | bool b => operand.bool?.map (Ord.compare b ·)
  | number n => operand.number?.bind (Binary64.compare? n.toBinary64 ·)
  | string text => compareString? text operand
  | _ => none

/-- The text of a value that is neither null nor made of others. -/
def plain? : Json → Option String
  | string text => some text
  | number n => some (String.ofList n.text)
  | bool b => some (boolText b)
  | _ => none

end Json

end Sift

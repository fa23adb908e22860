import Sift.Calendar.Basic

namespace Sift

/-- The digits that a text begins with, at most `limit` of them, and the text after them. -/
def takeDigits : Nat → List Char → List Char × List Char
  | 0, cs => ([], cs)
  | _ + 1, [] => ([], [])
  | limit + 1, c :: cs =>
    if c.isDigit then
      let (taken, rest) := takeDigits limit cs
      (c :: taken, rest)
    else ([], c :: cs)

/-- A number of `least` to `most` digits at the front of a text, and the text after it. -/
def numberIn? (least most : Nat) (cs : List Char) : Option (Nat × List Char) :=
  let (taken, rest) := takeDigits most cs
  if least ≤ taken.length then some (numberOf taken, rest) else none

def after? (expected : Char) : List Char → Option (List Char)
  | [] => none
  | c :: cs => if c = expected then some cs else none

namespace Date

/-- A date at the front of a text: four digits, then one or two, then one or two, with dashes
between. -/
def shape? (cs : List Char) : Option (Date × List Char) := do
  let (year, cs) ← numberIn? 4 4 cs
  let (month, cs) ← numberIn? 1 2 (← after? '-' cs)
  let (day, cs) ← numberIn? 1 2 (← after? '-' cs)
  return (⟨year, month, day⟩, cs)

def checked (date : Date) : Except CalendarFault Date :=
  match date.fault? with
  | some part => .error (.date date part)
  | none => .ok date

/-- The date that a text spells. There is none if the text has not the form of a date at all, so that another
form may be tried, and a fault if it has the form of a date that does not exist. -/
def read (text : String) : Except CalendarFault (Option Date) :=
  match shape? text.toList with
  | some (date, []) => date.checked.map some
  | _ => .ok none

end Date

namespace Time

/-- The fraction of a second that one to three digits after a point spell, in milliseconds. Digits
that are not written are zeros. -/
def fraction? (cs : List Char) : Option (Nat × List Char) := do
  let cs ← after? '.' cs
  let (taken, rest) := takeDigits 3 cs
  if taken.isEmpty then none
  else return (numberOf taken * tenTo (3 - taken.length), rest)

/-- The seconds at the front of a text, after a colon, with a fraction if one is written. -/
def seconds? (cs : List Char) : Option (Nat × Nat × List Char) := do
  let (seconds, cs) ← numberIn? 1 2 (← after? ':' cs)
  match fraction? cs with
  | some (milliseconds, cs) => return (seconds, milliseconds, cs)
  | none => return (seconds, 0, cs)

/-- A time at the front of a text: hours and minutes, then seconds if they are written. -/
def shape? (cs : List Char) : Option (Time × List Char) := do
  let (hours, cs) ← numberIn? 1 2 cs
  let (minutes, cs) ← numberIn? 1 2 (← after? ':' cs)
  match seconds? cs with
  | some (seconds, milliseconds, cs) => return (⟨hours, minutes, seconds, milliseconds⟩, cs)
  | none => return (⟨hours, minutes, 0, 0⟩, cs)

def checked (time : Time) : Except CalendarFault Time :=
  match time.fault? with
  | some part => .error (.time time part)
  | none => .ok time

/-- The time of day that a text spells, with a fault for one that does not exist. -/
def read (text : String) : Except CalendarFault (Option Time) :=
  match shape? text.toList with
  | some (time, []) => time.checked.map some
  | _ => .ok none

end Time

/-- A date and a time with `T` between, at the front of a text. -/
def dateTimeShape? (cs : List Char) : Option ((Date × Time) × List Char) := do
  let (date, cs) ← Date.shape? cs
  let (time, cs) ← Time.shape? (← after? 'T' cs)
  return ((date, time), cs)

/-- A text read as a date and a time. A fault of the date is told before one of the time. -/
def readDateTime (text : String) : Except CalendarFault (Option (Date × Time)) :=
  match dateTimeShape? text.toList with
  | some ((date, time), []) => do
    let date ← date.checked
    let time ← time.checked
    return some (date, time)
  | _ => .ok none

end Sift

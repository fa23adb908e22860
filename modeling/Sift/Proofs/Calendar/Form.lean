import Sift.Expression
import Sift.Proofs.Calendar.Written

namespace Sift

/-- A date, a time of day, or both. -/
inductive CalendarForm where
  | date
  | time
  | dateTime
  deriving DecidableEq, Repr

namespace CalendarForm

/-- The literals of a form. -/
abbrev Literal : CalendarForm → Type
  | date => Date
  | time => Time
  | dateTime => Date × Time

/-- What a literal is written as. -/
def written : (form : CalendarForm) → form.Literal → List Char
  | date, d => Date.written d
  | time, t => Time.written t
  | dateTime, (d, t) => Date.written d ++ 'T' :: Time.written t

def text (form : CalendarForm) (literal : form.Literal) : String :=
  String.ofList (form.written literal)

/-- The bound of an interval that a literal makes. -/
def boundary : (form : CalendarForm) → form.Literal → Boundary
  | date, d => .date d
  | time, t => .time t
  | dateTime, (d, t) => .dateTime d t

/-- Why a literal does not exist. A fault of the date is told before one of the time. -/
def fault? : (form : CalendarForm) → form.Literal → Option CalendarFault
  | date, d => (Date.fault? d).map (.date d)
  | time, t => (Time.fault? t).map (.time t)
  | dateTime, (d, t) => ((Date.fault? d).map (.date d)).or ((Time.fault? t).map (.time t))

/-- The literal of a form that a text spells, if it spells any. -/
def read : (form : CalendarForm) → String → Except CalendarFault (Option form.Literal)
  | date, cs => Date.read cs
  | time, cs => Time.read cs
  | dateTime, cs => readDateTime cs

/-- A literal that exists, in a year of four digits. -/
def IsOrdinary : (form : CalendarForm) → form.Literal → Prop
  | date, d => Date.IsOrdinary d
  | time, t => Time.fault? t = none
  | dateTime, (d, t) => Date.IsOrdinary d ∧ Time.fault? t = none

/-- Ordinary literals are read back from what they are written as. -/
theorem read_text {form : CalendarForm} {literal : form.Literal} (ordinary : form.IsOrdinary literal) :
    form.read (form.text literal) = .ok (some literal) := by
  cases form with
  | date =>
    have back : Date.read (Date.text literal) = .ok (some literal) := Date.read_text ordinary
    exact back
  | time =>
    have back : Time.read (Time.text literal) = .ok (some literal) := Time.read_text ordinary
    exact back
  | dateTime =>
    obtain ⟨d, t⟩ := literal
    have back : readDateTime (dateTimeText d t) = .ok (some (d, t)) := readDateTime_text ordinary.1 ordinary.2
    exact back

end CalendarForm

end Sift

import Sift.Calendar.Basic
import Sift.Text.Pieces
import Sift.Token.Basic

namespace Sift

/-- What the grammar would have taken. -/
inductive Expected where
  | propertyName
  | equalSign
  | closingParenthesis
  | closingBracket
  | closingQuote
  | value
  | wildcardPattern
  | intervalBound
  | whitespace
  | keywordTo
  | endOfStar
  | classMember
  | ascendingRange
  | validDate
  | validTime
  | validDateTime
  | endOfInput
  | endOfCriterion
  | endOfPath
  deriving DecidableEq, Repr

namespace Expected

def text : Expected → String
  | propertyName => "property name"
  | equalSign => "'='"
  | closingParenthesis => "')'"
  | closingBracket => "']'"
  | closingQuote => "closing '\"'"
  | value => "value"
  | wildcardPattern => "wildcard pattern"
  | intervalBound => "interval bound"
  | whitespace => "whitespace"
  | keywordTo => "'TO'"
  | endOfStar => "whitespace or ']'"
  | classMember => "character class member"
  | ascendingRange => "ascending character range"
  | validDate => "valid date literal"
  | validTime => "valid time literal"
  | validDateTime => "valid date-time literal"
  | endOfInput => "end of input"
  | endOfCriterion => "'&' or end of input"
  | endOfPath => "'.' or end of input"

end Expected

/-- What stood in the text instead. -/
inductive Found where
  | token (token : Token)
  | endOfInput
  | range (first last : Char)
  | calendar (fault : CalendarFault)
  deriving DecidableEq, Repr

namespace Found

def text : Found → String
  | token t => "'" ++ t.text ++ "'"
  | endOfInput => "end of input"
  | range first last => String.ofList ['\'', first, '-', last, '\'']
  | calendar fault => fault.message

end Found

/-- Where a rule did not match, and what it would have taken there. It is kept as the tokens that were left, so
that the one with fewer left got further. -/
structure Failure where
  /-- The tokens from the place of the failure to the end. -/
  rest : List Token
  expected : List Expected
  /-- What stood there, where it is more than one token. Such a failure is final: the text was
  meant for the rule that failed, and no other rule is tried. -/
  found : Option Found
  deriving DecidableEq, Repr

namespace Failure

/-- A failure to find one thing, after which other rules may be tried. -/
def missing (expected : Expected) (rest : List Token) : Failure :=
  ⟨rest, [expected], none⟩

def final (expected : Expected) (found : Found) (rest : List Token) : Failure :=
  ⟨rest, [expected], some found⟩

def isFinal (failure : Failure) : Bool :=
  failure.found.isSome

/-- Of two failures the one that got further. Where both stand at one place, it expects what either
of them expects. -/
def furthest (first second : Failure) : Failure :=
  if first.rest.length < second.rest.length then first
  else if second.rest.length < first.rest.length then second
  else { first with expected := first.expected ++ second.expected.filter (· ∉ first.expected) }

end Failure

/-- What a rule gives: a value and the tokens after it, or a failure. -/
abbrev Step (α : Type) :=
  Except Failure (α × List Token)

namespace Step

def missing {α : Type} (expected : Expected) (rest : List Token) : Step α :=
  .error (.missing expected rest)

def cons {α : Type} (item : α) (step : Step (List α)) : Step (List α) :=
  step.map fun (others, rest) => (item :: others, rest)

theorem cons_eq_ok {α : Type} {item : α} {step : Step (List α)} {items : List α}
    {rest : List Token} :
    cons item step = .ok (items, rest) ↔
      ∃ others, step = .ok (others, rest) ∧ items = item :: others := by
  cases step with
  | error failure => simp [cons, Except.map]
  | ok result =>
    obtain ⟨others, left⟩ := result
    simp only [cons, Except.map, Except.ok.injEq, Prod.mk.injEq]
    constructor
    · rintro ⟨rfl, rfl⟩
      exact ⟨others, ⟨rfl, rfl⟩, rfl⟩
    · rintro ⟨_, ⟨rfl, rfl⟩, rfl⟩
      exact ⟨rfl, rfl⟩

/-- The first of two rules that matches. A final failure of the first one stands. -/
def orElse {α : Type} (first : Step α) (second : Unit → Step α) : Step α :=
  match first with
  | .ok result => .ok result
  | .error failure =>
    if failure.isFinal then .error failure
    else
      match second () with
      | .ok result => .ok result
      | .error other => .error (if other.isFinal then other else failure.furthest other)

end Step

end Sift

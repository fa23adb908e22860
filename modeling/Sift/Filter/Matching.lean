import Sift.Filter.Comparison
import Sift.Text.Pieces

namespace Sift

namespace Json

/-- The items of an array. Any other value is its own single item. -/
def elements : Json → List Json
  | array items => items
  | json => [json]

/-- The values one step from some values, into a field of each of their items that has it. -/
def step (values : List Json) (name : String) : List Json :=
  (values.flatMap elements).filterMap (·.get? name)

/-- The values that a path leads to, through objects and through the items of arrays on the way. -/
def reached (document : Json) (path : String) : List Json :=
  ((pieces '.' path.toList).map String.ofList).foldl step [document]

/-- The values at a path that a test looks at. A path that leads nowhere is as one to null. -/
def candidates (document : Json) (path : String) : List Json :=
  match document.reached path with
  | [] => [null]
  | values => values

/-- Whether a text, an array or an object is empty. Other values are neither. -/
def isEmpty? : Json → Option Bool
  | string text => some text.toList.isEmpty
  | array items => some items.isEmpty
  | object fields => some fields.isEmpty
  | _ => none

def isNull : Json → Bool
  | null => true
  | _ => false

end Json

/-- Whether a text stands somewhere in another one. -/
def occursIn (part : List Char) : List Char → Bool
  | [] => part.isEmpty
  | c :: cs => part.isPrefixOf (c :: cs) || occursIn part cs

namespace Operator

/-- The operator that a negated one is the opposite of. Orders have no negated form: their
opposites are orders again. -/
def positive : Operator → Operator
  | notEqual => equal
  | notContains => contains
  | notStartsWith => startsWith
  | notEndsWith => endsWith
  | operator => operator

/-- Whether an operator without value holds of a field's value. -/
def holdsOf (operator : Operator) (json : Json) : Bool :=
  match operator with
  | isNull => json.isNull
  | isNotNull => !json.isNull
  | isEmpty => json.isEmpty? == some true
  | isNotEmpty => json.isEmpty? == some false
  | _ => false

/-- Whether a text condition holds of the text of a value and the text of a test. -/
def holdsText (condition : List Char → List Char → Bool) (json : Json) (operand : Operand) : Bool :=
  match json.plain? with
  | some text => condition operand.text.toList text.toList
  | none => false

/-- Whether an operator that is not negated holds between a field's value and a test's. -/
def holds (operator : Operator) (json : Json) (operand : Operand) : Bool :=
  match operator with
  | equal => json.compare? operand == some .eq
  | greater => json.compare? operand == some .gt
  | greaterOrEqual => json.compare? operand == some .gt || json.compare? operand == some .eq
  | less => json.compare? operand == some .lt
  | lessOrEqual => json.compare? operand == some .lt || json.compare? operand == some .eq
  | contains => holdsText occursIn json operand
  | startsWith => holdsText List.isPrefixOf json operand
  | endsWith => holdsText List.isSuffixOf json operand
  | _ => false

end Operator

namespace Test

/-- Whether a document passes a test. A test that lacks its value is passed by none. A test of several values
holds if it holds of one of them, and a negated test holds if the test itself does not. -/
def accepts (test : Test) (document : Json) : Bool :=
  let candidates := document.candidates test.field
  if test.operator.isUnary then candidates.any test.operator.holdsOf
  else
    match test.operand with
    | none => false
    | some operand =>
      let hit := (candidates.flatMap Json.elements).any (test.operator.positive.holds · operand)
      if test.operator.positive = test.operator then hit else !hit

end Test

namespace Filter

mutual

/-- Whether a document meets a filter. -/
def accepts (document : Json) : Filter → Bool
  | always => true
  | test t => t.accepts document
  | join .and parts => acceptsAll document parts
  | join .or parts => acceptsSome document parts
  | not inner => !inner.accepts document

def acceptsAll (document : Json) : List Filter → Bool
  | [] => true
  | f :: fs => f.accepts document && acceptsAll document fs

def acceptsSome (document : Json) : List Filter → Bool
  | [] => false
  | f :: fs => f.accepts document || acceptsSome document fs

end

theorem acceptsAll_eq_all (document : Json) (fs : List Filter) :
    acceptsAll document fs = fs.all (accepts document) := by
  induction fs with
  | nil => rfl
  | cons f fs ih => simp only [acceptsAll, ih, List.all_cons]

theorem acceptsSome_eq_any (document : Json) (fs : List Filter) :
    acceptsSome document fs = fs.any (accepts document) := by
  induction fs with
  | nil => rfl
  | cons f fs ih => simp only [acceptsSome, ih, List.any_cons]

end Filter

end Sift

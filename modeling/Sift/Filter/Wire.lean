import Sift.Filter.Basic
import Sift.Json.Printer
import Sift.Json.Reader

namespace Sift

/-- In which order the keys of an object are written. -/
inductive KeyOrder where
  /-- Ascending, as objects hold them. -/
  | ascending
  /-- The telling key first. -/
  | tellingFirst
  deriving DecidableEq, Repr

namespace Operand

def toJson : Operand → Json
  | string text => .string text
  | integer n fits => .number (.int n ⟨fits.1, Int.lt_trans fits.2 (by decide)⟩)
  | float x => .ofBinary64 x
  | boolean b => .bool b
  | date d => .string d.text
  | time t => .string t.text
  | dateTime d t => .string (dateTimeText d t)

/-- The value that JSON stands for. An integer too large for its type is read as a number in
binary64. -/
def ofJson : Json → Except QueryError Operand
  | .string text => .ok (string text)
  | .bool b => .ok (boolean b)
  | .number (.int n fits) =>
    if small : n < 9223372036854775808 then .ok (integer n ⟨fits.1, small⟩)
    else .ok (float (.ofInt n))
  | .number (.float x) => .ok (float (.finite x))
  | json => .error (.unsupportedValue json.text)

end Operand

namespace Test

/-- The JSON of a test. A test without value has no key for it. -/
def toJson (test : Test) : Json :=
  .object <|
    [("field", .string test.field), ("op", .string test.operator.code)] ++
      (test.operand.map fun operand => ("value", operand.toJson)).toList

end Test

namespace Filter

def joinJson (order : KeyOrder) (logic : Logic) (parts : List Json) : Json :=
  match order with
  | .ascending => .object [("filters", .array parts), ("logic", .string logic.code)]
  | .tellingFirst => .object [("logic", .string logic.code), ("filters", .array parts)]

mutual

def wire (order : KeyOrder) : Filter → Json
  | always => joinJson order .and []
  | test t => t.toJson
  | join logic parts => joinJson order logic (wireAll order parts)
  | not inner => .object [("not", inner.wire order)]

def wireAll (order : KeyOrder) : List Filter → List Json
  | [] => []
  | f :: fs => f.wire order :: wireAll order fs

end

/-- The JSON of a filter. A test has the keys `field`, `op` and `value`, a join `logic` and `filters`, a
negation `not`; an empty "and" is the filter that every document meets. Dates and times travel as text and come
back as text. -/
def toJson (filter : Filter) : Json :=
  filter.wire .ascending

def encode (filter : Filter) : String :=
  filter.toJson.text

/-- The JSON text of a filter with the telling key of each object first. -/
def serialized (filter : Filter) : String :=
  (filter.wire .tellingFirst).text

end Filter

/-- JSON with the shape of a filter. Which operators and logics there are, and which of them take
values, is not looked at yet. -/
inductive Wire where
  | negation (inner : Wire)
  | composite (logic : String) (filters : List Wire)
  | leaf (field code : String) (value : Option Json)
  deriving Repr

namespace Wire

def text? (key : String) (fields : List (String × Json)) : Option String :=
  match Json.field? key fields with
  | some (.string text) => some text
  | _ => none

/-- The value of a test. Null is as no value. -/
def value? (fields : List (String × Json)) : Option Json :=
  match Json.field? "value" fields with
  | some .null => none
  | value => value

mutual

/-- The shape of a filter that a value has. A negation is looked for first, then a join, then a
test; keys of no use to the shape are passed over. -/
def ofJson? : Json → Option Wire
  | .object fields =>
    match negated? fields with
    | some inner => some (negation inner)
    | none =>
      match text? "logic" fields, joined? fields with
      | some logic, some filters => some (composite logic filters)
      | _, _ =>
        match text? "field" fields, text? "op" fields with
        | some field, some code => some (leaf field code (value? fields))
        | _, _ => none
  | _ => none

/-- The shape of the value under `not`. -/
def negated? : List (String × Json) → Option Wire
  | [] => none
  | (key, value) :: fields => if key = "not" then ofJson? value else negated? fields

/-- The shapes of the items under `filters`. -/
def joined? : List (String × Json) → Option (List Wire)
  | [] => none
  | (key, value) :: fields => if key = "filters" then itemsOf? value else joined? fields

def itemsOf? : Json → Option (List Wire)
  | .array items => allOf? items
  | _ => none

def allOf? : List Json → Option (List Wire)
  | [] => some []
  | json :: rest =>
    match ofJson? json with
    | none => none
    | some wire => (allOf? rest).map (wire :: ·)

end

/-- The test that a shape stands for. Its value must be there exactly if its operator takes one. -/
def toTest (field code : String) (value : Option Json) : Except QueryError Test :=
  match Operator.ofCode code with
  | .error error => .error error
  | .ok operator =>
    match operator.isUnary, value with
    | true, none => .ok ⟨field, operator, none⟩
    | true, some .null => .ok ⟨field, operator, none⟩
    | true, some _ => .error (.malformedFilter (.unwantedValue code))
    | false, none => .error (.malformedFilter (.missingValue code))
    | false, some json => (Operand.ofJson json).map fun operand => ⟨field, operator, some operand⟩

mutual

def toFilter : Wire → Except QueryError Filter
  | negation inner => inner.toFilter.map Filter.not
  | leaf field code value => (toTest field code value).map Filter.test
  | composite name filters =>
    match Logic.ofCode? name with
    | none => .error (.malformedFilter (.unknownLogic name))
    | some logic =>
      match logic, filters with
      | .and, [] => .ok .always
      | _, [] => .error (.malformedFilter (.tooFewParts logic))
      | _, [_] => .error (.malformedFilter (.tooFewParts logic))
      | _, first :: second :: rest => (toFilters (first :: second :: rest)).map (Filter.join logic)

def toFilters : List Wire → Except QueryError (List Filter)
  | [] => .ok []
  | w :: ws =>
    match w.toFilter with
    | .error error => .error error
    | .ok filter => (toFilters ws).map (filter :: ·)

end

end Wire

namespace Filter

def ofJson (json : Json) : Except QueryError Filter :=
  match Wire.ofJson? json with
  | none => .error (.malformedFilter .noShape)
  | some wire => wire.toFilter

/-- The filter that a text on the wire stands for. -/
def decode (text : String) : Except QueryError Filter :=
  match Json.read? text with
  | none => .error (.malformedFilter .notJson)
  | some json => ofJson json

end Filter

namespace QueryError

/-- The wording of a refusal where it becomes part of the message of another reader. That a value
has no shape at all is told by that reader itself, without the words in front. -/
def plainMessage : QueryError → String
  | malformedFilter .noShape => WireFault.noShape.message
  | error => error.message

end QueryError

end Sift

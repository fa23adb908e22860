import Sift.Binary64.Reader
import Sift.Binary64.Shortest
import Sift.Calendar.Basic
import Sift.Error

namespace Sift

/-- How a test compares a field with a value. The last four look at the field alone. -/
inductive Operator where
  | equal
  | notEqual
  | contains
  | notContains
  | startsWith
  | notStartsWith
  | endsWith
  | notEndsWith
  | greater
  | greaterOrEqual
  | less
  | lessOrEqual
  | isNull
  | isNotNull
  | isEmpty
  | isNotEmpty
  deriving DecidableEq, Repr

namespace Operator

def all : List Operator :=
  [equal, notEqual, contains, notContains, startsWith, notStartsWith, endsWith, notEndsWith,
    greater, greaterOrEqual, less, lessOrEqual, isNull, isNotNull, isEmpty, isNotEmpty]

def isUnary : Operator → Bool
  | isNull | isNotNull | isEmpty | isNotEmpty => true
  | _ => false

def negated : Operator → Operator
  | equal => notEqual
  | notEqual => equal
  | contains => notContains
  | notContains => contains
  | startsWith => notStartsWith
  | notStartsWith => startsWith
  | endsWith => notEndsWith
  | notEndsWith => endsWith
  | greater => lessOrEqual
  | greaterOrEqual => less
  | less => greaterOrEqual
  | lessOrEqual => greater
  | isNull => isNotNull
  | isNotNull => isNull
  | isEmpty => isNotEmpty
  | isNotEmpty => isEmpty

def code : Operator → String
  | equal => "eq"
  | notEqual => "neq"
  | contains => "contains"
  | notContains => "ncontains"
  | startsWith => "startswith"
  | notStartsWith => "nstartswith"
  | endsWith => "endswith"
  | notEndsWith => "nendswith"
  | greater => "gt"
  | greaterOrEqual => "gte"
  | less => "lt"
  | lessOrEqual => "lte"
  | isNull => "isnull"
  | isNotNull => "isnotnull"
  | isEmpty => "isempty"
  | isNotEmpty => "isnotempty"

def ofCode (code : String) : Except QueryError Operator :=
  match all.find? (·.code = code) with
  | some operator => .ok operator
  | none => .error (.unknownOperator code)

theorem mem_all (operator : Operator) : operator ∈ all := by
  cases operator <;> decide

theorem negated_negated (operator : Operator) : operator.negated.negated = operator := by
  cases operator <;> rfl

theorem isUnary_negated (operator : Operator) : operator.negated.isUnary = operator.isUnary := by
  cases operator <;> rfl

/-- Every operator is known by its code. -/
theorem ofCode_code (operator : Operator) : ofCode operator.code = .ok operator := by
  cases operator <;> rfl

end Operator

/-- A value that a field is compared with. Integers have 64 bits, one of them for the sign. -/
inductive Operand where
  | string (text : String)
  | integer (value : Int) (fits : -9223372036854775808 ≤ value ∧ value < 9223372036854775808)
  | float (value : Binary64)
  | boolean (value : Bool)
  | date (date : Date)
  | time (time : Time)
  | dateTime (date : Date) (time : Time)
  deriving DecidableEq, Repr

def boolText (value : Bool) : String :=
  if value then "true" else "false"

def readBool? : String → Option Bool
  | "true" => some true
  | "false" => some false
  | _ => none

namespace Operand

def text : Operand → String
  | string s => s
  | integer n _ => String.ofList (integerText n)
  | float x => String.ofList x.plainText
  | boolean b => boolText b
  | date d => d.text
  | time t => t.text
  | dateTime d t => dateTimeText d t

end Operand

/-- A test of one field of a document. The field may be a dotted path. -/
structure Test where
  field : String
  operator : Operator
  operand : Option Operand
  deriving DecidableEq, Repr

namespace Test

def negated (test : Test) : Test :=
  { test with operator := test.operator.negated }

end Test

/-- A condition on a document: a tree of tests on its fields, joined by "and" and "or". Joining and negating
keep a tree in normal form: no join within a join of the same logic, and no negated test. -/
inductive Filter where
  /-- The condition that every document meets. -/
  | always
  | test (test : Test)
  | join (logic : Logic) (parts : List Filter)
  | not (inner : Filter)
  deriving Repr

namespace Filter

/-- Whether a filter is the one that every document meets. -/
def isAlways : Filter → Bool
  | always => true
  | _ => false

/-- What a filter brings into a join: the parts of a join of the same logic, nothing if every
document meets it, otherwise itself. -/
def partsIn (logic : Logic) : Filter → List Filter
  | join inner parts => if inner = logic then parts else [join inner parts]
  | always => []
  | filter => [filter]

def ofParts (logic : Logic) : List Filter → Filter
  | [] => always
  | [part] => part
  | parts => join logic parts

/-- Filters joined by a logic. A filter that every document meets is left out of an "and" and
makes an "or" such a filter too. -/
def joined (logic : Logic) (filters : List Filter) : Filter :=
  if logic = .or ∧ filters.any isAlways then always
  else ofParts logic (filters.flatMap (partsIn logic))

/-- The opposite condition. A test gets the opposite operator, and a negation is taken off. -/
def negated : Filter → Filter
  | test t => test t.negated
  | not inner => inner
  | filter => not filter

def comparing (field : String) (operator : Operator) (operand : Operand) : Filter :=
  test ⟨field, operator, some operand⟩

def probing (field : String) (operator : Operator) : Filter :=
  test ⟨field, operator, none⟩

end Filter

end Sift

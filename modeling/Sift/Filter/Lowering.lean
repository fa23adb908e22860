import Sift.Filter.Basic

namespace Sift

namespace Boundary

def operand? : Boundary → Option Operand
  | unbounded => none
  | constant text => some (.string text)
  | date d => some (.date d)
  | time t => some (.time t)
  | dateTime d t => some (.dateTime d t)

/-- The test of a field against a bound, if there is one. -/
def tests (field : String) (operator : Operator) (boundary : Boundary) : List Filter :=
  boundary.operand?.toList.map (Filter.comparing field operator)

end Boundary

namespace Expression

mutual

/-- The filter that an expression is for a field. Groups leave no trace, and the variants of a class become
alternatives. -/
def filter (field : String) : Expression → Filter
  | anything => .always
  | constant text => .comparing field .equal (.string text)
  | startsWith text => .comparing field .startsWith (.string text)
  | endsWith text => .comparing field .endsWith (.string text)
  | contains text => .comparing field .contains (.string text)
  | oneOf variants => .joined .or (filters field variants)
  | interval min max =>
    .joined .and (min.tests field .greaterOrEqual ++ max.tests field .lessOrEqual)
  | group inner => inner.filter field
  | and left right => .joined .and [left.filter field, right.filter field]
  | or left right => .joined .or [left.filter field, right.filter field]
  | not inner => (inner.filter field).negated
  | path p => .comparing field .equal (.string p.dotted)
  | date d => .comparing field .equal (.date d)
  | time t => .comparing field .equal (.time t)
  | dateTime d t => .comparing field .equal (.dateTime d t)

def filters (field : String) : List Expression → List Filter
  | [] => []
  | e :: es => e.filter field :: filters field es

end

theorem filters_eq_map (field : String) (es : List Expression) :
    filters field es = es.map (filter field) := by
  induction es with
  | nil => rfl
  | cons e es ih => simp only [filters, ih, List.map_cons]

end Expression

namespace Criterion

/-- The filter that a criterion is: its expression for the field that its path names. -/
def filter (criterion : Criterion) : Filter :=
  criterion.expression.filter criterion.property.dotted

/-- The filter that all criteria of a query are together. -/
def filterAll (criteria : List Criterion) : Filter :=
  .joined .and (criteria.map filter)

end Criterion

end Sift

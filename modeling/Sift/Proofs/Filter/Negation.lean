import Sift.Proofs.Filter.Acceptance
import Sift.Proofs.Grammar.Placement
import Sift.Proofs.Grammar.Printing

namespace Sift

/-- Some fail exactly where not all hold only if all answers are the same. -/
theorem any_not_eq_not_any_iff {α : Type} {p : α → Bool} {xs : List α} :
    xs.any (fun x => !p x) = !xs.any p ↔ xs ≠ [] ∧ ∃ answer, ∀ x ∈ xs, p x = answer := by
  constructor
  · intro opposite
    refine ⟨?_, xs.any p, fun x member => ?_⟩
    · rintro rfl
      cases opposite
    cases some : xs.any p with
    | true =>
      rw [some, Bool.not_true, List.any_eq_false] at opposite
      simpa using opposite x member
    | false => exact Bool.eq_false_iff.mpr (List.any_eq_false.mp some x member)
  · rintro ⟨nonempty, answer, same⟩
    obtain ⟨x, member⟩ := List.exists_mem_of_ne_nil xs nonempty
    cases answer with
    | true =>
      have everywhere : xs.any (fun x => !p x) = false :=
        List.any_eq_false.mpr fun y within => by simp [same y within]
      rw [everywhere, List.any_eq_true.mpr ⟨x, member, same x member⟩, Bool.not_true]
    | false =>
      have nowhere : xs.any p = false := List.any_eq_false.mpr fun y within => by simp [same y within]
      rw [nowhere]
      exact List.any_eq_true.mpr ⟨x, member, by simp [same x member]⟩

namespace Operator

/-- Whether an operator that looks for an order holds where this is the order. -/
def admits : Operator → Ordering → Bool
  | greater, order => order == .gt
  | greaterOrEqual, order => order == .gt || order == .eq
  | less, order => order == .lt
  | lessOrEqual, order => order == .lt || order == .eq
  | _, _ => false

/-- The opposite of an order takes the orders that it does not. -/
theorem admits_negated {operator : Operator} (ordered : operator.isOrder = true) (order : Ordering) :
    operator.negated.admits order = !operator.admits order := by
  cases operator <;> cases ordered <;> cases order <;> rfl

theorem isOrder_negated (operator : Operator) : operator.negated.isOrder = operator.isOrder := by
  cases operator <;> rfl

theorem holds_eq_any_admits {operator : Operator} (ordered : operator.isOrder = true) (json : Json)
    (operand : Operand) : operator.holds json operand = (json.compare? operand).any operator.admits := by
  cases operator <;> cases ordered <;> cases compared : json.compare? operand <;>
    simp [holds, admits, compared]

theorem isUnary_of_isOrder {operator : Operator} (ordered : operator.isOrder = true) :
    operator.isUnary = false := by
  cases operator <;> cases ordered <;> rfl

theorem positive_of_isOrder {operator : Operator} (ordered : operator.isOrder = true) :
    operator.positive = operator := by
  cases operator <;> cases ordered <;> rfl

end Operator

namespace Test

/-- How the values at the field of a test compare with its own, for those that do. -/
def orders (t : Test) (document : Json) : List Ordering :=
  match t.operand with
  | none => []
  | some operand => ((document.reached t.field).flatMap Json.elements).filterMap (·.compare? operand)

/-- Some value at the field of a test can be compared with its own, and all that can be have one
answer to it. -/
def Decided (t : Test) (document : Json) : Prop :=
  t.orders document ≠ [] ∧ ∃ answer, ∀ order ∈ t.orders document, t.operator.admits order = answer

theorem orders_negated (t : Test) (document : Json) : t.negated.orders document = t.orders document :=
  rfl

/-- A test of order holds if one of the orders it finds is one that it takes. -/
theorem accepts_eq_any_orders {t : Test} (ordered : t.operator.isOrder = true) (document : Json) :
    t.accepts document = (t.orders document).any t.operator.admits := by
  obtain ⟨field, operator, operand⟩ := t
  simp only at ordered
  cases operand with
  | none => simp only [accepts, Operator.isUnary_of_isOrder ordered, orders, Bool.false_eq_true, if_false,
      List.any_nil]
  | some operand =>
    have sought := Filter.accepts_comparing (Operator.isUnary_of_isOrder ordered)
      (Operator.positive_of_isOrder ordered) document field operand
    rw [Filter.comparing, Filter.accepts] at sought
    rw [sought, orders, List.any_filterMap]
    exact congrArg _ (funext fun json => Operator.holds_eq_any_admits ordered json operand)

/-- An order test and its opposite have opposite answers just where the document decides the test. -/
theorem accepts_negated_iff_decided {t : Test} (ordered : t.operator.isOrder = true) (document : Json) :
    t.negated.accepts document = (!t.accepts document) ↔ t.Decided document := by
  have opposite : t.negated.operator.isOrder = true := (Operator.isOrder_negated t.operator).trans ordered
  have flipped : t.negated.operator.admits = fun order => !t.operator.admits order :=
    funext (Operator.admits_negated ordered)
  rw [accepts_eq_any_orders opposite, accepts_eq_any_orders ordered, orders_negated, flipped]
  exact any_not_eq_not_any_iff

end Test

/-- A negated filter is the opposite unless it is a test of order that is not decided. -/
theorem Filter.accepts_negated_iff {f : Filter} (formed : f.WellFormed Test.Compares) (document : Json) :
    f.negated.accepts document = (!f.accepts document) ↔
      ∀ t, f = .test t → t.operator.isOrder = true → t.Decided document := by
  by_cases ordered : ∃ t, f = .test t ∧ t.operator.isOrder = true
  · obtain ⟨t, rfl, ordered⟩ := ordered
    refine (Test.accepts_negated_iff_decided ordered document).trans ⟨?_, fun decided => decided t rfl ordered⟩
    rintro decided _ ⟨⟩ -
    exact decided
  · have unordered : ∀ t, f = .test t → t.operator.isOrder = false := fun t isTest =>
      Bool.eq_false_iff.mpr fun isOrder => ordered ⟨t, isTest, isOrder⟩
    refine iff_of_true (accepts_negated formed unordered document) fun t isTest isOrder => ?_
    exact absurd ⟨t, isTest, isOrder⟩ ordered

namespace Expression

/-- The negation of an expression, with brackets put around its text, is an expression. It has the
opposite answer of a document but where the expression is a single order test that the document does
not decide. -/
theorem accepts_read_negation_iff {text : String} {e : Expression} (read : Expression.read text = .ok e)
    (field : String) (document : Json) :
    ∃ opposite, Expression.read ("!(" ++ text ++ ")") = .ok opposite ∧
      ((opposite.filter field).accepts document = (!(e.filter field).accepts document) ↔
        ∀ t, e.filter field = .test t → t.operator.isOrder = true → t.Decided document) :=
  ⟨.not (.group e), read_negation read, Filter.accepts_negated_iff (e.filter_wellFormed field) document⟩

/-- At least ten. -/
def tenOrMore : Expression :=
  .interval (.constant "10") .unbounded

theorem read_tenOrMore : Expression.read "[10 TO *]" = .ok tenOrMore := by
  have printable : isWord "10" = true := by decide
  exact read_written (.first (.first (.interval (.constant "10") .unbounded printable trivial)))

/-- Text that spells a number has an order to one, so the negation is the opposite there. -/
theorem accepts_read_negation_thirty :
    Expression.read "[10 TO *]" = .ok tenOrMore ∧ ∃ opposite, Expression.read "!([10 TO *])" = .ok opposite ∧
      (opposite.filter "Age").accepts (.object [("Age", .string "30")]) =
        (!(tenOrMore.filter "Age").accepts (.object [("Age", .string "30")])) := by
  obtain ⟨opposite, read, agrees⟩ := accepts_read_negation_iff read_tenOrMore "Age"
    (.object [("Age", .string "30")])
  refine ⟨read_tenOrMore, opposite, read, agrees.mpr ?_⟩
  rintro _ ⟨⟩ -
  have order : Test.orders ⟨"Age", .greaterOrEqual, some (.string "10")⟩
      (.object [("Age", .string "30")]) = [.gt] := by decide
  rw [Test.Decided, order]
  exact ⟨List.cons_ne_nil _ _, true, by decide⟩

/-- A document without the field is in neither of an interval and its negation. -/
theorem rejects_read_negation_missing :
    Expression.read "[10 TO *]" = .ok tenOrMore ∧ ∃ opposite, Expression.read "!([10 TO *])" = .ok opposite ∧
      (tenOrMore.filter "Age").accepts (.object []) = false ∧
      (opposite.filter "Age").accepts (.object []) = false :=
  ⟨read_tenOrMore, .not (.group tenOrMore), read_negation read_tenOrMore, by decide, by decide⟩

end Expression

end Sift

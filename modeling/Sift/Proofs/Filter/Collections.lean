import Sift.Proofs.Filter.Intervals

namespace Sift

/-- Whether a value is neither an array nor an object. -/
def Json.isScalar : Json → Bool
  | array _ | object _ => false
  | _ => true

theorem Json.elements_of_isScalar {json : Json} (scalar : json.isScalar = true) : json.elements = [json] := by
  cases json with
  | array items => cases scalar
  | _ => rfl

namespace Boundary

/-- A bound asks for one value only. -/
theorem met_iff_exists {boundary : Boundary} {orders : List Ordering} {values : List Json} :
    boundary.Met orders values ↔ boundary = .unbounded ∨ ∃ value ∈ values, boundary.Met orders [value] := by
  cases boundary <;> simp [Met, Operand.MetBy]

/-- A bound is met by an array if it is met by one of its items. -/
theorem met_items {boundary : Boundary} {orders : List Ordering} {items : List Json}
    (scalar : ∀ item ∈ items, item.isScalar = true) :
    boundary.Met orders items ↔ boundary = .unbounded ∨ ∃ item ∈ items, boundary.Met orders item.elements := by
  rw [met_iff_exists]
  refine or_congr_right (exists_congr fun item => and_congr_right fun member => ?_)
  rw [Json.elements_of_isScalar (scalar item member)]

end Boundary

namespace Expression

variable {field : String} {min max : Boundary} {items : List Json}

/-- An interval on a field looks at the value there, or at its items. -/
theorem accepts_interval_field (plain : '.' ∉ field.toList) (value : Json) :
    ((interval min max).filter field).accepts (.object [(field, value)]) = true ↔
      min.Met [.gt, .eq] value.elements ∧ max.Met [.lt, .eq] value.elements := by
  rw [Filter.accepts_interval, Json.valuesAlong_field plain]

theorem accepts_from_field (plain : '.' ∉ field.toList) (value : Json) :
    ((interval min .unbounded).filter field).accepts (.object [(field, value)]) = true ↔
      min.Met [.gt, .eq] value.elements := by
  rw [accepts_interval_field plain, and_iff_left (CalendarForm.met_unbounded _ _)]

theorem accepts_upTo_field (plain : '.' ∉ field.toList) (value : Json) :
    ((interval .unbounded max).filter field).accepts (.object [(field, value)]) = true ↔
      max.Met [.lt, .eq] value.elements := by
  rw [accepts_interval_field plain, and_iff_right (CalendarForm.met_unbounded _ _)]

/-- Each bound of an interval is met by some item of an array. One item that lies in the interval is enough,
and there must be one if the interval has a single bound. -/
theorem accepts_interval_items (plain : '.' ∉ field.toList) (scalar : ∀ item ∈ items, item.isScalar = true)
    (min max : Boundary) :
    (((interval min max).filter field).accepts (.object [(field, .array items)]) = true ↔
      (min = .unbounded ∨
        ∃ item ∈ items, ((interval min .unbounded).filter field).accepts (.object [(field, item)]) = true) ∧
      (max = .unbounded ∨
        ∃ item ∈ items, ((interval .unbounded max).filter field).accepts (.object [(field, item)]) = true)) ∧
    ((∃ item ∈ items, ((interval min max).filter field).accepts (.object [(field, item)]) = true) →
      ((interval min max).filter field).accepts (.object [(field, .array items)]) = true) ∧
    (min = .unbounded ∨ max = .unbounded →
      (((interval min max).filter field).accepts (.object [(field, .array items)]) = true ↔
        (max = .unbounded ∧ min = .unbounded) ∨
          ∃ item ∈ items, ((interval min max).filter field).accepts (.object [(field, item)]) = true)) := by
  have sides : ((interval min max).filter field).accepts (.object [(field, .array items)]) = true ↔
      min.Met [.gt, .eq] items ∧ max.Met [.lt, .eq] items := accepts_interval_field plain (.array items)
  refine ⟨?_, ?_, ?_⟩
  · rw [sides, Boundary.met_items scalar, Boundary.met_items scalar]
    simp only [accepts_from_field plain, accepts_upTo_field plain]
  · rintro ⟨item, member, within⟩
    obtain ⟨atLeast, atMost⟩ := (accepts_interval_field plain item).mp within
    exact sides.mpr ⟨(Boundary.met_items scalar).mpr (.inr ⟨item, member, atLeast⟩),
      (Boundary.met_items scalar).mpr (.inr ⟨item, member, atMost⟩)⟩
  · rintro (rfl | rfl)
    · rw [sides, and_iff_right (CalendarForm.met_unbounded _ _), Boundary.met_items scalar, and_iff_left rfl]
      simp only [accepts_upTo_field plain]
    · rw [sides, and_iff_left (CalendarForm.met_unbounded _ _), Boundary.met_items scalar, and_iff_right rfl]
      simp only [accepts_from_field plain]

/-- One and ten, neither of which lies between three and five. -/
def apart : List Json :=
  [.number (.int 1 (by decide)), .number (.int 10 (by decide))]

theorem accepts_interval_items_apart :
    '.' ∉ "Age".toList ∧ (∀ item ∈ apart, item.isScalar = true) ∧
      ((interval (.constant "3") (.constant "5")).filter "Age").accepts (.object [("Age", .array apart)]) =
        true := by
  have plain : '.' ∉ "Age".toList := by decide
  have scalar : ∀ item ∈ apart, item.isScalar = true := by decide
  refine ⟨plain, scalar, (accepts_interval_items plain scalar _ _).1.mpr ⟨.inr ?_, .inr ?_⟩⟩
  · exact ⟨.number (.int 10 (by decide)), by simp [apart], by decide +kernel⟩
  · exact ⟨.number (.int 1 (by decide)), by simp [apart], by decide +kernel⟩

/-- The bounds are met by different items, and the interval by none of them. -/
theorem accepts_interval_without_item :
    ¬(((interval (.constant "3") (.constant "5")).filter "Age").accepts (.object [("Age", .array apart)]) = true ↔
      (Boundary.constant "5" = .unbounded ∧ Boundary.constant "3" = .unbounded) ∨
        ∃ item ∈ apart, ((interval (.constant "3") (.constant "5")).filter "Age").accepts
          (.object [("Age", item)]) = true) := by
  decide +kernel

end Expression

end Sift

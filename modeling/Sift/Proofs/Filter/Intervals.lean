import Sift.Proofs.Calendar.Chronology
import Sift.Proofs.Filter.Meaning

namespace Sift

/-- A document meets an interval if one value at the field meets the one bound, and one the other. -/
theorem Filter.accepts_interval {document : Json} {field : String} {min max : Boundary} :
    ((Expression.interval min max).filter field).accepts document = true ↔
      min.Met [.gt, .eq] (document.valuesAlong (PropertyPath.ofDotted field).segments) ∧
        max.Met [.lt, .eq] (document.valuesAlong (PropertyPath.ofDotted field).segments) := by
  rw [Expression.filter, accepts_joined_and, List.all_append, Bool.and_eq_true]
  refine and_congr (accepts_bound rfl rfl fun json operand => ?_) (accepts_bound rfl rfl fun json operand => ?_)
  · simp [Operator.holds]
  · simp [Operator.holds]

/-- Along one name are the items of the value there. -/
theorem Json.valuesAlong_field {field : String} (plain : '.' ∉ field.toList) (value : Json) :
    (object [(field, value)]).valuesAlong (PropertyPath.ofDotted field).segments = value.elements := by
  have segments : (PropertyPath.ofDotted field).segments = [field] := by
    rw [PropertyPath.ofDotted, pieces_of_not_mem plain, List.map_singleton, String.ofList_toList]
  rw [segments, ← valuesAlong_nil]
  simp [valuesAlong, alongField]

namespace CalendarForm

variable {form : CalendarForm}

/-- What a field is compared with for a bound that is a date or a time. It is text, and so is its order. -/
theorem operand?_boundary (literal : form.Literal) :
    ∃ operand, (form.boundary literal).operand? = some operand ∧
      ∀ text, (Json.string text).compare? operand = some (compareText text.toList (form.written literal)) := by
  have written : ∀ cs, (String.ofList cs).toList = cs := fun _ => String.toList_ofList
  cases form with
  | date => exact ⟨.date literal, rfl, fun text => congrArg (some <| compareText text.toList ·) (written _)⟩
  | time => exact ⟨.time literal, rfl, fun text => congrArg (some <| compareText text.toList ·) (written _)⟩
  | dateTime =>
    obtain ⟨d, t⟩ := literal
    exact ⟨.dateTime d t, rfl, fun text => congrArg (some <| compareText text.toList ·) (written _)⟩

variable {a b x : form.Literal}

/-- A lower bound that is a date or a time is met from there on. -/
theorem met_from (ordinary : form.IsOrdinary a) (ordinary' : form.IsOrdinary x) :
    (form.boundary a).Met [.gt, .eq] [.string (form.text x)] ↔ form.parts a ≤ form.parts x := by
  obtain ⟨operand, bound, compared⟩ := operand?_boundary a
  rw [← not_lt, ← written_lt ordinary' ordinary, ← compareText_eq_lt_iff]
  simp only [Boundary.met_of_operand? bound, Operand.MetBy, List.mem_singleton, exists_eq_left, compared, text,
    String.toList_ofList]
  cases compareText (form.written x) (form.written a) <;> simp

/-- An upper bound that is a date or a time is met up to there. -/
theorem met_upTo (ordinary : form.IsOrdinary b) (ordinary' : form.IsOrdinary x) :
    (form.boundary b).Met [.lt, .eq] [.string (form.text x)] ↔ form.parts x ≤ form.parts b := by
  obtain ⟨operand, bound, compared⟩ := operand?_boundary b
  rw [← not_lt, ← written_lt ordinary ordinary', ← compareText_eq_gt_iff]
  simp only [Boundary.met_of_operand? bound, Operand.MetBy, List.mem_singleton, exists_eq_left, compared, text,
    String.toList_ofList]
  cases compareText (form.written x) (form.written b) <;> simp

theorem met_unbounded (orders : List Ordering) (values : List Json) :
    Boundary.unbounded.Met orders values :=
  trivial

/-- Dates and times are in the order of their texts. -/
theorem text_lt (ordinary : form.IsOrdinary a) (ordinary' : form.IsOrdinary b) :
    form.text a < form.text b ↔ form.parts a < form.parts b := by
  rw [String.lt_iff_toList_lt, text, text, String.toList_ofList, String.toList_ofList,
    written_lt ordinary ordinary']

theorem text_inj (ordinary : form.IsOrdinary a) (ordinary' : form.IsOrdinary b) :
    form.text a = form.text b ↔ a = b := by
  refine ⟨fun same => ?_, congrArg _⟩
  have noneBefore := text_lt ordinary ordinary'
  have noneBehind := text_lt ordinary' ordinary
  rw [same] at noneBefore noneBehind
  have irreflexive := lt_irrefl (form.text b)
  exact parts_inj.mp (le_antisymm (not_lt.mp (mt noneBehind.mpr irreflexive))
    (not_lt.mp (mt noneBefore.mpr irreflexive)))

/-- An interval selects by the chronological order, for the order of texts is the same: the text of no date or
time stands out of it. -/
theorem interval_selects {field : String} (plain : '.' ∉ field.toList) (atLeast : form.IsOrdinary a)
    (atMost : form.IsOrdinary b) (given : form.IsOrdinary x) :
    (((Expression.interval (form.boundary a) (form.boundary b)).filter field).accepts
        (.object [(field, .string (form.text x))]) = true ↔
      form.parts a ≤ form.parts x ∧ form.parts x ≤ form.parts b) ∧
    (((Expression.interval (form.boundary a) .unbounded).filter field).accepts
        (.object [(field, .string (form.text x))]) = true ↔ form.parts a ≤ form.parts x) ∧
    (((Expression.interval .unbounded (form.boundary b)).filter field).accepts
        (.object [(field, .string (form.text x))]) = true ↔ form.parts x ≤ form.parts b) ∧
    (form.text a < form.text x ↔ form.parts a < form.parts x) ∧
    (form.text a = form.text x ↔ a = x) := by
  have values : (Json.object [(field, .string (form.text x))]).valuesAlong (PropertyPath.ofDotted field).segments =
      [.string (form.text x)] := Json.valuesAlong_field plain _
  simp only [Filter.accepts_interval, values, met_from atLeast given, met_upTo atMost given, met_unbounded,
    and_true, true_and, text_lt atLeast given, text_inj atLeast given]

/-- The text of a time on the second is the beginning of those within that second. -/
theorem interval_selects_fraction :
    '.' ∉ "at".toList ∧ time.IsOrdinary ⟨8, 30, 0, 0⟩ ∧ time.IsOrdinary ⟨8, 30, 1, 0⟩ ∧
    time.IsOrdinary ⟨8, 30, 0, 500⟩ ∧ time.text ⟨8, 30, 0, 500⟩ = "08:30:00.500" ∧
    ((Expression.interval (.time ⟨8, 30, 0, 0⟩) (.time ⟨8, 30, 1, 0⟩)).filter "at").accepts
      (.object [("at", .string (time.text ⟨8, 30, 0, 500⟩))]) = true := by
  have plain : '.' ∉ "at".toList := by decide
  have least : time.IsOrdinary ⟨8, 30, 0, 0⟩ := rfl
  have greatest : time.IsOrdinary ⟨8, 30, 1, 0⟩ := rfl
  have given : time.IsOrdinary ⟨8, 30, 0, 500⟩ := rfl
  have between : time.parts ⟨8, 30, 0, 0⟩ ≤ time.parts ⟨8, 30, 0, 500⟩ ∧
      time.parts ⟨8, 30, 0, 500⟩ ≤ time.parts ⟨8, 30, 1, 0⟩ := by decide
  exact ⟨plain, least, greatest, given, by decide, (interval_selects plain least greatest given).1.mpr between⟩

end CalendarForm

end Sift

import Sift.Filter.Matching
import Sift.Proofs.Filter.Tree

namespace Sift

/-- The operators that look for the order of two values. The opposite of such a test is one too, and
neither holds where there is no order. -/
def Operator.isOrder : Operator → Bool
  | greater | greaterOrEqual | less | lessOrEqual => true
  | _ => false

/-- Null has no order and no text. -/
theorem Operator.holds_null (operator : Operator) (operand : Operand) :
    operator.holds .null operand = false := by
  cases operator <;> rfl

/-- A text occurs in another one if it is a stretch of it. -/
theorem occursIn_iff (part text : List Char) : occursIn part text = true ↔ part <:+: text := by
  induction text with
  | nil => simp [occursIn]
  | cons c cs ih =>
    simp only [occursIn, Bool.or_eq_true, List.isPrefixOf_iff_prefix, ih, List.infix_cons_iff]

theorem Operator.holdsText_iff {condition : List Char → List Char → Bool} {json : Json}
    {operand : Operand} :
    holdsText condition json operand = true ↔
      ∃ text, json.plain? = some text ∧ condition operand.text.toList text.toList = true := by
  unfold holdsText
  cases json.plain? <;> simp

/-- Replacing no value by null adds nothing that a positive operator could hold of. -/
theorem Json.any_candidates (document : Json) (field : String) (operator : Operator)
    (operand : Operand) :
    ((document.candidates field).flatMap elements).any (operator.holds · operand) =
      ((document.reached field).flatMap elements).any (operator.holds · operand) := by
  unfold candidates
  split
  · rename_i none
    simp [none, elements, operator.holds_null]
  · rfl

/-- A negated test is the opposite, unless it is one of order. -/
theorem Test.accepts_negated {t : Test} (compares : t.Compares) (unordered : t.operator.isOrder = false)
    (document : Json) : t.negated.accepts document = !t.accepts document := by
  obtain ⟨field, operator, operand⟩ := t
  obtain ⟨binary, valued⟩ := compares
  obtain ⟨operand, rfl⟩ := Option.isSome_iff_exists.mp valued
  cases operator <;> simp_all [Test.accepts, Test.negated, Operator.negated, Operator.isUnary,
    Operator.positive, Operator.isOrder]

namespace Filter

/-- A positive test looks for one value at its field. -/
theorem accepts_comparing {operator : Operator} (binary : operator.isUnary = false)
    (positive : operator.positive = operator) (document : Json) (field : String) (operand : Operand) :
    (comparing field operator operand).accepts document =
      ((document.reached field).flatMap Json.elements).any (operator.holds · operand) := by
  simp only [comparing, accepts, Test.accepts, binary, positive, Bool.false_eq_true, if_false, if_true]
  exact document.any_candidates field operator operand

theorem accepts_join_and (document : Json) (parts : List Filter) :
    (join .and parts).accepts document = parts.all (accepts document) :=
  acceptsAll_eq_all document parts

theorem accepts_join_or (document : Json) (parts : List Filter) :
    (join .or parts).accepts document = parts.any (accepts document) :=
  acceptsSome_eq_any document parts

theorem accepts_isAlways {f : Filter} (isAlways : f.isAlways = true) (document : Json) :
    f.accepts document = true := by
  cases f with
  | always => rfl
  | _ => cases isAlways

theorem all_partsIn (document : Json) (f : Filter) :
    (f.partsIn .and).all (accepts document) = f.accepts document := by
  cases f with
  | always => rfl
  | join logic parts =>
    cases logic with
    | and => exact (accepts_join_and document parts).symm
    | or => exact Bool.and_true _
  | _ => exact Bool.and_true _

theorem any_partsIn (document : Json) {f : Filter} (notAlways : f.isAlways = false) :
    (f.partsIn .or).any (accepts document) = f.accepts document := by
  cases f with
  | always => cases notAlways
  | join logic parts =>
    cases logic with
    | and => exact Bool.or_false _
    | or => exact (accepts_join_or document parts).symm
  | _ => exact Bool.or_false _

theorem accepts_ofParts_and (document : Json) (parts : List Filter) :
    (ofParts .and parts).accepts document = parts.all (accepts document) := by
  match parts with
  | [] => rfl
  | [part] => exact (Bool.and_true _).symm
  | first :: second :: rest => exact accepts_join_and document (first :: second :: rest)

theorem accepts_ofParts_or (document : Json) {parts : List Filter} (nonempty : parts ≠ []) :
    (ofParts .or parts).accepts document = parts.any (accepts document) := by
  match parts with
  | [] => exact absurd rfl nonempty
  | [part] => exact (Bool.or_false _).symm
  | first :: second :: rest => exact accepts_join_or document (first :: second :: rest)

/-- Filters joined by "and" must all be met. -/
theorem accepts_joined_and (document : Json) (fs : List Filter) :
    (joined .and fs).accepts document = fs.all (accepts document) := by
  have parts : (fs.flatMap (partsIn .and)).all (accepts document) = fs.all (accepts document) := by
    rw [List.all_flatMap]
    exact congrArg fs.all (funext (all_partsIn document))
  simp only [joined, reduceCtorEq, false_and, if_false]
  rw [accepts_ofParts_and, parts]

/-- The empty "or" is the filter that every document meets, so a part that brings something into the
join is needed for the answer of an "or". -/
theorem accepts_joined_or (document : Json) {fs : List Filter} {f : Filter} (member : f ∈ fs)
    (filled : f ≠ .join .or []) :
    (joined .or fs).accepts document = fs.any (accepts document) := by
  unfold joined
  by_cases absorbed : fs.any isAlways = true
  · rw [if_pos ⟨rfl, absorbed⟩]
    obtain ⟨g, within, isAlways⟩ := List.any_eq_true.mp absorbed
    exact (List.any_eq_true.mpr ⟨g, within, accepts_isAlways isAlways document⟩).symm
  · rw [if_neg (fun both => absorbed both.2)]
    have notAlways : ∀ g ∈ fs, g.isAlways = false := by
      simpa only [List.any_eq_true, not_exists, not_and, Bool.not_eq_true] using absorbed
    have nonempty : fs.flatMap (partsIn .or) ≠ [] := by
      intro empty
      have none := List.flatMap_eq_nil_iff.mp empty f member
      have bare := notAlways f member
      cases f with
      | join logic parts => cases logic <;> simp_all [partsIn]
      | _ => simp_all [partsIn, isAlways]
    rw [accepts_ofParts_or document nonempty, List.any_flatMap, Bool.eq_iff_iff, List.any_eq_true,
      List.any_eq_true]
    exact exists_congr fun g => and_congr_right fun within => by
      rw [any_partsIn document (notAlways g within)]

/-- An "or" that flattens to nothing is not the filter that no document meets, for there is none. -/
theorem joined_or_of_empty {fs : List Filter} (empty : ∀ f ∈ fs, f = .join .or []) :
    joined .or fs = .always := by
  have kept : fs.any isAlways = false :=
    List.any_eq_false.mpr fun f member => by simp [empty f member, isAlways]
  have parts : fs.flatMap (partsIn .or) = [] :=
    List.flatMap_eq_nil_iff.mpr fun f member => by simp [empty f member, partsIn]
  simp [joined, kept, parts, ofParts]

/-- An "and" is met where each of its filters is, and an "or" where one of them is. An "or" in which nothing
is left but empty ones is met everywhere, though none of its filters is. -/
theorem accepts_joined_iff (document : Json) (fs : List Filter) :
    ((joined .and fs).accepts document = true ↔ ∀ f ∈ fs, f.accepts document = true) ∧
    ((joined .or fs).accepts document = true ↔
      (∃ f ∈ fs, f.accepts document = true) ∨ ∀ f ∈ fs, f = .join .or []) := by
  refine ⟨by rw [accepts_joined_and, List.all_eq_true], ?_⟩
  by_cases empty : ∀ f ∈ fs, f = .join .or []
  · rw [joined_or_of_empty empty]
    exact iff_of_true rfl (.inr empty)
  · obtain ⟨f, member, filled⟩ : ∃ f ∈ fs, f ≠ .join .or [] := by
      simpa only [Classical.not_forall, exists_prop] using empty
    rw [accepts_joined_or document member filled, List.any_eq_true, or_iff_left empty]

/-- The "or" of no filters, and that of an empty "or" alone, are met by the document without fields, and none
of the filters in them is. -/
theorem accepts_joined_or_without_parts :
    ¬((joined .or []).accepts (.object []) = true ↔ ∃ f ∈ ([] : List Filter), f.accepts (.object []) = true) ∧
    ¬((joined .or [.join .or []]).accepts (.object []) = true ↔
      ∃ f ∈ [join .or []], f.accepts (.object []) = true) := by
  have unmet : (join .or []).accepts (.object []) = false := rfl
  refine ⟨fun same => ?_, fun same => ?_⟩
  · obtain ⟨f, member, -⟩ := same.mp rfl
    cases member
  · obtain ⟨f, member, met⟩ := same.mp rfl
    rw [List.mem_singleton.mp member, unmet] at met
    cases met

/-- A negated filter is the opposite, unless it is a single test of order. -/
theorem accepts_negated {f : Filter} (formed : f.WellFormed Test.Compares)
    (unordered : ∀ t, f = .test t → t.operator.isOrder = false) (document : Json) :
    f.negated.accepts document = !f.accepts document := by
  cases formed with
  | always => rfl
  | test compares => exact Test.accepts_negated compares (unordered _ rfl) document
  | join => rfl
  | not => exact (Bool.not_not _).symm

end Filter

end Sift

import Sift.Proofs.Filter.Acceptance

namespace Sift

namespace Json

/-- Fields with null under a name that was not among them. -/
def withNullField (key : String) (fields : List (String × Json)) : List (String × Json) :=
  if (field? key fields).isNone then setField key null fields else fields

/-- Fields with the value under a name changed. -/
def changeField (name : String) (change : Json → Json) : List (String × Json) → List (String × Json)
  | [] => []
  | (other, value) :: fields =>
    if other = name then (other, change value) :: fields
    else (other, value) :: changeField name change fields

/-- A value with its fields changed if it is an object. -/
def changeFields (change : List (String × Json) → List (String × Json)) : Json → Json
  | object fields => object (change fields)
  | json => json

def changeElements (change : List (String × Json) → List (String × Json)) : Json → Json
  | array items => array (items.map (changeFields change))
  | json => json.changeFields change

/-- A document with null under a name in each object at a path that lacked it. An array on the way, or at the
end, stands for its items. -/
def withNull (key : String) : List String → Json → Json
  | [] => changeElements (withNullField key)
  | name :: path => changeElements (changeField name (withNull key path))

/-- The values at a path, with its items in the place of an array. -/
def itemsAt (document : Json) (path : List String) : List Json :=
  (path.foldl step [document]).flatMap elements

/-- Whether a value is an object that has no value under a name. -/
def lacks (key : String) : Json → Bool
  | object fields => (field? key fields).isNone
  | _ => false

/-- Some of the objects at a path lack a field and some have it, none of them with null. -/
def LacksInPart (document : Json) (path : List String) (key : String) : Prop :=
  (∃ item ∈ document.itemsAt path, item.lacks key = true) ∧
    (∃ item ∈ document.itemsAt path, (item.get? key).isSome = true) ∧
    ∀ item ∈ document.itemsAt path, item.get? key ≠ some null

/-- A field that is set has its new value. -/
theorem field?_setField (key : String) (value : Json) (fields : List (String × Json)) :
    field? key (setField key value fields) = some value := by
  induction fields with
  | nil => simp [setField, field?]
  | cons field fields ih =>
    obtain ⟨name, old⟩ := field
    simp only [setField]
    split
    · simp [field?]
    · split
      · simp [field?]
      · rename_i different
        rw [field?, if_neg (Ne.symm different), ih]

theorem field?_withNullField (key : String) (fields : List (String × Json)) :
    field? key (withNullField key fields) = some ((field? key fields).getD null) := by
  unfold withNullField
  cases found : field? key fields with
  | none => exact field?_setField key null fields
  | some value => exact found

theorem field?_changeField (name : String) (change : Json → Json) (fields : List (String × Json)) :
    field? name (changeField name change fields) = (field? name fields).map change := by
  induction fields with
  | nil => rfl
  | cons field fields ih =>
    obtain ⟨other, value⟩ := field
    by_cases same : other = name
    · simp [changeField, field?, same]
    · simp only [changeField, field?, if_neg same, ih]

theorem get?_changeField (name : String) (change : Json → Json) (json : Json) :
    (json.changeFields (changeField name change)).get? name = (json.get? name).map change := by
  cases json with
  | object fields => exact field?_changeField name change fields
  | _ => rfl

/-- An object that lacks a field gets null there, and any other value stays. -/
theorem get?_withNullField (key : String) (json : Json) :
    (json.changeFields (withNullField key)).get? key =
      if json.lacks key then some null else json.get? key := by
  cases json with
  | object fields =>
    rw [changeFields, get?, field?_withNullField, lacks, get?]
    cases field? key fields <;> rfl
  | _ => rfl

theorem elements_changeElements (change : List (String × Json) → List (String × Json)) (json : Json) :
    (json.changeElements change).elements = json.elements.map (changeFields change) := by
  cases json <;> rfl

theorem flatMap_elements_changeElements (change : List (String × Json) → List (String × Json))
    (values : List Json) :
    (values.map (changeElements change)).flatMap elements =
      (values.flatMap elements).map (changeFields change) := by
  rw [List.flatMap_map, List.map_flatMap]
  exact congrArg values.flatMap (funext (elements_changeElements change))

/-- A step to values that were changed takes the change along. -/
theorem step_changeField (name : String) (change : Json → Json) (values : List Json) :
    step (values.map (changeElements (changeField name change))) name = (step values name).map change := by
  rw [step, flatMap_elements_changeElements, List.filterMap_map, step, List.map_filterMap]
  exact congrArg (List.filterMap · _) (funext (get?_changeField name change))

/-- To put null at the end of a path changes nothing of what is reached on the way. -/
theorem foldl_step_withNull (key : String) (path : List String) (values : List Json) :
    (path.foldl step (values.map (withNull key path))).flatMap elements =
      ((path.foldl step values).flatMap elements).map (changeFields (withNullField key)) := by
  induction path generalizing values with
  | nil => exact flatMap_elements_changeElements (withNullField key) values
  | cons name path ih => rw [List.foldl_cons, List.foldl_cons, withNull, step_changeField, ih]

/-- The objects at a path are the same ones, with null put in. -/
theorem itemsAt_withNull (document : Json) (path : List String) (key : String) :
    (document.withNull key path).itemsAt path =
      (document.itemsAt path).map (changeFields (withNullField key)) :=
  foldl_step_withNull key path [document]

theorem any_candidates_of_null {p : Json → Bool} (fails : p null = false) (document : Json) (field : String) :
    (document.candidates field).any p = (document.reached field).any p := by
  unfold candidates
  split
  · rename_i nothing
    simp [nothing, fails]
  · rfl

section
variable {field key : String} {path : List String}
  (split : (PropertyPath.ofDotted field).segments = path ++ [key]) (document : Json)

include split

/-- What a field leads to are the values that the objects before the last step have. -/
theorem reached_eq_filterMap : document.reached field = (document.itemsAt path).filterMap (·.get? key) := by
  have whole : document.reached field = (path ++ [key]).foldl step [document] := by
    rw [← split]
    rfl
  rw [whole, List.foldl_append]
  rfl

/-- The only value that is found besides is null. -/
theorem mem_reached_withNull {value : Json} :
    value ∈ (document.withNull key path).reached field ↔
      value ∈ document.reached field ∨ value = null ∧ ∃ item ∈ document.itemsAt path, item.lacks key = true := by
  rw [reached_eq_filterMap split, reached_eq_filterMap split, itemsAt_withNull, List.filterMap_map]
  simp only [List.mem_filterMap, Function.comp_apply, get?_withNullField]
  constructor
  · rintro ⟨item, member, found⟩
    by_cases absent : item.lacks key = true
    · rw [if_pos absent] at found
      exact .inr ⟨(Option.some.inj found).symm, item, member, absent⟩
    · rw [if_neg absent] at found
      exact .inl ⟨item, member, found⟩
  · rintro (⟨item, member, found⟩ | ⟨rfl, item, member, absent⟩)
    · have present : ¬item.lacks key = true := by
        cases item <;> simp_all [lacks, get?]
      exact ⟨item, member, by rw [if_neg present, found]⟩
    · exact ⟨item, member, if_pos absent⟩

/-- An object lacks the field beside others that have it, and none has null. -/
theorem lacksInPart_iff : document.LacksInPart path key ↔
    (∃ item ∈ document.itemsAt path, item.lacks key = true) ∧ document.reached field ≠ [] ∧
      null ∉ document.reached field := by
  rw [LacksInPart, reached_eq_filterMap split]
  refine and_congr_right fun _ => and_congr ?_ ?_
  · simp [Option.isSome_iff_ne_none, List.filterMap_eq_nil_iff]
  · simp [List.mem_filterMap]

/-- What fails for null cannot tell whether null was put into a document. -/
theorem any_candidates_withNull {p : Json → Bool} (fails : p null = false) :
    ((document.withNull key path).candidates field).any p = (document.candidates field).any p := by
  rw [any_candidates_of_null fails, any_candidates_of_null fails, Bool.eq_iff_iff, List.any_eq_true,
    List.any_eq_true]
  simp only [mem_reached_withNull split]
  constructor
  · rintro ⟨value, found | ⟨rfl, -⟩, holds⟩
    · exact ⟨value, found, holds⟩
    · rw [fails] at holds
      cases holds
  · rintro ⟨value, found, holds⟩
    exact ⟨value, .inl found, holds⟩

end

/-- The one test that asks for null holds where nothing is reached, or null is. -/
theorem any_candidates_isNull (document : Json) (field : String) :
    (document.candidates field).any isNull = true ↔ document.reached field = [] ∨ null ∈ document.reached field := by
  have onlyNull : ∀ json : Json, json.isNull = true ↔ json = null := fun json => by cases json <;> simp [isNull]
  unfold candidates
  split
  · rename_i nothing
    exact iff_of_true rfl (.inl nothing)
  · rename_i something
    simp only [List.any_eq_true, onlyNull, exists_eq_right, or_iff_right something]

end Json

namespace Test

variable {t : Test} {key : String} {path : List String}

theorem holdsOf_null {operator : Operator} (other : operator ≠ .isNull) : operator.holdsOf .null = false := by
  cases operator with
  | isNull => exact absurd rfl other
  | _ => rfl

/-- Null fails every test but the one for null, so it makes no difference how often it is there. -/
theorem accepts_withNull_of_ne (split : (PropertyPath.ofDotted t.field).segments = path ++ [key])
    (other : t.operator ≠ .isNull) (document : Json) :
    t.accepts (document.withNull key path) = t.accepts document := by
  have unaryFails : t.operator.holdsOf .null = false := holdsOf_null other
  have binaryFails : ∀ operand, (Json.elements .null).any (t.operator.positive.holds · operand) = false :=
    fun operand => by simp [Json.elements, Operator.holds_null]
  have unary := Json.any_candidates_withNull split document unaryFails
  have binary := fun operand => Json.any_candidates_withNull (p := fun json =>
    json.elements.any (t.operator.positive.holds · operand)) split document (binaryFails operand)
  simp only [accepts, unary, List.any_flatMap, binary]

/-- The test for null holds of an absence only where nothing is there at all. -/
theorem accepts_isNull (unary : t.operator = .isNull) (document : Json) :
    t.accepts document = true ↔ document.reached t.field = [] ∨ .null ∈ document.reached t.field := by
  rw [← Json.any_candidates_isNull, accepts, unary]
  rfl

theorem accepts_isNull_withNull (split : (PropertyPath.ofDotted t.field).segments = path ++ [key])
    (unary : t.operator = .isNull) (document : Json) :
    t.accepts (document.withNull key path) = true ↔
      t.accepts document = true ∨ ∃ item ∈ document.itemsAt path, item.lacks key = true := by
  rw [accepts_isNull unary, accepts_isNull unary, List.eq_nil_iff_forall_not_mem, List.eq_nil_iff_forall_not_mem]
  simp only [Json.mem_reached_withNull split]
  by_cases lacking : ∃ item ∈ document.itemsAt path, item.lacks key = true
  · simp [lacking]
  · simp [lacking]

/-- Whether a field is absent or null is told by no test, but by the one for null where only some objects lack
the field. -/
theorem accepts_withNull_iff (split : (PropertyPath.ofDotted t.field).segments = path ++ [key])
    (document : Json) :
    (Filter.test t).accepts (document.withNull key path) = (Filter.test t).accepts document ↔
      ¬(t.operator = .isNull ∧ document.LacksInPart path key) := by
  rw [Filter.accepts, Filter.accepts]
  by_cases unary : t.operator = .isNull
  · rw [Bool.eq_iff_iff, accepts_isNull_withNull split unary, accepts_isNull unary, Json.lacksInPart_iff split]
    by_cases lacking : ∃ item ∈ document.itemsAt path, item.lacks key = true
    · simp [unary, lacking, Classical.or_iff_not_imp_left]
    · simp [lacking]
  · exact iff_of_true (accepts_withNull_of_ne split unary document) fun both => unary both.1

/-- Two vehicles, of which one has a name. -/
def vehicles : Json :=
  .object [("Vehicles", .array [.object [("Name", .string "Batmobile")], .object []])]

/-- Null in place of a name that one of two vehicles lacks changes no answer to a test of names. -/
theorem accepts_withNull_vehicles :
    (PropertyPath.ofDotted "Vehicles.Name").segments = ["Vehicles"] ++ ["Name"] ∧
      (Filter.test ⟨"Vehicles.Name", .notEqual, some (.string "Batmobile")⟩).accepts
          (vehicles.withNull "Name" ["Vehicles"]) =
        (Filter.test ⟨"Vehicles.Name", .notEqual, some (.string "Batmobile")⟩).accepts vehicles := by
  have split : (PropertyPath.ofDotted "Vehicles.Name").segments = ["Vehicles"] ++ ["Name"] := by decide
  have agrees := accepts_withNull_iff (t := ⟨"Vehicles.Name", .notEqual, some (.string "Batmobile")⟩) split vehicles
  exact ⟨split, agrees.mpr fun both => nomatch both.1⟩

/-- A name that is lacking is not null beside one that is there. -/
theorem accepts_isNull_vehicles :
    vehicles.withNull "Name" ["Vehicles"] = .object [("Vehicles",
        .array [.object [("Name", .string "Batmobile")], .object [("Name", .null)]])] ∧
      (Filter.test ⟨"Vehicles.Name", .isNull, none⟩).accepts vehicles = false ∧
      (Filter.test ⟨"Vehicles.Name", .isNull, none⟩).accepts (vehicles.withNull "Name" ["Vehicles"]) = true :=
  ⟨rfl, by decide, by decide⟩

end Test

end Sift

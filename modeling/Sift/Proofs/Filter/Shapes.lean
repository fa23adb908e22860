import Sift.Proofs.Filter.Wire

namespace Sift

namespace Json

/-- That a value has the shape of a filter. An object may have more than one shape, and keys of no use to
it. -/
inductive HasShape : Json → Prop
  | negation {fields inner} : field? "not" fields = some inner → HasShape inner → HasShape (object fields)
  | join {fields logic items} : field? "logic" fields = some (string logic) →
      field? "filters" fields = some (array items) → (∀ item ∈ items, HasShape item) → HasShape (object fields)
  | test {fields field code} : field? "field" fields = some (string field) →
      field? "op" fields = some (string code) → HasShape (object fields)

/-- The fields of an object under other keys. -/
def withoutField (key : String) (fields : List (String × Json)) : List (String × Json) :=
  fields.filter (·.1 ≠ key)

theorem field?_withoutField_self (key : String) (fields : List (String × Json)) :
    field? key (withoutField key fields) = none := by
  induction fields with
  | nil => rfl
  | cons entry fields ih =>
    obtain ⟨name, value⟩ := entry
    by_cases same : name = key
    · simpa [withoutField, same] using ih
    · simpa [withoutField, same, field?] using ih

/-- To take a field away leaves the others. -/
theorem field?_withoutField_of_ne {key other : String} (different : other ≠ key)
    (fields : List (String × Json)) : field? other (withoutField key fields) = field? other fields := by
  induction fields with
  | nil => rfl
  | cons entry fields ih =>
    obtain ⟨name, value⟩ := entry
    by_cases same : name = key
    · simpa [withoutField, field?, same, different.symm] using ih
    · by_cases here : name = other
      · simp [withoutField, field?, here, different]
      · simpa [withoutField, field?, same, here] using ih

end Json

namespace Wire

theorem negated?_eq (fields : List (String × Json)) :
    negated? fields = (Json.field? "not" fields).bind ofJson? := by
  induction fields with
  | nil => rfl
  | cons entry fields ih =>
    obtain ⟨name, value⟩ := entry
    rw [negated?, Json.field?]
    split
    · rfl
    · exact ih

theorem joined?_eq (fields : List (String × Json)) :
    joined? fields = (Json.field? "filters" fields).bind itemsOf? := by
  induction fields with
  | nil => rfl
  | cons entry fields ih =>
    obtain ⟨name, value⟩ := entry
    rw [joined?, Json.field?]
    split
    · rfl
    · exact ih

theorem text?_eq_some {key text : String} {fields : List (String × Json)} :
    text? key fields = some text ↔ Json.field? key fields = some (.string text) := by
  unfold text?
  split
  · rename_i held
    simp [held]
  · rename_i other
    exact ⟨nofun, fun held => absurd held (other text)⟩

/-- The shape of an object that is not read as a negation. -/
def positive? (fields : List (String × Json)) : Option Wire :=
  match text? "logic" fields, joined? fields with
  | some logic, some filters => some (composite logic filters)
  | _, _ =>
    match text? "field" fields, text? "op" fields with
    | some field, some code => some (leaf field code (value? fields))
    | _, _ => none

/-- In an object a negation is looked for before the rest. -/
theorem ofJson?_object (fields : List (String × Json)) :
    ofJson? (.object fields) = ((negated? fields).map negation).or (positive? fields) := by
  rw [ofJson?]
  cases negated? fields <;> rfl

theorem shape_of_mem {items : List Json} {ws : List Wire} (shapes : allOf? items = some ws) :
    ∀ item ∈ items, ∃ w ∈ ws, ofJson? item = some w := by
  induction items generalizing ws with
  | nil => exact nofun
  | cons item items ih =>
    rw [allOf?] at shapes
    split at shapes
    · cases shapes
    · rename_i w shape
      obtain ⟨others, further, rfl⟩ := Option.map_eq_some_iff.mp shapes
      refine List.forall_mem_cons.mpr ⟨⟨w, List.mem_cons_self .., shape⟩, fun next member => ?_⟩
      obtain ⟨w', within, shape'⟩ := ih further next member
      exact ⟨w', List.mem_cons_of_mem _ within, shape'⟩

theorem exists_shapes {items : List Json} (each : ∀ item ∈ items, ∃ w, ofJson? item = some w) :
    ∃ ws, allOf? items = some ws := by
  induction items with
  | nil => exact ⟨[], rfl⟩
  | cons item items ih =>
    obtain ⟨⟨w, shape⟩, others⟩ := List.forall_mem_cons.mp each
    obtain ⟨ws, shapes⟩ := ih others
    exact ⟨w :: ws, by simp [allOf?, shape, shapes]⟩

/-- Without a negation, an object has the shape of a join or of a test. -/
theorem positive?_eq_some {fields : List (String × Json)} {w : Wire} (found : positive? fields = some w) :
    (∃ logic items ws, Json.field? "logic" fields = some (.string logic) ∧
      Json.field? "filters" fields = some (.array items) ∧ allOf? items = some ws ∧ w = composite logic ws) ∨
    ∃ field code, Json.field? "field" fields = some (.string field) ∧
      Json.field? "op" fields = some (.string code) ∧ w = leaf field code (value? fields) := by
  unfold positive? at found
  split at found
  · rename_i logic ws named joined
    cases found
    rw [joined?_eq, Option.bind_eq_some_iff] at joined
    obtain ⟨held, under, shapes⟩ := joined
    cases held with
    | array items => exact .inl ⟨logic, items, ws, text?_eq_some.mp named, under, shapes, rfl⟩
    | _ => cases shapes
  · split at found
    · rename_i field code named coded
      cases found
      exact .inr ⟨field, code, text?_eq_some.mp named, text?_eq_some.mp coded, rfl⟩
    · cases found

/-- All that a shape can come from. -/
theorem ofJson?_eq_some {json : Json} {w : Wire} (shape : ofJson? json = some w) :
    ∃ fields, json = .object fields ∧
      ((∃ held inner, Json.field? "not" fields = some held ∧ ofJson? held = some inner ∧ w = negation inner) ∨
      (∃ logic items ws, Json.field? "logic" fields = some (.string logic) ∧
        Json.field? "filters" fields = some (.array items) ∧ allOf? items = some ws ∧ w = composite logic ws) ∨
      ∃ field code, Json.field? "field" fields = some (.string field) ∧
        Json.field? "op" fields = some (.string code) ∧ w = leaf field code (value? fields)) := by
  cases json with
  | object fields =>
    refine ⟨fields, rfl, ?_⟩
    rw [ofJson?_object, Option.or_eq_some_iff, Option.map_eq_some_iff] at shape
    rcases shape with ⟨inner, negated, rfl⟩ | ⟨-, found⟩
    · rw [negated?_eq, Option.bind_eq_some_iff] at negated
      obtain ⟨held, under, shape⟩ := negated
      exact .inl ⟨held, inner, under, shape, rfl⟩
    · exact .inr (positive?_eq_some found)
  | _ =>
    rw [ofJson?] at shape
    · cases shape
    · intro fields isObject
      cases isObject

theorem exists_ofJson?_of_positive? {fields : List (String × Json)} {w : Wire} (found : positive? fields = some w) :
    ∃ w, ofJson? (.object fields) = some w := by
  rw [ofJson?_object, found]
  cases negated? fields with
  | none => exact ⟨w, rfl⟩
  | some inner => exact ⟨negation inner, rfl⟩

/-- What the reader finds a shape in is just what has one. -/
theorem exists_ofJson?_iff {json : Json} : (∃ w, ofJson? json = some w) ↔ json.HasShape := by
  constructor
  · rintro ⟨w, shape⟩
    induction w generalizing json with
    | negation inner ih =>
      obtain ⟨fields, rfl, origin⟩ := ofJson?_eq_some shape
      rcases origin with (⟨held, _, under, shape, ⟨⟩⟩ | ⟨_, _, _, _, _, _, ⟨⟩⟩ | ⟨_, _, _, _, ⟨⟩⟩)
      exact .negation under (ih shape)
    | composite logic ws ih =>
      obtain ⟨fields, rfl, origin⟩ := ofJson?_eq_some shape
      rcases origin with (⟨_, _, _, _, ⟨⟩⟩ | ⟨_, items, _, named, under, shapes, ⟨⟩⟩ | ⟨_, _, _, _, ⟨⟩⟩)
      refine .join named under fun item member => ?_
      obtain ⟨w, within, shape⟩ := shape_of_mem shapes item member
      exact ih w within shape
    | leaf field code value =>
      obtain ⟨fields, rfl, origin⟩ := ofJson?_eq_some shape
      rcases origin with (⟨_, _, _, _, ⟨⟩⟩ | ⟨_, _, _, _, _, _, ⟨⟩⟩ | ⟨_, _, named, coded, ⟨⟩⟩)
      exact .test named coded
  · intro shaped
    induction shaped with
    | negation under _ ih =>
      obtain ⟨w, shape⟩ := ih
      rw [ofJson?_object, negated?_eq, under, Option.bind_some, shape]
      exact ⟨negation w, rfl⟩
    | @join fields logic items named under _ ih =>
      obtain ⟨ws, shapes⟩ := exists_shapes ih
      have joined : joined? fields = some ws := by
        rw [joined?_eq, under]
        exact shapes
      refine exists_ofJson?_of_positive? (w := composite logic ws) ?_
      rw [positive?, text?_eq_some.mpr named, joined]
    | @test fields field code named coded =>
      -- the object may have the shape of a join as well, which is then the one that it is read as
      obtain ⟨w, found⟩ : ∃ w, positive? fields = some w := by
        rw [positive?, text?_eq_some.mpr named, text?_eq_some.mpr coded]
        split
        · exact ⟨_, rfl⟩
        · exact ⟨_, rfl⟩
      exact exists_ofJson?_of_positive? found

theorem negated?_eq_none {fields : List (String × Json)} {inner : Json}
    (negated : Json.field? "not" fields = some inner) (unshaped : ¬inner.HasShape) : negated? fields = none := by
  rw [negated?_eq, negated, Option.bind_some, Option.eq_none_iff_forall_ne_some]
  exact fun w shape => unshaped (exists_ofJson?_iff.mp ⟨w, shape⟩)

/-- No other shape looks at the key of a negation. -/
theorem positive?_withoutField (fields : List (String × Json)) :
    positive? (Json.withoutField "not" fields) = positive? fields := by
  have same : ∀ key, key ≠ "not" → Json.field? key (Json.withoutField "not" fields) = Json.field? key fields :=
    fun key different => Json.field?_withoutField_of_ne different fields
  simp only [positive?, text?, joined?_eq, value?, same _ (by decide : "logic" ≠ "not"),
    same _ (by decide : "filters" ≠ "not"), same _ (by decide : "field" ≠ "not"),
    same _ (by decide : "op" ≠ "not"), same _ (by decide : "value" ≠ "not")]

/-- Only the shape of a negation is read as one. -/
theorem eq_negation_of_toFilter {w : Wire} {f : Filter} (read : w.toFilter = .ok (.not f)) :
    ∃ inner, w = negation inner := by
  cases w with
  | negation inner => exact ⟨inner, rfl⟩
  | composite name ws =>
    rw [toFilter] at read
    split at read
    · cases read
    · split at read
      · cases read
      · cases read
      · cases read
      · obtain ⟨parts, _, join⟩ := map_eq_ok.mp read
        cases join
  | leaf field code value =>
    rw [toFilter] at read
    obtain ⟨t, _, test⟩ := map_eq_ok.mp read
    cases test

end Wire

namespace Filter

/-- An object without the key is never read as a negation. -/
theorem ofJson_ne_not {fields : List (String × Json)} (absent : Json.field? "not" fields = none) (f : Filter) :
    ofJson (.object fields) ≠ .ok (.not f) := by
  intro read
  obtain ⟨w, shape, stands⟩ := ofJson_eq_ok.mp read
  obtain ⟨inner, rfl⟩ := Wire.eq_negation_of_toFilter stands
  obtain ⟨_, ⟨⟩, origin⟩ := Wire.ofJson?_eq_some shape
  rcases origin with ⟨_, _, under, _⟩ | ⟨_, _, _, _, _, _, ⟨⟩⟩ | ⟨_, _, _, _, ⟨⟩⟩
  rw [absent] at under
  cases under

section
variable {fields : List (String × Json)} {inner : Json} (negated : Json.field? "not" fields = some inner)

include negated

/-- A value under the key that has a shape is negated. -/
theorem ofJson_of_hasShape (shaped : inner.HasShape) :
    ofJson (.object fields) = (ofJson inner).map Filter.not := by
  obtain ⟨w, shape⟩ := Wire.exists_ofJson?_iff.mpr shaped
  have whole : Wire.ofJson? (.object fields) = some (.negation w) := by
    rw [Wire.ofJson?_object, Wire.negated?_eq, negated, Option.bind_some, shape]
    rfl
  simp only [ofJson, whole, shape, Wire.toFilter]

/-- A value under the key that has no shape is passed over, with its key. -/
theorem ofJson_of_not_hasShape (unshaped : ¬inner.HasShape) :
    ofJson (.object fields) = ofJson (.object (Json.withoutField "not" fields)) := by
  have absent : Wire.negated? (Json.withoutField "not" fields) = none := by
    rw [Wire.negated?_eq, Json.field?_withoutField_self]
    rfl
  rw [ofJson, ofJson, Wire.ofJson?_object, Wire.ofJson?_object, Wire.negated?_eq_none negated unshaped, absent,
    Wire.positive?_withoutField]

/-- A negation is lost just where the value under `not` has no shape and the rest of the object is read without
it. A value with a shape is negated, and what is wrong with it is the error of the whole. -/
theorem ofJson_keeps_negation_iff :
    ((∃ f, ofJson (.object fields) = .ok (.not f)) ∨ (∃ error, ofJson (.object fields) = .error error) ↔
      inner.HasShape ∨ ∃ error, ofJson (.object (Json.withoutField "not" fields)) = .error error) ∧
    (inner.HasShape → ofJson (.object fields) = (ofJson inner).map Filter.not) ∧
    (¬inner.HasShape → ofJson (.object fields) = ofJson (.object (Json.withoutField "not" fields))) := by
  refine ⟨?_, ofJson_of_hasShape negated, ofJson_of_not_hasShape negated⟩
  by_cases shaped : inner.HasShape
  · refine iff_of_true ?_ (.inl shaped)
    rw [ofJson_of_hasShape negated shaped]
    cases ofJson inner with
    | ok f => exact .inl ⟨f, rfl⟩
    | error error => exact .inr ⟨error, rfl⟩
  · have never : ¬∃ f, ofJson (.object (Json.withoutField "not" fields)) = .ok (.not f) := fun ⟨f, read⟩ =>
      ofJson_ne_not (Json.field?_withoutField_self "not" fields) f read
    rw [ofJson_of_not_hasShape negated shaped, or_iff_right never, or_iff_right shaped]

end

/-- The fields of a test for null, with a value under `not` beside them. -/
def nullTestBeside (inner : Json) : List (String × Json) :=
  [("field", .string "Name"), ("not", inner), ("op", .string "isnull")]

/-- An operator that there is none of is an error under `not`, also beside a test that could be read. -/
theorem ofJson_keeps_negation_unknown :
    Json.field? "not" (nullTestBeside (.object [("field", .string "Age"), ("op", .string "like")])) =
      some (.object [("field", .string "Age"), ("op", .string "like")]) ∧
    Json.HasShape (.object [("field", .string "Age"), ("op", .string "like")]) ∧
    ofJson (.object (nullTestBeside (.object [("field", .string "Age"), ("op", .string "like")]))) =
      .error (.unknownOperator "like") := by
  have negated : Json.field? "not" (nullTestBeside (.object [("field", .string "Age"), ("op", .string "like")])) =
      some (.object [("field", .string "Age"), ("op", .string "like")]) := rfl
  have shaped : Json.HasShape (.object [("field", .string "Age"), ("op", .string "like")]) := .test rfl rfl
  have refused : ofJson (.object [("field", .string "Age"), ("op", .string "like")]) =
      .error (.unknownOperator "like") := rfl
  refine ⟨negated, shaped, ?_⟩
  rw [(ofJson_keeps_negation_iff negated).2.1 shaped, refused]
  rfl

/-- Without any operator it is passed over, and the test beside it is what is read. -/
theorem ofJson_drops_negation :
    Json.field? "not" (nullTestBeside (.object [("field", .string "Age")])) =
      some (.object [("field", .string "Age")]) ∧
    ofJson (.object (nullTestBeside (.object [("field", .string "Age")]))) =
      .ok (.test ⟨"Name", .isNull, none⟩) :=
  ⟨rfl, rfl⟩

end Filter

end Sift

import Sift.Filter.Wire
import Sift.Proofs.Binary64.Rounding
import Sift.Proofs.Filter.Tree

namespace Sift

namespace Operand

/-- The value as it comes back from JSON. -/
def textual : Operand → Operand
  | date d => string d.text
  | time t => string t.text
  | dateTime d t => string (dateTimeText d t)
  | operand => operand

/-- JSON has no infinities and nothing for NaN. -/
def IsWireValid (operand : Operand) : Prop :=
  operand ≠ float .nan ∧ ∀ negative, operand ≠ float (.infinite negative)

/-- A value that JSON can hold comes back as text, or as it is. -/
theorem ofJson_toJson {operand : Operand} (valid : operand.IsWireValid) :
    ofJson operand.toJson = .ok operand.textual := by
  obtain ⟨notNan, bounded⟩ := valid
  match operand with
  | string _ | boolean _ | date _ | time _ | dateTime _ _ => rfl
  | integer n fits => exact dif_pos fits.2
  | float (.finite x) => rfl
  | float (.infinite negative) => exact absurd rfl (bounded negative)
  | float .nan => exact absurd rfl notNan

theorem isWireValid_finite (x : Finite64) : (float (.finite x)).IsWireValid :=
  ⟨nofun, nofun⟩

/-- Whatever value comes back can go again and stays as it is. -/
theorem ofJson_sound {json : Json} {operand : Operand} (read : ofJson json = .ok operand) :
    operand.IsWireValid ∧ operand.textual = operand := by
  unfold ofJson at read
  split at read
  · cases read
    exact ⟨⟨nofun, nofun⟩, rfl⟩
  · cases read
    exact ⟨⟨nofun, nofun⟩, rfl⟩
  · rename_i n fits
    split at read
    · cases read
      exact ⟨⟨nofun, nofun⟩, rfl⟩
    · rename_i large
      obtain ⟨x, finite⟩ := Binary64.ofInt_finite (by omega : n.natAbs < 2 ^ 64)
      rw [finite] at read
      cases read
      exact ⟨isWireValid_finite x, rfl⟩
  · rename_i x
    cases read
    exact ⟨isWireValid_finite x, rfl⟩
  · cases read

end Operand

namespace Test

/-- The test as it comes back from JSON. -/
def textual (t : Test) : Test :=
  { t with operand := t.operand.map Operand.textual }

/-- A test with a value exactly if its operator takes one, and with none that JSON cannot hold. -/
def IsWireValid (t : Test) : Prop :=
  (t.operand.isSome = true ↔ t.operator.isUnary = false) ∧ ∀ operand ∈ t.operand, operand.IsWireValid

/-- A test with a value exactly if its operator takes one, and with none of binary64. -/
def IsExact (t : Test) : Prop :=
  (t.operand.isSome = true ↔ t.operator.isUnary = false) ∧ ∀ operand ∈ t.operand, ∀ x, operand ≠ .float x

theorem IsExact.isWireValid {t : Test} (valid : t.IsExact) : t.IsWireValid :=
  ⟨valid.1, fun operand member => ⟨valid.2 operand member .nan, fun negative =>
    valid.2 operand member (.infinite negative)⟩⟩

end Test

namespace Filter

mutual

/-- The filter as it comes back from JSON. -/
def textual : Filter → Filter
  | always => always
  | test t => test t.textual
  | join logic parts => join logic (textuals parts)
  | not inner => not inner.textual

/-- The filters as they come back from JSON. -/
def textuals : List Filter → List Filter
  | [] => []
  | f :: fs => f.textual :: textuals fs

end

/-- A filter without dates and times is its own text form. -/
theorem textual_eq_self {f : Filter} (formed : f.WellFormed fun t => t.textual = t) : f.textual = f := by
  have all : ∀ {fs : List Filter}, (∀ f ∈ fs, f.textual = f) → textuals fs = fs := by
    intro fs each
    induction fs with
    | nil => rfl
    | cons f fs ih =>
      obtain ⟨first, others⟩ := List.forall_mem_cons.mp each
      rw [textuals, first, ih others]
  induction formed with
  | always => rfl
  | test same => rw [textual, same]
  | join _ _ ih => rw [textual, all ih]
  | not _ ih => rw [textual, ih]

end Filter

namespace Wire

/-- Induction on shapes, with all parts of a composite at once. -/
@[elab_as_elim, induction_eliminator]
theorem induction {motive : Wire → Prop} (negation : ∀ inner, motive inner → motive (.negation inner))
    (composite : ∀ logic ws, (∀ w ∈ ws, motive w) → motive (.composite logic ws))
    (leaf : ∀ field code value, motive (.leaf field code value)) : ∀ w, motive w
  | .negation inner => negation inner (induction negation composite leaf inner)
  | .composite logic ws => composite logic ws fun w _ => induction negation composite leaf w
  | .leaf field code value => leaf field code value

theorem ofJson?_join (order : KeyOrder) (logic : Logic) (parts : List Json) :
    ofJson? (Filter.joinJson order logic parts) = (allOf? parts).map (composite logic.code) := by
  cases order <;> cases shapes : allOf? parts <;>
    simp [Filter.joinJson, ofJson?, negated?, joined?, itemsOf?, text?, Json.field?, shapes]

theorem ofJson?_not {json : Json} {inner : Wire} (shape : ofJson? json = some inner) :
    ofJson? (.object [("not", json)]) = some (negation inner) := by
  simp [ofJson?, negated?, shape]

theorem ofJson?_test {t : Test} (valid : ∀ operand ∈ t.operand, operand.IsWireValid) :
    ofJson? t.toJson = some (leaf t.field t.operator.code (t.operand.map Operand.toJson)) := by
  obtain ⟨field, operator, operand⟩ := t
  cases operand with
  | none => simp [Test.toJson, ofJson?, negated?, joined?, text?, value?, Json.field?]
  | some operand =>
    have read := Operand.ofJson_toJson (valid operand rfl)
    have notNull : operand.toJson ≠ .null := fun null => by
      rw [null] at read
      cases read
    simp only [Test.toJson, Option.map_some, Option.toList_some, List.cons_append, List.nil_append, ofJson?,
      negated?, joined?, text?, value?, Json.field?, String.reduceEq, if_true, if_false]
    split
    · rename_i null
      exact absurd (Option.some.inj null) notNull
    · rfl

theorem toTest_code {t : Test} (valid : t.IsWireValid) :
    toTest t.field t.operator.code (t.operand.map Operand.toJson) = .ok t.textual := by
  obtain ⟨field, operator, operand⟩ := t
  obtain ⟨taken, held⟩ := valid
  rw [toTest, Operator.ofCode_code]
  cases operand with
  | none =>
    have unary : operator.isUnary = true := by simpa using taken
    simp [unary, Test.textual]
  | some operand =>
    have binary : operator.isUnary = false := taken.mp rfl
    simp [binary, Operand.ofJson_toJson (held operand rfl), Except.map, Test.textual]

/-- A composite of two shapes or more is a join. -/
theorem toFilter_composite (logic : Logic) {ws : List Wire} (two : 2 ≤ ws.length) :
    (composite logic.code ws).toFilter = (toFilters ws).map (Filter.join logic) := by
  have known : Logic.ofCode? logic.code = some logic := by cases logic <;> rfl
  match ws with
  | first :: second :: rest =>
    rw [toFilter, known]
    cases logic <;> rfl
  | [_] => simp at two
  | [] => simp at two

theorem toFilters_sound {valid : Filter → Prop} {ws : List Wire}
    (each : ∀ w ∈ ws, ∀ f, w.toFilter = .ok f → valid f) {fs : List Filter}
    (read : toFilters ws = .ok fs) : fs.length = ws.length ∧ ∀ f ∈ fs, valid f := by
  induction ws generalizing fs with
  | nil =>
    cases read
    exact ⟨rfl, nofun⟩
  | cons w ws ih =>
    obtain ⟨first, others⟩ := List.forall_mem_cons.mp each
    rw [toFilters] at read
    split at read
    · cases read
    · rename_i f atFirst
      obtain ⟨left, rest, rfl⟩ := map_eq_ok.mp read
      obtain ⟨length, valid'⟩ := ih others rest
      exact ⟨congrArg Nat.succ length, List.forall_mem_cons.mpr ⟨first f atFirst, valid'⟩⟩

/-- Whatever test comes back can go again and stays as it is. -/
theorem toTest_sound {field code : String} {value : Option Json} {t : Test}
    (read : toTest field code value = .ok t) : t.IsWireValid ∧ t.textual = t := by
  unfold toTest at read
  split at read
  · cases read
  · rename_i operator _
    split at read
    · rename_i unary
      cases read
      exact ⟨⟨by simp [unary], by simp⟩, rfl⟩
    · rename_i unary
      cases read
      exact ⟨⟨by simp [unary], by simp⟩, rfl⟩
    · cases read
    · cases read
    · rename_i json binary
      obtain ⟨operand, held, rfl⟩ := map_eq_ok.mp read
      obtain ⟨valid, same⟩ := Operand.ofJson_sound held
      refine ⟨⟨by simp [binary], fun other member => ?_⟩, ?_⟩
      · cases member
        exact valid
      · simp [Test.textual, same]

/-- What is read from a shape may go on the wire again, and nothing of it is changed there. -/
theorem toFilter_sound {w : Wire} {f : Filter} (read : w.toFilter = .ok f) :
    f.WellFormed fun t => t.IsWireValid ∧ t.textual = t := by
  induction w generalizing f with
  | negation inner ih =>
    rw [toFilter] at read
    obtain ⟨found, within, rfl⟩ := map_eq_ok.mp read
    exact .not (ih within)
  | composite name ws ih =>
    rw [toFilter] at read
    split at read
    · cases read
    · rename_i logic _
      split at read
      · cases read
        exact .always
      · cases read
      · cases read
      · rename_i first second rest
        obtain ⟨parts, within, rfl⟩ := map_eq_ok.mp read
        obtain ⟨length, valid⟩ := toFilters_sound (fun w member f => ih w member) within
        have two : 2 ≤ parts.length := by
          rw [length, List.length_cons, List.length_cons]
          omega
        exact .join two valid
  | leaf field code value =>
    rw [toFilter] at read
    obtain ⟨t, within, rfl⟩ := map_eq_ok.mp read
    exact .test (toTest_sound within)

end Wire

namespace Filter

/-- A value is a filter if it has the shape of one and the parts of the shape are right. -/
theorem ofJson_eq_ok {json : Json} {f : Filter} :
    ofJson json = .ok f ↔ ∃ w, Wire.ofJson? json = some w ∧ w.toFilter = .ok f := by
  unfold ofJson
  cases Wire.ofJson? json <;> simp

theorem shapes_of_each {order : KeyOrder} {fs : List Filter}
    (each : ∀ f ∈ fs, ∃ w, Wire.ofJson? (f.wire order) = some w ∧ w.toFilter = .ok f.textual) :
    ∃ ws, Wire.allOf? (wireAll order fs) = some ws ∧ Wire.toFilters ws = .ok (textuals fs) ∧
      ws.length = fs.length := by
  induction fs with
  | nil => exact ⟨[], rfl, rfl, rfl⟩
  | cons f fs ih =>
    obtain ⟨⟨w, shape, stands⟩, others⟩ := List.forall_mem_cons.mp each
    obtain ⟨ws, shapes, stand, length⟩ := ih others
    refine ⟨w :: ws, ?_, ?_, congrArg Nat.succ length⟩
    · rw [wireAll, Wire.allOf?, shape]
      simp only [shapes, Option.map_some]
    · rw [Wire.toFilters, stands]
      simp only [stand, textuals]
      rfl

/-- A filter on the wire has a shape, in either order of keys, and the shape stands for the filter
with its dates and times as text. -/
theorem WellFormed.shape {f : Filter} (valid : f.WellFormed Test.IsWireValid) (order : KeyOrder) :
    ∃ w, Wire.ofJson? (f.wire order) = some w ∧ w.toFilter = .ok f.textual := by
  induction valid with
  | always => exact ⟨.composite Logic.and.code [], Wire.ofJson?_join order .and [], rfl⟩
  | test holds =>
    refine ⟨_, Wire.ofJson?_test holds.2, ?_⟩
    rw [Wire.toFilter, Wire.toTest_code holds]
    rfl
  | @join logic parts two _ ih =>
    obtain ⟨ws, shapes, stand, length⟩ := shapes_of_each ih
    refine ⟨.composite logic.code ws, ?_, ?_⟩
    · rw [wire, Wire.ofJson?_join, shapes, Option.map_some]
    · rw [Wire.toFilter_composite logic (length ▸ two), stand]
      rfl
  | not _ ih =>
    obtain ⟨w, shape, stands⟩ := ih
    refine ⟨.negation w, Wire.ofJson?_not shape, ?_⟩
    rw [Wire.toFilter, stands]
    rfl

/-- No query can spell a number of binary64. -/
theorem isExact_of_compile {resolver : Resolver} {text : String} {f : Filter}
    (compiled : Resolver.compile resolver text = .ok f) : f.WellFormed Test.IsExact := by
  refine (Resolver.isSpelled_of_compile compiled).mono ?_
  rintro ⟨field, operator, _⟩ ⟨binary, operand, rfl, spelled⟩
  refine ⟨by simp [binary], fun other member x float => ?_⟩
  obtain rfl := Option.some.inj member
  rw [float] at spelled
  cases spelled

/-- The wire loses nothing but the types of dates and times, and what it holds are filters that it
keeps as they are. -/
theorem wire_round_trip :
    (∀ f : Filter, f.WellFormed Test.IsWireValid → ofJson f.toJson = .ok f.textual) ∧
    ∀ json f, ofJson json = .ok f → f.WellFormed Test.IsWireValid ∧ ofJson f.toJson = .ok f := by
  have there : ∀ f : Filter, f.WellFormed Test.IsWireValid → ofJson f.toJson = .ok f.textual :=
    fun f valid => ofJson_eq_ok.mpr (valid.shape .ascending)
  refine ⟨there, fun json f read => ?_⟩
  obtain ⟨w, -, stands⟩ := ofJson_eq_ok.mp read
  have formed := Wire.toFilter_sound stands
  have valid := formed.mono fun _ holds => holds.1
  have same := textual_eq_self (formed.mono fun _ holds => holds.2)
  have back := there f valid
  rw [same] at back
  exact ⟨valid, back⟩

theorem wire_round_trip_date :
    (ofJson (toJson (.not (.test ⟨"born", .less, some (.date ⟨1987, 11, 6⟩)⟩))) =
      .ok (.not (.test ⟨"born", .less, some (.string "1987-11-06")⟩))) ∧
    ofJson (.object [("field", .string "name"), ("op", .string "isnull"), ("value", .null)]) =
      .ok (.test ⟨"name", .isNull, none⟩) ∧
    WellFormed Test.IsWireValid (.test ⟨"name", .isNull, none⟩) ∧
    ofJson (toJson (.test ⟨"name", .isNull, none⟩)) = .ok (.test ⟨"name", .isNull, none⟩) := by
  have valid : Test.IsWireValid ⟨"born", .less, some (.date ⟨1987, 11, 6⟩)⟩ := by
    refine ⟨by decide, fun operand member => ?_⟩
    cases member
    exact ⟨nofun, nofun⟩
  have read : ofJson (.object [("field", .string "name"), ("op", .string "isnull"), ("value", .null)]) =
      .ok (.test ⟨"name", .isNull, none⟩) := rfl
  exact ⟨wire_round_trip.1 _ (.not (.test valid)), read, wire_round_trip.2 _ _ read⟩

end Filter

end Sift

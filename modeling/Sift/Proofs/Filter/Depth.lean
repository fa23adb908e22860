import Mathlib.Data.List.Permutation
import Sift.Proofs.Filter.Wire
import Sift.Proofs.Grammar.Criteria
import Sift.Proofs.Json.RoundTrip

namespace Sift

namespace Operand

theorem depth_toJson (operand : Operand) : operand.toJson.depth = 0 := by
  cases operand with
  | float x => cases x <;> rfl
  | _ => rfl

theorem settled_toJson (operand : Operand) : operand.toJson.settled = operand.toJson := by
  cases operand with
  | float x => cases x <;> rfl
  | _ => rfl

theorem isWhole_toJson {operand : Operand} (notFloat : ∀ x, operand ≠ float x) : operand.toJson.IsWhole := by
  cases operand with
  | integer n fits => exact .integer _
  | float x => exact absurd rfl (notFloat x)
  | boolean b => exact .bool b
  | string text => exact .string text
  | date d => exact .string d.text
  | time t => exact .string t.text
  | dateTime d t => exact .string (dateTimeText d t)

end Operand

namespace Test

theorem depth_toJson (t : Test) : t.toJson.depth = 1 := by
  obtain ⟨field, operator, operand⟩ := t
  cases operand with
  | none => rfl
  | some operand =>
    have held : max operand.toJson.depth 0 = 0 := by rw [operand.depth_toJson, Nat.max_self]
    exact congrArg (fun deepest => max 0 (max 0 deepest) + 1) held

theorem settled_toJson (t : Test) : t.toJson.settled = t.toJson := by
  obtain ⟨field, operator, operand⟩ := t
  cases operand with
  | none => exact Json.ofFields_of_ascending (by decide : ["field", "op"].Pairwise (· < ·))
  | some operand =>
    simp only [toJson, Option.map_some, Option.toList_some, List.cons_append, List.nil_append,
      Json.settled_object, Json.settledFields_cons, Json.settledFields_nil, operand.settled_toJson]
    exact Json.ofFields_of_ascending (by decide : ["field", "op", "value"].Pairwise (· < ·))

theorem isWhole_toJson {t : Test} (valid : t.IsExact) : t.toJson.IsWhole := by
  obtain ⟨field, operator, operand⟩ := t
  cases operand with
  | none => exact .object (List.forall_mem_cons.mpr ⟨.string field, List.forall_mem_singleton.mpr (.string _)⟩)
  | some operand =>
    have held := Operand.isWhole_toJson (valid.2 operand rfl)
    exact .object (List.forall_mem_cons.mpr ⟨.string field, List.forall_mem_cons.mpr
      ⟨.string operator.code, List.forall_mem_singleton.mpr held⟩⟩)

end Test

namespace Filter

mutual

/-- How deeply a filter is nested on the wire: a test is an object, a join an object with an array in
it. -/
def depth : Filter → Nat
  | always => 2
  | test _ => 1
  | join _ parts => depthAll parts + 2
  | not inner => inner.depth + 1

def depthAll : List Filter → Nat
  | [] => 0
  | f :: fs => max f.depth (depthAll fs)

end

/-- A join is two levels deeper than its deepest part. -/
theorem depth_joinJson (order : KeyOrder) (logic : Logic) (parts : List Json) :
    (joinJson order logic parts).depth = Json.depthAll parts + 2 := by
  cases order with
  | ascending => exact congrArg Nat.succ (Nat.max_zero _)
  | tellingFirst => exact congrArg Nat.succ (Nat.zero_max _)

theorem settled_joinJson (order : KeyOrder) (logic : Logic) (parts : List Json) :
    (joinJson order logic parts).settled = joinJson .ascending logic (Json.settledAll parts) := by
  cases order with
  | ascending => exact Json.ofFields_of_ascending (by decide : ["filters", "logic"].Pairwise (· < ·))
  | tellingFirst => rfl

theorem isWhole_joinJson (order : KeyOrder) (logic : Logic) {parts : List Json}
    (each : ∀ part ∈ parts, part.IsWhole) : (joinJson order logic parts).IsWhole := by
  have logicWhole : (Json.string logic.code).IsWhole := .string logic.code
  cases order with
  | ascending => exact .object (List.forall_mem_cons.mpr ⟨.array each, List.forall_mem_singleton.mpr logicWhole⟩)
  | tellingFirst => exact .object (List.forall_mem_cons.mpr ⟨logicWhole, List.forall_mem_singleton.mpr (.array each)⟩)

theorem wireAll_eq_map (order : KeyOrder) (fs : List Filter) : wireAll order fs = fs.map (wire order) := by
  induction fs with
  | nil => rfl
  | cons f fs ih => rw [wireAll, ih, List.map_cons]

/-- Filters are as deep in JSON as they say. -/
theorem depth_wire (order : KeyOrder) (f : Filter) : (f.wire order).depth = f.depth := by
  induction f with
  | always => rw [wire, depth_joinJson, Json.depthAll_nil, depth]
  | test t => rw [wire, t.depth_toJson, depth]
  | join logic parts ih =>
    have all : Json.depthAll (wireAll order parts) = depthAll parts := by
      induction parts with
      | nil => rfl
      | cons part parts others =>
        obtain ⟨first, each⟩ := List.forall_mem_cons.mp ih
        rw [wireAll, Json.depthAll_cons, depthAll, first, others each]
    rw [wire, depth_joinJson, all, depth]
  | not inner ih =>
    rw [wire, Json.depth_object, Json.depthFields_cons, Json.depthFields_nil, ih, Nat.max_zero, depth]

/-- Whatever the order in which the keys are written, they are read in ascending order. -/
theorem settled_wire (order : KeyOrder) (f : Filter) : (f.wire order).settled = f.toJson := by
  unfold toJson
  induction f with
  | always => rw [wire, settled_joinJson, Json.settledAll_nil, wire]
  | test t => rw [wire, t.settled_toJson, wire]
  | join logic parts ih =>
    have all : Json.settledAll (wireAll order parts) = wireAll .ascending parts := by
      induction parts with
      | nil => rfl
      | cons part parts others =>
        obtain ⟨first, each⟩ := List.forall_mem_cons.mp ih
        rw [wireAll, Json.settledAll_cons, wireAll, first, others each]
    rw [wire, settled_joinJson, all, wire]
  | not inner ih =>
    rw [wire, wire, Json.settled_object, Json.settledFields_cons, Json.settledFields_nil, ih]
    exact Json.ofFields_of_ascending (List.pairwise_singleton ..)

/-- A filter without binary64 numbers has none in its JSON. -/
theorem isWhole_wire (order : KeyOrder) {f : Filter} (valid : f.WellFormed Test.IsExact) :
    (f.wire order).IsWhole := by
  induction valid with
  | always => exact isWhole_joinJson order .and nofun
  | test holds => exact Test.isWhole_toJson holds
  | @join logic parts _ _ ih =>
    refine isWhole_joinJson order logic ?_
    rw [wireAll_eq_map]
    exact List.forall_mem_map.mpr ih
  | not _ ih => exact .object (List.forall_mem_singleton.mpr ih)

/-- A filter is read back from its text, in either order of keys, if JSON may be nested so deeply, and
the text is refused if not. -/
theorem decode_wire_text (order : KeyOrder) {f : Filter} (valid : f.WellFormed Test.IsExact) :
    decode (f.wire order).text =
      if f.depth ≤ Json.depthLimit then .ok f.textual else .error (.malformedFilter .notJson) := by
  have arrives : ofJson f.toJson = .ok f.textual :=
    ofJson_eq_ok.mpr ((valid.mono fun _ => Test.IsExact.isWireValid).shape .ascending)
  rw [decode, Json.read?_text (isWhole_wire order valid), depth_wire, settled_wire]
  by_cases shallow : f.depth ≤ Json.depthLimit
  · rw [if_pos shallow, if_pos shallow]
    exact arrives
  · rw [if_neg shallow, if_neg shallow]

/-- A filter without binary64 numbers is read back from its JSON text, with its dates and times as text,
if its depth is at most 127, and is refused if not; so is its text with the keys in the other order. Every
query compiles to such a filter. -/
theorem decode_exactly_to_depth :
    (∀ f : Filter, f.WellFormed Test.IsExact →
      (f.depth ≤ 127 → decode f.encode = .ok f.textual ∧ decode f.serialized = .ok f.textual) ∧
      (127 < f.depth → decode f.encode = .error (.malformedFilter .notJson) ∧
        decode f.serialized = .error (.malformedFilter .notJson))) ∧
    ∀ (resolver : Resolver) text f, Resolver.compile resolver text = .ok f → f.WellFormed Test.IsExact := by
  refine ⟨fun f valid => ⟨fun shallow => ?_, fun deep => ?_⟩, fun _ _ _ => isExact_of_compile⟩
  · have read : ∀ order, decode (f.wire order).text = .ok f.textual := fun order =>
      (decode_wire_text order valid).trans (if_pos shallow)
    exact ⟨read .ascending, read .tellingFirst⟩
  · have refused : ∀ order, decode (f.wire order).text = .error (.malformedFilter .notJson) := fun order =>
      (decode_wire_text order valid).trans (if_neg (Nat.not_le.mpr deep))
    exact ⟨refused .ascending, refused .tellingFirst⟩

/-- Of a filter inside negations, 125 of them come back and 126 do not. -/
theorem decode_exactly_to_depth_negations :
    decode (encode (Nat.repeat Filter.not 125 .always)) = .ok (Nat.repeat Filter.not 125 .always) ∧
    decode (encode (Nat.repeat Filter.not 126 .always)) = .error (.malformedFilter .notJson) ∧
    decode (serialized (.join .or
      [.comparing "born" .less (.date ⟨1987, 11, 6⟩), .probing "born" .isNull])) =
      .ok (.join .or [.comparing "born" .less (.string "1987-11-06"), .probing "born" .isNull]) ∧
    Resolver.compile Target.anything.resolve? "a=!(1,2)" =
      .ok (.not (.join .and [.comparing "a" .equal (.string "1"), .comparing "a" .equal (.string "2")])) ∧
    WellFormed Test.IsExact
      (.not (.join .and [.comparing "a" .equal (.string "1"), .comparing "a" .equal (.string "2")])) := by
  have negations : ∀ n, WellFormed Test.IsExact (Nat.repeat Filter.not n .always) ∧
      (Nat.repeat Filter.not n .always).depth = n + 2 ∧
      (Nat.repeat Filter.not n .always).textual = Nat.repeat Filter.not n .always := by
    intro n
    induction n with
    | zero => exact ⟨.always, rfl, rfl⟩
    | succ n ih =>
      obtain ⟨valid, depth, same⟩ := ih
      exact ⟨.not valid, congrArg Nat.succ depth, congrArg Filter.not same⟩
  obtain ⟨valid, depth, same⟩ := negations 125
  obtain ⟨valid', depth', -⟩ := negations 126
  have within := (decode_exactly_to_depth.1 _ valid).1 (Nat.le_of_eq depth)
  have beyond := (decode_exactly_to_depth.1 _ valid').2 (Nat.le_of_eq depth'.symm)
  rw [same] at within
  have joined : WellFormed Test.IsExact (.join .or
      [.comparing "born" .less (.date ⟨1987, 11, 6⟩), .probing "born" .isNull]) := by
    refine .join (by decide) (List.forall_mem_cons.mpr ⟨.test ?_, List.forall_mem_singleton.mpr (.test ?_)⟩)
    · refine ⟨by decide, fun operand member => ?_⟩
      cases member
      exact nofun
    · exact ⟨by decide, fun operand member => absurd member (Option.not_mem_none operand)⟩
  have read : Criterion.readList "a=!(1,2)" =
      .ok [⟨⟨["a"]⟩, .not (.group (.and (.constant "1") (.constant "2")))⟩] := by with_unfolding_all rfl
  have compiled : Resolver.compile Target.anything.resolve? "a=!(1,2)" = .ok (.not (.join .and
      [.comparing "a" .equal (.string "1"), .comparing "a" .equal (.string "2")])) := by
    have filled : isBlankText "a=!(1,2)" = false := by decide
    rw [Resolver.compile, filled, read]
    rfl
  exact ⟨within.1, beyond.1, ((decode_exactly_to_depth.1 _ joined).1 (by decide)).2, compiled,
    decode_exactly_to_depth.2 _ _ _ compiled⟩

end Filter

end Sift

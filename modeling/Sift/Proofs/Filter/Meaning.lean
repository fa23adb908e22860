import Mathlib.Data.List.Basic
import Sift.Proofs.Filter.Acceptance

namespace Sift

namespace Json

/-- What an object has in a field, if one is followed further there. No other value has fields. -/
def alongField (name : String) (further : Json → List Json) : Json → List Json
  | object fields =>
    match fields.find? (·.1 = name) with
    | some (_, value) => further value
    | none => []
  | _ => []

/-- The values that a document has along some names. An array on the way, or at the end, stands for
its items. -/
def valuesAlong : List String → Json → List Json
  | [], array items => items
  | [], json => [json]
  | name :: names, array items => items.flatMap (alongField name (valuesAlong names))
  | name :: names, json => alongField name (valuesAlong names) json

/-- The text of a value. Null, arrays and objects have none. -/
inductive IsText : Json → String → Prop
  | string {text} : IsText (.string text) text
  | number {n : JsonNumber} : IsText (.number n) (String.ofList n.text)
  | yes : IsText (.bool true) "true"
  | no : IsText (.bool false) "false"

end Json

/-- Whether one of some values stands in an order to a value of a query. -/
def Operand.MetBy (orders : List Ordering) (values : List Json) (operand : Operand) : Prop :=
  ∃ value ∈ values, ∃ order ∈ orders, value.compare? operand = some order

/-- Whether one of some values stands in an order to a bound. What is unbounded asks for nothing. -/
def Boundary.Met (orders : List Ordering) (values : List Json) : Boundary → Prop
  | unbounded => True
  | constant text => (Operand.string text).MetBy orders values
  | date d => (Operand.date d).MetBy orders values
  | time t => (Operand.time t).MetBy orders values
  | dateTime d t => (Operand.dateTime d t).MetBy orders values

namespace Expression

/-- Whether one of some values equals a value of a query. -/
def EqualsOne (values : List Json) (operand : Operand) : Prop :=
  ∃ value ∈ values, value.compare? operand = some .eq

/-- Whether one of some values has a text that meets a condition. -/
def HasText (values : List Json) (condition : List Char → Prop) : Prop :=
  ∃ value ∈ values, ∃ text, value.IsText text ∧ condition text.toList

mutual

/-- What an expression says of the values at a field. -/
def Holds (values : List Json) : Expression → Prop
  | anything => True
  | constant text => EqualsOne values (.string text)
  | startsWith text => HasText values (text.toList <+: ·)
  | endsWith text => HasText values (text.toList <:+ ·)
  | contains text => HasText values (text.toList <:+: ·)
  | oneOf variants => SomeHolds values variants
  | interval min max => min.Met [.gt, .eq] values ∧ max.Met [.lt, .eq] values
  | group inner => inner.Holds values
  | and left right => left.Holds values ∧ right.Holds values
  | or left right => left.Holds values ∨ right.Holds values
  | not inner => ¬inner.Holds values
  | path p => EqualsOne values (.string p.dotted)
  | date d => EqualsOne values (.date d)
  | time t => EqualsOne values (.time t)
  | dateTime d t => EqualsOne values (.dateTime d t)

/-- That one of some expressions holds. -/
def SomeHolds (values : List Json) : List Expression → Prop
  | [] => False
  | e :: es => e.Holds values ∨ SomeHolds values es

end

theorem someHolds_iff {values : List Json} {es : List Expression} :
    SomeHolds values es ↔ ∃ e ∈ es, e.Holds values := by
  induction es with
  | nil => simp [SomeHolds]
  | cons e es ih => simp only [SomeHolds, ih, List.mem_cons, exists_eq_or_imp]

/-- The expressions within an expression, itself among them. -/
inductive Within (part : Expression) : Expression → Prop
  | self : Within part part
  | variant {variants e} : e ∈ variants → Within part e → Within part (.oneOf variants)
  | group {e} : Within part e → Within part (.group e)
  | andLeft {e right} : Within part e → Within part (.and e right)
  | andRight {left e} : Within part e → Within part (.and left e)
  | orLeft {e right} : Within part e → Within part (.or e right)
  | orRight {left e} : Within part e → Within part (.or left e)
  | not {e} : Within part e → Within part (.not e)

/-- Expressions that lose nothing as filters: there is no class without variants in them, and nothing
that becomes a single order test is negated. -/
structure Faithful (field : String) (e : Expression) : Prop where
  variants : ¬Within (.oneOf []) e
  orders : ∀ inner, Within (.not inner) e → ∀ t, inner.filter field = .test t →
    t.operator.isOrder = false

mutual

/-- Whether an expression is faithful, found out part by part. -/
def isFaithful (field : String) : Expression → Bool
  | oneOf variants => !variants.isEmpty && areFaithful field variants
  | group inner => inner.isFaithful field
  | and left right => left.isFaithful field && right.isFaithful field
  | or left right => left.isFaithful field && right.isFaithful field
  | not inner =>
    inner.isFaithful field &&
      match inner.filter field with
      | .test t => !t.operator.isOrder
      | _ => true
  | _ => true

/-- Whether all of some expressions are faithful. -/
def areFaithful (field : String) : List Expression → Bool
  | [] => true
  | e :: es => e.isFaithful field && areFaithful field es

end

theorem areFaithful_eq_all (field : String) (es : List Expression) :
    areFaithful field es = es.all (isFaithful field) := by
  induction es with
  | nil => rfl
  | cons e es ih => rw [areFaithful, ih, List.all_cons]

namespace Faithful

variable {field : String} {left right inner : Expression}

/-- What an inner expression needs is part of what the outer one has. -/
theorem of_within {outer : Expression} (faithful : outer.Faithful field)
    (lift : ∀ part, Within part inner → Within part outer) : inner.Faithful field :=
  ⟨fun empty => faithful.variants (lift _ empty),
    fun negated within => faithful.orders negated (lift _ within)⟩

/-- An expression that is no class without variants and no negation is faithful if its parts are. -/
theorem of_parts {e : Expression} (filled : e ≠ .oneOf []) (positive : ∀ inner, e ≠ .not inner)
    (parts : ∀ part, Within part e → part = e ∨ ∃ other, other.Faithful field ∧ Within part other) :
    e.Faithful field where
  variants within := by
    rcases parts _ within with same | ⟨other, faithful, within⟩
    · exact filled same.symm
    · exact faithful.variants within
  orders inner within := by
    rcases parts _ within with same | ⟨other, faithful, within⟩
    · exact absurd same.symm (positive inner)
    · exact faithful.orders inner within

theorem of_leaf {e : Expression} (filled : e ≠ .oneOf []) (positive : ∀ inner, e ≠ .not inner)
    (leaf : ∀ part, Within part e → part = e) : e.Faithful field :=
  of_parts filled positive fun part within => .inl (leaf part within)

/-- A class is faithful if it has a variant and all of its variants are faithful. -/
theorem oneOf_iff {variants : List Expression} :
    (Expression.oneOf variants).Faithful field ↔ variants ≠ [] ∧ ∀ e ∈ variants, e.Faithful field := by
  constructor
  · intro faithful
    exact ⟨fun empty => faithful.variants (empty ▸ .self),
      fun e member => faithful.of_within fun _ => .variant member⟩
  · rintro ⟨filled, all⟩
    refine of_parts (by simpa using filled) (by simp) fun part within => ?_
    cases within with
    | self => exact .inl rfl
    | variant member within => exact .inr ⟨_, all _ member, within⟩

theorem group_iff : (Expression.group inner).Faithful field ↔ inner.Faithful field := by
  constructor
  · exact fun faithful => faithful.of_within fun _ => .group
  · intro faithful
    refine of_parts (by simp) (by simp) fun part within => ?_
    cases within with
    | self => exact .inl rfl
    | group within => exact .inr ⟨_, faithful, within⟩

theorem and_iff : (Expression.and left right).Faithful field ↔ left.Faithful field ∧ right.Faithful field := by
  constructor
  · exact fun faithful => ⟨faithful.of_within fun _ => .andLeft, faithful.of_within fun _ => .andRight⟩
  · rintro ⟨atLeft, atRight⟩
    refine of_parts (by simp) (by simp) fun part within => ?_
    cases within with
    | self => exact .inl rfl
    | andLeft within => exact .inr ⟨_, atLeft, within⟩
    | andRight within => exact .inr ⟨_, atRight, within⟩

theorem or_iff : (Expression.or left right).Faithful field ↔ left.Faithful field ∧ right.Faithful field := by
  constructor
  · exact fun faithful => ⟨faithful.of_within fun _ => .orLeft, faithful.of_within fun _ => .orRight⟩
  · rintro ⟨atLeft, atRight⟩
    refine of_parts (by simp) (by simp) fun part within => ?_
    cases within with
    | self => exact .inl rfl
    | orLeft within => exact .inr ⟨_, atLeft, within⟩
    | orRight within => exact .inr ⟨_, atRight, within⟩

/-- Only under a negation does it matter whether an expression comes to a single order test. -/
theorem not_iff : (Expression.not inner).Faithful field ↔
    inner.Faithful field ∧ ∀ t, inner.filter field = .test t → t.operator.isOrder = false := by
  constructor
  · exact fun faithful => ⟨faithful.of_within fun _ => .not, faithful.orders inner .self⟩
  · rintro ⟨faithful, orders⟩
    constructor
    · intro within
      cases within with
      | not within => exact faithful.variants within
    · intro other within
      cases within with
      | self => exact orders
      | not within => exact faithful.orders other within

end Faithful

/-- What is found out part by part is what `Faithful` says of all that is within. -/
theorem isFaithful_iff {field : String} {e : Expression} : e.isFaithful field = true ↔ e.Faithful field := by
  have leaf {e : Expression} (found : e.isFaithful field = true) (filled : e ≠ .oneOf [])
      (positive : ∀ inner, e ≠ .not inner) (alone : ∀ part, Within part e → part = e) :
      e.isFaithful field = true ↔ e.Faithful field :=
    iff_of_true found (.of_leaf filled positive alone)
  induction e with
  | oneOf variants ih =>
    rw [isFaithful, areFaithful_eq_all, Faithful.oneOf_iff, Bool.and_eq_true, List.all_eq_true]
    exact and_congr (by simp) (forall₂_congr ih)
  | group inner ih => exact ih.trans Faithful.group_iff.symm
  | and left right atLeft atRight =>
    rw [isFaithful, Bool.and_eq_true, Faithful.and_iff]
    exact and_congr atLeft atRight
  | or left right atLeft atRight =>
    rw [isFaithful, Bool.and_eq_true, Faithful.or_iff]
    exact and_congr atLeft atRight
  | not inner ih =>
    rw [isFaithful, Bool.and_eq_true, Faithful.not_iff]
    refine and_congr ih ?_
    cases inner.filter field <;> simp
  | _ => exact leaf rfl (by simp) (by simp) fun part within => by cases within; rfl

instance (field : String) (e : Expression) : Decidable (e.Faithful field) :=
  decidable_of_iff _ isFaithful_iff

end Expression

namespace Json

/-- A field of an object is the first one of its name. -/
theorem field?_eq_find? (name : String) (fields : List (String × Json)) :
    field? name fields = (fields.find? (·.1 = name)).map Prod.snd := by
  induction fields with
  | nil => rfl
  | cons field fields ih =>
    obtain ⟨key, value⟩ := field
    by_cases here : key = name
    · rw [field?, if_pos here, List.find?_cons_of_pos (by simpa using here), Option.map_some]
    · rw [field?, if_neg here, List.find?_cons_of_neg (by simpa using here), ih]

theorem alongField_eq (name : String) (further : Json → List Json) (json : Json) :
    alongField name further json = (json.get? name).toList.flatMap further := by
  cases json with
  | object fields =>
    rw [alongField, get?, field?_eq_find?]
    cases fields.find? (·.1 = name) <;> simp
  | _ => rfl

/-- At the end of the way an array stands for its items, as it does for a filter. -/
theorem valuesAlong_nil (json : Json) : json.valuesAlong [] = json.elements := by
  cases json <;> rfl

theorem valuesAlong_cons (name : String) (names : List String) (json : Json) :
    json.valuesAlong (name :: names) = json.elements.flatMap (alongField name (valuesAlong names)) := by
  cases json with
  | array items => rfl
  | _ => exact (List.flatMap_singleton ..).symm

/-- A filter looks at the texts that values have. -/
theorem plain?_eq_some_iff {json : Json} {text : String} : json.plain? = some text ↔ json.IsText text := by
  constructor
  · intro plain
    cases json with
    | string text => cases plain; exact .string
    | number n => cases plain; exact .number
    | bool b =>
      cases plain
      cases b with
      | true => exact .yes
      | false => exact .no
    | null | array | object => cases plain
  · intro isText
    cases isText <;> rfl

/-- A filter follows all values at once a step further, `valuesAlong` one value to its end. -/
theorem elements_foldl_step (names : List String) (values : List Json) :
    (names.foldl step values).flatMap elements = values.flatMap (valuesAlong names) := by
  induction names generalizing values with
  | nil => rw [List.foldl_nil, funext valuesAlong_nil]
  | cons name names ih =>
    have along (json : Json) : json.valuesAlong (name :: names) =
        json.elements.flatMap fun item => (item.get? name).toList.flatMap (valuesAlong names) := by
      rw [valuesAlong_cons, funext (alongField_eq name _)]
    rw [List.foldl_cons, ih, step, List.filterMap_eq_flatMap_toList, List.flatMap_assoc, List.flatMap_assoc,
      funext along]

/-- What a filter looks at is what lies along the names of its field. -/
theorem elements_reached (document : Json) (field : String) :
    (document.reached field).flatMap elements =
      document.valuesAlong (PropertyPath.ofDotted field).segments := by
  unfold reached
  rw [elements_foldl_step, List.flatMap_singleton]
  rfl

end Json

namespace Boundary

variable {orders : List Ordering} {values : List Json}

/-- A bound that a test is made of asks what the test asks. -/
theorem met_iff {boundary : Boundary} :
    boundary.Met orders values ↔ ∀ operand ∈ boundary.operand?, operand.MetBy orders values := by
  cases boundary <;> simp [Met, operand?]

theorem met_of_operand? {boundary : Boundary} {operand : Operand} (bounded : boundary.operand? = some operand) :
    boundary.Met orders values ↔ operand.MetBy orders values := by
  simp [met_iff, bounded]

end Boundary

namespace Filter

variable {document : Json} {field : String}

/-- A test for a value finds it along the names of its field. -/
theorem accepts_equal {operand : Operand} :
    (comparing field .equal operand).accepts document = true ↔
      Expression.EqualsOne (document.valuesAlong (PropertyPath.ofDotted field).segments) operand := by
  rw [accepts_comparing rfl rfl, document.elements_reached, List.any_eq_true]
  simp only [Operator.holds, beq_iff_eq, Expression.EqualsOne]

/-- A test of texts holds if a value along the names of its field has such a text. -/
theorem accepts_text {operator : Operator} {text : String} {condition : List Char → List Char → Bool}
    (binary : operator.isUnary = false) (positive : operator.positive = operator)
    (looks : ∀ json operand, operator.holds json operand = Operator.holdsText condition json operand) :
    (comparing field operator (.string text)).accepts document = true ↔
      Expression.HasText (document.valuesAlong (PropertyPath.ofDotted field).segments)
        (condition text.toList · = true) := by
  rw [accepts_comparing binary positive, document.elements_reached, List.any_eq_true]
  simp only [looks, Operator.holdsText_iff, Operand.text, Json.plain?_eq_some_iff, Expression.HasText]

/-- A bound is tested as it reads, also where there is none. -/
theorem accepts_bound {operator : Operator} {orders : List Ordering} {boundary : Boundary}
    (binary : operator.isUnary = false) (positive : operator.positive = operator)
    (looks : ∀ json operand, operator.holds json operand = true ↔
      ∃ order ∈ orders, json.compare? operand = some order) :
    (boundary.tests field operator).all (accepts document) = true ↔
      boundary.Met orders (document.valuesAlong (PropertyPath.ofDotted field).segments) := by
  unfold Boundary.tests
  cases bounded : boundary.operand? with
  | none => simp [Boundary.met_iff, bounded]
  | some operand =>
    rw [Boundary.met_of_operand? bounded, Option.toList_some, List.map_singleton, List.all_cons, List.all_nil,
      Bool.and_true, accepts_comparing binary positive, document.elements_reached, List.any_eq_true]
    simp only [looks, Operand.MetBy]

end Filter

theorem Expression.filter_ne_join_nil (field : String) (e : Expression) (logic : Logic) :
    e.filter field ≠ .join logic [] := by
  intro empty
  have formed := e.filter_wellFormed field
  rw [empty] at formed
  cases formed with
  | join two _ => exact absurd two (by decide)

/-- Of joined variants one must hold, and none of them is lost if there is any. -/
theorem Expression.accepts_joined_filters (field : String) (document : Json) {es : List Expression}
    (nonempty : es ≠ []) :
    (Filter.joined .or (es.map (filter field))).accepts document = true ↔
      ∃ e ∈ es, (e.filter field).accepts document = true := by
  obtain ⟨first, member⟩ := List.exists_mem_of_ne_nil es nonempty
  rw [Filter.accepts_joined_or document (List.mem_map_of_mem member)
    (first.filter_ne_join_nil field .or), List.any_map, List.any_eq_true]
  rfl

/-- Groups, joins and negations of the filter of an expression answer as the expression reads. The
variants of a class are not all absorbed, and a negation is a complement, for a faithful one. -/
theorem Expression.accepts_filter_iff_holds {field : String} {e : Expression}
    (faithful : e.Faithful field) (document : Json) :
    (e.filter field).accepts document = true ↔
      e.Holds (document.valuesAlong (PropertyPath.ofDotted field).segments) := by
  induction e with
  | anything => simp [filter, Filter.accepts, Holds]
  | constant text => exact Filter.accepts_equal
  | startsWith text =>
    rw [filter, Filter.accepts_text rfl rfl fun _ _ => rfl]
    simp only [List.isPrefixOf_iff_prefix, Holds]
  | endsWith text =>
    rw [filter, Filter.accepts_text rfl rfl fun _ _ => rfl]
    simp only [List.isSuffixOf_iff_suffix, Holds]
  | contains text =>
    rw [filter, Filter.accepts_text rfl rfl fun _ _ => rfl]
    simp only [occursIn_iff, Holds]
  | oneOf variants ih =>
    have nonempty : variants ≠ [] := fun empty => faithful.variants (empty ▸ .self)
    rw [filter, filters_eq_map, accepts_joined_filters field document nonempty, Holds, someHolds_iff]
    refine exists_congr fun variant => and_congr_right fun member => ?_
    exact ih variant member (faithful.of_within fun _ => .variant member)
  | interval min max =>
    rw [filter, Filter.accepts_joined_and, List.all_append, Bool.and_eq_true, Holds]
    refine and_congr (Filter.accepts_bound rfl rfl fun json operand => ?_)
      (Filter.accepts_bound rfl rfl fun json operand => ?_)
    · simp [Operator.holds]
    · simp [Operator.holds]
  | group inner ih => exact ih (faithful.of_within fun _ => .group)
  | and left right atLeft atRight =>
    rw [filter, Filter.accepts_joined_and, Holds,
      ← atLeft (faithful.of_within fun _ => .andLeft), ← atRight (faithful.of_within fun _ => .andRight)]
    simp
  | or left right atLeft atRight =>
    have either := accepts_joined_filters field document (List.cons_ne_nil left [right])
    rw [filter, Holds, ← atLeft (faithful.of_within fun _ => .orLeft),
      ← atRight (faithful.of_within fun _ => .orRight)]
    simpa using either
  | not inner ih =>
    rw [filter, Filter.accepts_negated (inner.filter_wellFormed field) (faithful.orders inner .self),
      Holds, ← ih (faithful.of_within fun _ => .not)]
    simp
  | path p => exact Filter.accepts_equal
  | date d => exact Filter.accepts_equal
  | time t => exact Filter.accepts_equal
  | dateTime d t => exact Filter.accepts_equal

/-- The parts of this expression are met by different values, all of which lie behind arrays. -/
theorem Expression.holds_behind_arrays :
    let document : Json := .object [("Hero", .array [
      .object [("Tags", .array [.string "brave", .number (.int 42 (by decide))])],
      .object [("Name", .string "Gale")],
      .object [("Tags", .string "a.b")],
      .object [("Tags", .array [.string "2010-06-05", .bool true, .null])]])]
    let e : Expression :=
      .and (.and (.oneOf [.constant "bold", .constant "brave"]) (.startsWith "a."))
        (.and (.and (.endsWith "2") (.contains "ru"))
          (.and (.and (.path ⟨["a", "b"]⟩) (.interval (.constant "aa") (.constant "b")))
            (.and (.not (.group (.constant "Gale")))
              (.or (.constant "x") (.and (.date ⟨2010, 6, 5⟩) (.constant "42"))))))
    e.Faithful "Hero.Tags" ∧
      document.valuesAlong (PropertyPath.ofDotted "Hero.Tags").segments =
        [.string "brave", .number (.int 42 (by decide)), .string "a.b", .string "2010-06-05", .bool true,
          .null] ∧
      (e.filter "Hero.Tags").accepts document = true ∧
      e.Holds (document.valuesAlong (PropertyPath.ofDotted "Hero.Tags").segments) := by
  intro document e
  have faithful : e.Faithful "Hero.Tags" := by decide
  have accepted : (e.filter "Hero.Tags").accepts document = true := by decide +kernel
  exact ⟨faithful, rfl, accepted, (accepts_filter_iff_holds faithful document).mp accepted⟩

end Sift

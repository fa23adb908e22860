import Sift.Target

namespace Sift

/-- Induction on filters, with all parts of a join at once. -/
@[elab_as_elim, induction_eliminator]
theorem Filter.induction {motive : Filter → Prop} (always : motive .always)
    (test : ∀ t, motive (.test t))
    (join : ∀ logic parts, (∀ part ∈ parts, motive part) → motive (.join logic parts))
    (not : ∀ inner, motive inner → motive (.not inner)) : ∀ f, motive f
  | .always => always
  | .test t => test t
  | .join logic parts => join logic parts fun part _ => induction always test join not part
  | .not inner => not inner (induction always test join not inner)

section
variable {motive : Expression → Prop} (anything : motive .anything)
  (constant : ∀ text, motive (.constant text)) (startsWith : ∀ text, motive (.startsWith text))
  (endsWith : ∀ text, motive (.endsWith text)) (contains : ∀ text, motive (.contains text))
  (oneOf : ∀ variants, (∀ variant ∈ variants, motive variant) → motive (.oneOf variants))
  (interval : ∀ min max, motive (.interval min max))
  (group : ∀ inner, motive inner → motive (.group inner))
  (and : ∀ left right, motive left → motive right → motive (.and left right))
  (or : ∀ left right, motive left → motive right → motive (.or left right))
  (not : ∀ inner, motive inner → motive (.not inner))
  (path : ∀ p, motive (.path p)) (date : ∀ d, motive (.date d)) (time : ∀ t, motive (.time t))
  (dateTime : ∀ d t, motive (.dateTime d t))

include anything constant startsWith endsWith contains oneOf interval group and or not path date time
  dateTime in
/-- Induction on expressions, with all variants of a class at once. -/
@[elab_as_elim, induction_eliminator]
theorem Expression.induction : ∀ e, motive e
  | .anything => anything
  | .constant text => constant text
  | .startsWith text => startsWith text
  | .endsWith text => endsWith text
  | .contains text => contains text
  | .oneOf variants => oneOf variants fun variant _ => induction variant
  | .interval min max => interval min max
  | .group inner => group inner (induction inner)
  | .and left right => and left right (induction left) (induction right)
  | .or left right => or left right (induction left) (induction right)
  | .not inner => not inner (induction inner)
  | .path p => path p
  | .date d => date d
  | .time t => time t
  | .dateTime d t => dateTime d t

end

namespace Filter

/-- A filter whose joins all have two parts or more, and whose tests all are of one kind. -/
inductive WellFormed (allowed : Test → Prop) : Filter → Prop
  | always : WellFormed allowed .always
  | test {t} : allowed t → WellFormed allowed (.test t)
  | join {logic parts} : 2 ≤ parts.length → (∀ part ∈ parts, WellFormed allowed part) →
      WellFormed allowed (.join logic parts)
  | not {inner} : WellFormed allowed inner → WellFormed allowed (.not inner)

variable {allowed : Test → Prop}

theorem WellFormed.mono {other : Test → Prop} {f : Filter} (formed : f.WellFormed allowed)
    (weaker : ∀ t, allowed t → other t) : f.WellFormed other := by
  induction formed with
  | always => exact .always
  | test holds => exact .test (weaker _ holds)
  | join two _ ih => exact .join two ih
  | not _ ih => exact .not ih

theorem WellFormed.partsIn {f : Filter} (formed : f.WellFormed allowed) (logic : Logic) :
    ∀ part ∈ f.partsIn logic, part.WellFormed allowed := by
  intro part member
  cases formed with
  | always => simp [Filter.partsIn] at member
  | test holds =>
    obtain rfl : part = _ := List.mem_singleton.mp member
    exact .test holds
  | @join inner parts two each =>
    simp only [Filter.partsIn] at member
    split at member
    · exact each part member
    · obtain rfl : part = _ := List.mem_singleton.mp member
      exact .join two each
  | not inner =>
    obtain rfl : part = _ := List.mem_singleton.mp member
    exact .not inner

theorem WellFormed.ofParts {parts : List Filter} (formed : ∀ part ∈ parts, part.WellFormed allowed)
    (logic : Logic) : (ofParts logic parts).WellFormed allowed := by
  match parts with
  | [] => exact .always
  | [part] => exact formed part (List.mem_singleton_self part)
  | first :: second :: rest => exact .join (by simp) formed

/-- To join well-formed filters leaves no join of fewer than two parts. -/
theorem WellFormed.joined {fs : List Filter} (formed : ∀ f ∈ fs, f.WellFormed allowed)
    (logic : Logic) : (joined logic fs).WellFormed allowed := by
  unfold Filter.joined
  split
  · exact .always
  · apply WellFormed.ofParts
    intro part member
    obtain ⟨f, within, inParts⟩ := List.mem_flatMap.mp member
    exact (formed f within).partsIn logic part inParts

theorem WellFormed.negated {f : Filter} (formed : f.WellFormed allowed)
    (flips : ∀ t, allowed t → allowed t.negated) : f.negated.WellFormed allowed := by
  cases formed with
  | always => exact .not .always
  | test holds => exact .test (flips _ holds)
  | join two each => exact .not (.join two each)
  | not inner => exact inner

end Filter

/-- A test that compares with a value: the only kind that a query can ask for. -/
def Test.Compares (t : Test) : Prop :=
  t.operator.isUnary = false ∧ t.operand.isSome = true

theorem Test.Compares.negated {t : Test} (compares : t.Compares) : t.negated.Compares :=
  ⟨(Operator.isUnary_negated t.operator).trans compares.1, compares.2⟩

/-- Values that a query can spell: texts, dates and times. -/
def Operand.isSpelled : Operand → Bool
  | string _ | date _ | time _ | dateTime _ _ => true
  | integer _ _ | float _ | boolean _ => false

/-- What a bound is compared with can be spelled in a query. -/
theorem Boundary.isSpelled_operand {boundary : Boundary} {operand : Operand}
    (bounded : boundary.operand? = some operand) : operand.isSpelled = true := by
  cases boundary with
  | unbounded => cases bounded
  | _ =>
    cases bounded
    rfl

/-- Properties that joining and negating keep: all filters of queries have them as soon as the
comparisons in them do. -/
structure Filter.Stable (holds : Filter → Prop) : Prop where
  always : holds .always
  joined : ∀ {fs : List Filter}, (∀ f ∈ fs, holds f) → ∀ logic, holds (Filter.joined logic fs)
  negated : ∀ {f : Filter}, holds f → holds f.negated

namespace Filter.Stable

/-- A condition on tests that negation keeps is stable on the trees of them. -/
theorem wellFormed {allowed : Test → Prop} (flips : ∀ t, allowed t → allowed t.negated) :
    Stable (WellFormed allowed) where
  always := .always
  joined := WellFormed.joined
  negated := fun formed => formed.negated flips

variable {holds : Filter → Prop} (stable : Stable holds)

include stable

theorem joinedWith {f g : Filter} (left : holds f) (right : holds g) (logic : Logic) :
    holds (Filter.joined logic [f, g]) := by
  apply stable.joined
  intro part member
  rcases List.mem_cons.mp member with rfl | last
  · exact left
  · rwa [List.mem_singleton.mp last]

theorem filterAll {criteria : List Criterion} (each : ∀ criterion ∈ criteria, holds criterion.filter) :
    holds (Criterion.filterAll criteria) := by
  apply stable.joined
  intro part member
  obtain ⟨criterion, within, rfl⟩ := List.mem_map.mp member
  exact each criterion within

end Filter.Stable

section
variable {holds : Filter → Prop} {field : String}
  (compares : ∀ operator operand, operator.isUnary = false → operand.isSpelled = true →
    holds (.comparing field operator operand))

include compares

theorem Boundary.tests_hold {operator : Operator} {boundary : Boundary}
    (binary : operator.isUnary = false) : ∀ f ∈ boundary.tests field operator, holds f := by
  intro f member
  obtain ⟨operand, within, rfl⟩ := List.mem_map.mp member
  have bounded := Option.mem_toList.mp within
  exact compares operator operand binary (isSpelled_operand bounded)

/-- The filter of an expression is built by joining and negating from comparisons of the field with
what a query can spell. -/
theorem Expression.filter_holds (stable : Filter.Stable holds) (e : Expression) :
    holds (e.filter field) := by
  induction e with
  | anything => exact stable.always
  | oneOf variants ih =>
    rw [Expression.filter, filters_eq_map]
    apply stable.joined
    intro f member
    obtain ⟨variant, within, rfl⟩ := List.mem_map.mp member
    exact ih variant within
  | interval min max =>
    apply stable.joined
    intro f member
    rcases List.mem_append.mp member with lower | upper
    · exact Boundary.tests_hold compares rfl f lower
    · exact Boundary.tests_hold compares rfl f upper
  | group inner ih => exact ih
  | and left right atLeft atRight => exact stable.joinedWith atLeft atRight .and
  | or left right atLeft atRight => exact stable.joinedWith atLeft atRight .or
  | not inner ih => exact stable.negated ih
  | _ => exact compares _ _ rfl rfl

end

/-- No test in the filter of an expression lacks its value. -/
theorem Expression.filter_wellFormed (field : String) (e : Expression) :
    (e.filter field).WellFormed Test.Compares := by
  have flips : ∀ t : Test, t.Compares → t.negated.Compares := fun _ holds => holds.negated
  exact filter_holds (fun _ _ binary _ => .test ⟨binary, rfl⟩) (.wellFormed flips) e

theorem map_eq_ok {α β ε : Type} {read : Except ε α} {f : α → β} {b : β} :
    read.map f = .ok b ↔ ∃ a, read = .ok a ∧ f a = b := by
  cases read <;> simp [Except.map]

/-- As for an expression, for a query, whatever its properties are called. -/
theorem Resolver.compile_holds {holds : Filter → Prop}
    (compares : ∀ field operator operand, operator.isUnary = false → operand.isSpelled = true →
      holds (.comparing field operator operand))
    (stable : Filter.Stable holds) {resolver : Resolver} {text : String} {f : Filter}
    (compiled : compile resolver text = .ok f) : holds f := by
  unfold compile at compiled
  split at compiled
  · cases compiled
    exact stable.always
  · split at compiled
    · cases compiled
    · obtain ⟨criteria, -, rfl⟩ := map_eq_ok.mp compiled
      exact stable.filterAll fun criterion _ => criterion.expression.filter_holds (compares _) stable

/-- A test that a query can ask for: it compares with a value that a query can spell. -/
def Test.IsSpelled (t : Test) : Prop :=
  t.operator.isUnary = false ∧ ∃ operand, t.operand = some operand ∧ operand.isSpelled = true

theorem Test.IsSpelled.negated {t : Test} (spelled : t.IsSpelled) : t.negated.IsSpelled :=
  ⟨(Operator.isUnary_negated t.operator).trans spelled.1, spelled.2⟩

/-- What a query compiles to compares with values that a query can spell. -/
theorem Resolver.isSpelled_of_compile {resolver : Resolver} {text : String} {f : Filter}
    (compiled : compile resolver text = .ok f) : f.WellFormed Test.IsSpelled := by
  have flips : ∀ t : Test, t.IsSpelled → t.negated.IsSpelled := fun _ spelled => spelled.negated
  refine compile_holds ?_ (.wellFormed flips) compiled
  intro field operator operand binary spelled
  exact .test ⟨binary, operand, rfl, spelled⟩

end Sift

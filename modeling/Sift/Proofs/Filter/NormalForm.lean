import Mathlib.Data.List.Permutation
import Sift.Proofs.Filter.Tree
import Sift.Proofs.Grammar.Criteria

namespace Sift

namespace Filter

/-- What may be a part of a join: not the filter that every document meets, and no join of the same
logic. -/
def FitsIn (logic : Logic) : Filter → Prop
  | always => False
  | join inner _ => inner ≠ logic
  | test _ | not _ => True

/-- What a negation may stand before: what has no opposite in other words. -/
def LacksOpposite : Filter → Prop
  | always | join _ _ => True
  | test _ | not _ => False

/-- Filters in normal form. -/
inductive Normal : Filter → Prop
  | always : Normal .always
  | test {t} : t.Compares → Normal (.test t)
  | join {logic parts} : 2 ≤ parts.length → (∀ part ∈ parts, part.FitsIn logic) →
      (∀ part ∈ parts, Normal part) → Normal (.join logic parts)
  | not {inner} : inner.LacksOpposite → Normal inner → Normal (.not inner)

/-- What fits into a join of a logic is no join that could be taken apart there. -/
theorem FitsIn.partsIn {logic : Logic} {f : Filter} (fits : f.FitsIn logic) : f.partsIn logic = [f] := by
  cases f with
  | always => exact fits.elim
  | join inner parts => exact if_neg fits
  | test _ | not _ => rfl

namespace Normal

/-- What a filter brings into a join fits there: the parts of a join of the same logic fitted there
already. -/
theorem partsIn {f : Filter} (normal : f.Normal) (logic : Logic) :
    ∀ part ∈ f.partsIn logic, part.FitsIn logic ∧ part.Normal := by
  intro part member
  have whole : f.FitsIn logic → part.FitsIn logic ∧ part.Normal := by
    intro fits
    rw [fits.partsIn, List.mem_singleton] at member
    exact member ▸ ⟨fits, normal⟩
  cases normal with
  | always => exact absurd member List.not_mem_nil
  | test compares => exact whole trivial
  | @join inner parts two fit each =>
    by_cases same : inner = logic
    · subst same
      have within : part ∈ parts := by simpa only [Filter.partsIn, if_true] using member
      exact ⟨fit part within, each part within⟩
    · exact whole same
  | not lacks inner => exact whole trivial

theorem ofParts {logic : Logic} {parts : List Filter}
    (each : ∀ part ∈ parts, part.FitsIn logic ∧ part.Normal) : (ofParts logic parts).Normal := by
  match parts with
  | [] => exact .always
  | [part] => exact (each part (List.mem_singleton_self part)).2
  | first :: second :: rest =>
    have two : 2 ≤ (first :: second :: rest).length := by
      simp only [List.length_cons]
      omega
    exact .join two (fun part member => (each part member).1) fun part member => (each part member).2

/-- Filters in normal form are joined to one in normal form. -/
theorem joined {fs : List Filter} (each : ∀ f ∈ fs, f.Normal) (logic : Logic) :
    (Filter.joined logic fs).Normal := by
  unfold Filter.joined
  split
  · exact .always
  · apply ofParts
    intro part member
    obtain ⟨f, within, inParts⟩ := List.mem_flatMap.mp member
    exact (each f within).partsIn logic part inParts

/-- A filter in normal form has a negation in normal form. -/
theorem negated {f : Filter} (normal : f.Normal) : f.negated.Normal := by
  cases normal with
  | always => exact .not trivial .always
  | test compares => exact .test compares.negated
  | join two fit each => exact .not trivial (.join two fit each)
  | not lacks inner => exact inner

theorem stable : Stable Normal where
  always := .always
  joined := joined
  negated := negated

end Normal

theorem normal_comparing (field : String) {operator : Operator} (binary : operator.isUnary = false)
    (operand : Operand) : (comparing field operator operand).Normal :=
  .test ⟨binary, rfl⟩

/-- The filter of an expression is in normal form. -/
theorem normal_expression (field : String) (e : Expression) : (e.filter field).Normal :=
  e.filter_holds (fun _ operand binary _ => normal_comparing field binary operand) Normal.stable

theorem normal_filterAll (criteria : List Criterion) : (Criterion.filterAll criteria).Normal :=
  Normal.stable.filterAll fun criterion _ => normal_expression _ criterion.expression

/-- Filters come out of expressions, criteria and queries in normal form, whatever the properties of a
query are called. -/
theorem normal_of_query :
    (∀ field (e : Expression), (e.filter field).Normal) ∧
    (∀ criteria, (Criterion.filterAll criteria).Normal) ∧
    ∀ (resolver : Resolver) text f, Resolver.compile resolver text = .ok f → f.Normal := by
  refine ⟨normal_expression, normal_filterAll, ?_⟩
  intro resolver text f compiled
  have comparisons : ∀ field operator operand, operator.isUnary = false → operand.isSpelled = true →
      (comparing field operator operand).Normal :=
    fun field _ operand binary _ => normal_comparing field binary operand
  exact Resolver.compile_holds comparisons Normal.stable compiled

/-- A query that nothing meets keeps its negation, which has no opposite to be replaced by. -/
theorem normal_of_query_nothing :
    Resolver.compile Target.anything.resolve? "a=!*" = .ok (.not .always) ∧ Normal (.not .always) := by
  have read : Criterion.readList "a=!*" = .ok [⟨⟨["a"]⟩, .not .anything⟩] := by with_unfolding_all rfl
  have filled : isBlankText "a=!*" = false := by decide
  have compiled : Resolver.compile Target.anything.resolve? "a=!*" = .ok (.not .always) := by
    rw [Resolver.compile, filled, read]
    rfl
  exact ⟨compiled, normal_of_query.2.2 _ _ _ compiled⟩

end Filter

end Sift

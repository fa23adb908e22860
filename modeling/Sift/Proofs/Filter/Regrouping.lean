import Mathlib.Logic.Relation
import Sift.Proofs.Filter.Joining

namespace Sift

namespace Expression

/-- One change of the grouping, in one place of an expression. -/
inductive Regroups : Expression → Expression → Prop
  | group (e) : Regroups (.group e) e
  | notNot (e) : Regroups (.not (.not e)) e
  | andAssoc (a b c) : Regroups (.and (.and a b) c) (.and a (.and b c))
  | orAssoc (a b c) : Regroups (.or (.or a b) c) (.or a (.or b c))
  | inVariant {e e'} (before after) : Regroups e e' →
      Regroups (.oneOf (before ++ e :: after)) (.oneOf (before ++ e' :: after))
  | inGroup {e e'} : Regroups e e' → Regroups (.group e) (.group e')
  | inNot {e e'} : Regroups e e' → Regroups (.not e) (.not e')
  | inAndLeft {e e'} (right) : Regroups e e' → Regroups (.and e right) (.and e' right)
  | inAndRight {e e'} (left) : Regroups e e' → Regroups (.and left e) (.and left e')
  | inOrLeft {e e'} (right) : Regroups e e' → Regroups (.or e right) (.or e' right)
  | inOrRight {e e'} (left) : Regroups e e' → Regroups (.or left e) (.or left e')

/-- One step of regrouping leaves no trace in a filter. -/
theorem Regroups.filter_eq {e e' : Expression} (step : Regroups e e') (field : String) :
    e.filter field = e'.filter field := by
  have normal := Filter.normal_expression field
  induction step with
  | group e => rfl
  | notNot e => exact (normal e).negated_negated
  | andAssoc a b c => exact Filter.joined_assoc (normal a) (normal b) (normal c)
  | orAssoc a b c => exact Filter.joined_assoc (normal a) (normal b) (normal c)
  | inVariant before after _ ih =>
    simp only [Expression.filter, filters_eq_map, List.map_append, List.map_cons, ih]
  | inGroup _ ih | inNot _ ih | inAndLeft _ _ ih | inAndRight _ _ ih | inOrLeft _ _ ih | inOrRight _ _ ih =>
    simp only [Expression.filter, ih]

/-- However often the grouping of an expression is changed, in either direction, its filter stays. -/
theorem filter_eq_of_regrouped {e e' : Expression} (regrouped : Relation.EqvGen Regroups e e')
    (field : String) : e.filter field = e'.filter field := by
  induction regrouped with
  | rel e e' step => exact step.filter_eq field
  | refl e => rfl
  | symm e e' _ ih => exact ih.symm
  | trans e between e' _ _ first second => exact first.trans second

/-- A negated chain with brackets around its beginning and two negations at its end. -/
theorem filter_eq_of_regrouped_negated :
    Relation.EqvGen Regroups
      (.not (.or (.group (.or (.constant "a") (.startsWith "b"))) (.not (.not (.endsWith "c")))))
      (.not (.or (.constant "a") (.or (.startsWith "b") (.endsWith "c")))) ∧
    filter "Name"
        (.not (.or (.group (.or (.constant "a") (.startsWith "b"))) (.not (.not (.endsWith "c"))))) =
      filter "Name" (.not (.or (.constant "a") (.or (.startsWith "b") (.endsWith "c")))) := by
  have bare := Regroups.group (.or (.constant "a") (.startsWith "b"))
  have turned := Regroups.orAssoc (.constant "a") (.startsWith "b") (.not (.not (.endsWith "c")))
  have plain := Regroups.notNot (.endsWith "c")
  have first := Relation.EqvGen.rel _ _ (bare.inOrLeft (.not (.not (.endsWith "c")))).inNot
  have second := Relation.EqvGen.rel _ _ turned.inNot
  have third := Relation.EqvGen.rel _ _ ((plain.inOrRight (.startsWith "b")).inOrRight (.constant "a")).inNot
  have regrouped := (first.trans _ _ _ second).trans _ _ _ third
  exact ⟨regrouped, filter_eq_of_regrouped regrouped "Name"⟩

end Expression

end Sift

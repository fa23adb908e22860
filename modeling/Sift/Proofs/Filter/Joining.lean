import Sift.Proofs.Filter.NormalForm

namespace Sift

namespace Filter

variable {logic : Logic}

theorem FitsIn.isAlways {f : Filter} (fits : f.FitsIn logic) : f.isAlways = false := by
  cases f with
  | always => exact fits.elim
  | _ => rfl

/-- Only the filter that every document meets brings nothing into a join. -/
theorem Normal.partsIn_ne_nil {f : Filter} (normal : f.Normal) (notAlways : f.isAlways = false)
    (logic : Logic) : f.partsIn logic ≠ [] := by
  cases normal with
  | always => cases notAlways
  | test compares => exact List.cons_ne_nil _ _
  | @join inner parts two fit each =>
    by_cases same : inner = logic
    · have filled : parts ≠ [] := List.ne_nil_of_length_pos (by omega)
      rwa [Filter.partsIn, if_pos same]
    · rw [Filter.partsIn, if_neg same]
      exact List.cons_ne_nil _ _
  | not lacks inner => exact List.cons_ne_nil _ _

/-- Parts that are put together can be taken apart again. -/
theorem partsIn_ofParts {parts : List Filter} (fit : ∀ part ∈ parts, part.FitsIn logic) :
    (ofParts logic parts).partsIn logic = parts := by
  match parts with
  | [] => rfl
  | [part] => exact (fit part (List.mem_singleton_self part)).partsIn
  | first :: second :: rest => exact if_pos rfl

theorem isAlways_ofParts {parts : List Filter} (filled : parts ≠ [])
    (fit : ∀ part ∈ parts, part.FitsIn logic) : (ofParts logic parts).isAlways = false := by
  match parts with
  | [] => exact absurd rfl filled
  | [part] => exact (fit part (List.mem_singleton_self part)).isAlways
  | first :: second :: rest => rfl

/-- Whether a join of some filters is met by every document because one of them is. -/
def Absorbed (logic : Logic) (fs : List Filter) : Prop :=
  logic = .or ∧ fs.any isAlways = true

/-- An "or" with a part that every document meets is such a filter. -/
theorem joined_of_absorbed {fs : List Filter} (absorbed : Absorbed logic fs) : joined logic fs = .always :=
  if_pos absorbed

/-- Otherwise the parts of joins of the same logic go into the join one by one. -/
theorem joined_of_not_absorbed {fs : List Filter} (kept : ¬Absorbed logic fs) :
    joined logic fs = ofParts logic (fs.flatMap (partsIn logic)) :=
  if_neg kept

theorem joined_of_fitsIn {fs : List Filter} (fit : ∀ f ∈ fs, f.FitsIn logic) :
    joined logic fs = ofParts logic fs := by
  have kept : ¬Absorbed logic fs := by
    rintro ⟨-, absorbed⟩
    obtain ⟨f, member, isAlways⟩ := List.any_eq_true.mp absorbed
    rw [(fit f member).isAlways] at isAlways
    cases isAlways
  have parts : fs.flatMap (partsIn logic) = fs := by
    rw [List.flatMap_congr fun f member => (fit f member).partsIn, List.flatMap_singleton']
  rw [joined_of_not_absorbed kept, parts]

theorem fitsIn_of_mem_partsIn {fs : List Filter} (each : ∀ f ∈ fs, f.Normal) :
    ∀ part ∈ fs.flatMap (partsIn logic), part.FitsIn logic := by
  intro part member
  obtain ⟨f, within, inParts⟩ := List.mem_flatMap.mp member
  exact ((each f within).partsIn logic part inParts).1

/-- A join of filters in normal form brings into another join what the filters would bring into it
themselves. -/
theorem partsIn_joined {fs : List Filter} (each : ∀ f ∈ fs, f.Normal) (kept : ¬Absorbed logic fs) :
    (joined logic fs).partsIn logic = fs.flatMap (partsIn logic) := by
  rw [joined_of_not_absorbed kept, partsIn_ofParts (fitsIn_of_mem_partsIn each)]

theorem isAlways_joined_or {fs : List Filter} (filled : fs ≠ []) (each : ∀ f ∈ fs, f.Normal) :
    (joined .or fs).isAlways = fs.any isAlways := by
  by_cases absorbed : fs.any isAlways = true
  · rw [joined_of_absorbed ⟨rfl, absorbed⟩, absorbed]
    rfl
  · have kept : ¬Absorbed .or fs := fun both => absorbed both.2
    obtain ⟨f, member⟩ := List.exists_mem_of_ne_nil fs filled
    have notAlways : f.isAlways = false := by
      by_contra always
      exact absorbed (List.any_eq_true.mpr ⟨f, member, by simpa using always⟩)
    have parts : fs.flatMap (partsIn .or) ≠ [] := fun empty =>
      (each f member).partsIn_ne_nil notAlways .or (List.flatMap_eq_nil_iff.mp empty f member)
    rw [joined_of_not_absorbed kept, isAlways_ofParts parts (fitsIn_of_mem_partsIn each),
      Bool.eq_false_iff.mpr absorbed]

/-- Joining in groups makes no difference. An empty "or" is met by every document, so none of its groups
is empty. -/
theorem joined_flatten {groups : List (List Filter)} (filled : logic = .or → ∀ group ∈ groups, group ≠ [])
    (each : ∀ group ∈ groups, ∀ f ∈ group, f.Normal) :
    joined logic (groups.map (joined logic)) = joined logic groups.flatten := by
  have absorbed : Absorbed logic (groups.map (joined logic)) ↔ Absorbed logic groups.flatten := by
    refine and_congr_right fun isOr => ?_
    rw [List.any_map, List.any_flatten, List.any_eq_true, List.any_eq_true]
    refine exists_congr fun group => and_congr_right fun member => ?_
    rw [Function.comp_apply, isOr, isAlways_joined_or (filled isOr group member) (each group member)]
  by_cases whole : Absorbed logic groups.flatten
  · rw [joined_of_absorbed whole, joined_of_absorbed (absorbed.mpr whole)]
  · have keptIn : ∀ group ∈ groups, ¬Absorbed logic group := fun group member inGroup =>
      whole ⟨inGroup.1, by rw [List.any_flatten]; exact List.any_eq_true.mpr ⟨group, member, inGroup.2⟩⟩
    have parts : (groups.map (joined logic)).flatMap (partsIn logic) =
        groups.flatten.flatMap (partsIn logic) := by
      rw [List.flatMap_map, List.flatten_eq_flatMap, List.flatMap_assoc]
      exact List.flatMap_congr fun group member => partsIn_joined (each group member) (keptIn group member)
    rw [joined_of_not_absorbed whole, joined_of_not_absorbed (mt absorbed.mp whole), parts]

theorem joined_singleton {f : Filter} (normal : f.Normal) : joined logic [f] = f := by
  cases normal with
  | always => cases logic <;> rfl
  | test compares => cases logic <;> rfl
  | not lacks inner => cases logic <;> rfl
  | @join inner parts two fit each =>
    have kept : ¬Absorbed logic [.join inner parts] := fun both => nomatch both.2
    rw [joined_of_not_absorbed kept, List.flatMap_singleton]
    by_cases same : inner = logic
    · subst same
      rw [partsIn, if_pos rfl]
      obtain _ | ⟨first, _ | ⟨second, rest⟩⟩ := parts
      · cases two
      · exact absurd two (by simp)
      · rfl
    · rw [partsIn, if_neg same]
      rfl

/-- It does not matter in which groups filters are joined. -/
theorem joined_assoc {f g h : Filter} (first : f.Normal) (second : g.Normal) (third : h.Normal) :
    joined logic [joined logic [f, g], h] = joined logic [f, joined logic [g, h]] := by
  have left : joined logic ([[f, g], [h]].map (joined logic)) = joined logic [f, g, h] :=
    joined_flatten (fun _ => by simp) (by simp [first, second, third])
  have right : joined logic ([[f], [g, h]].map (joined logic)) = joined logic [f, g, h] :=
    joined_flatten (fun _ => by simp) (by simp [first, second, third])
  simp only [List.map_cons, List.map_nil, joined_singleton first, joined_singleton third] at left right
  rw [left, right]

theorem joined_and_append {fs gs : List Filter} (each : ∀ f ∈ fs, f.Normal) (each' : ∀ g ∈ gs, g.Normal) :
    joined .and (fs ++ gs) = joined .and [joined .and fs, joined .and gs] := by
  have grouped : joined .and ([fs, gs].map (joined .and)) = joined .and [fs, gs].flatten :=
    joined_flatten nofun (List.forall_mem_cons.mpr ⟨each, List.forall_mem_singleton.mpr each'⟩)
  simpa using grouped.symm

/-- Negating twice changes no filter in normal form. -/
theorem Normal.negated_negated {f : Filter} (normal : f.Normal) : f.negated.negated = f := by
  cases normal with
  | always => rfl
  | @test t compares => simp only [Filter.negated, Test.negated, Operator.negated_negated]
  | join two fit each => rfl
  | @not inner lacks normal =>
    cases inner with
    | always => rfl
    | join logic parts => rfl
    | test t => exact lacks.elim
    | not inner => exact lacks.elim

end Filter

end Sift

import Sift.Proofs.Filter.Acceptance
import Sift.Proofs.Filter.Joining
import Sift.Proofs.Grammar.Placement
import Sift.Proofs.Target.Resolution

namespace Sift

/-- Criteria in normal form are joined part by part, in whatever groups they come. -/
theorem Criterion.filterAll_append (criteria others : List Criterion) :
    filterAll (criteria ++ others) = .joined .and [filterAll criteria, filterAll others] := by
  have normal : ∀ criteria : List Criterion, ∀ f ∈ criteria.map filter, f.Normal := by
    intro criteria f member
    obtain ⟨criterion, -, rfl⟩ := List.mem_map.mp member
    exact Filter.normal_expression _ criterion.expression
  rw [filterAll, List.map_append]
  exact Filter.joined_and_append (normal criteria) (normal others)

theorem Filter.accepts_joined_and_pair (f g : Filter) (document : Json) :
    (joined .and [f, g]).accepts document = (f.accepts document && g.accepts document) := by
  rw [accepts_joined_and, List.all_cons, List.all_cons, List.all_nil, Bool.and_true]

namespace Resolver

variable {resolver : Resolver}

/-- Properties are named apart as they are together. -/
theorem resolveCriteria_append {criteria others renamed renamed' : List Criterion}
    (first : resolveCriteria resolver criteria = .ok renamed)
    (second : resolveCriteria resolver others = .ok renamed') :
    resolveCriteria resolver (criteria ++ others) = .ok (renamed ++ renamed') :=
  resolveCriteria_eq_ok.mpr
    (List.rel_append (resolveCriteria_eq_ok.mp first) (resolveCriteria_eq_ok.mp second))

/-- Two queries with an `&` between them are one query for both conditions. -/
theorem compile_ampersand {a b : String} {f g : Filter} (filled : isBlankText a = false)
    (filled' : isBlankText b = false) (first : compile resolver a = .ok f)
    (second : compile resolver b = .ok g) :
    ∃ criteria others, Criterion.readList a = .ok criteria ∧ Criterion.readList b = .ok others ∧
      Criterion.readList (a ++ "&" ++ b) = .ok (criteria ++ others) ∧
      compile resolver (a ++ "&" ++ b) = .ok (.joined .and [f, g]) ∧
      ∀ document, (Filter.joined .and [f, g]).accepts document =
        (f.accepts document && g.accepts document) := by
  obtain ⟨criteria, renamed, read, found, rfl⟩ := compile_eq_ok filled first
  obtain ⟨others, renamed', read', found', rfl⟩ := compile_eq_ok filled' second
  have whole := Criterion.readList_append read read'
  refine ⟨criteria, others, read, read', whole, ?_, Filter.accepts_joined_and_pair _ _⟩
  rw [compile_of_read whole, resolveCriteria_append found found', ← Criterion.filterAll_append]
  rfl

/-- Two conditions on one property beside one on another come to three tests. -/
theorem compile_ampersand_three :
    compile Target.anything.resolve? "a=1,2" =
      .ok (.join .and [.comparing "a" .equal (.string "1"), .comparing "a" .equal (.string "2")]) ∧
    compile Target.anything.resolve? "b=3" = .ok (.comparing "b" .equal (.string "3")) ∧
    compile Target.anything.resolve? "a=1,2&b=3" =
      .ok (.join .and [.comparing "a" .equal (.string "1"), .comparing "a" .equal (.string "2"),
        .comparing "b" .equal (.string "3")]) := by
  have left : Criterion.readList "a=1,2" = .ok [⟨⟨["a"]⟩, .and (.constant "1") (.constant "2")⟩] := by with_unfolding_all rfl
  have right : Criterion.readList "b=3" = .ok [⟨⟨["b"]⟩, .constant "3"⟩] := by with_unfolding_all rfl
  have first : compile Target.anything.resolve? "a=1,2" =
      .ok (.join .and [.comparing "a" .equal (.string "1"), .comparing "a" .equal (.string "2")]) :=
    (compile_of_read left).trans rfl
  have second : compile Target.anything.resolve? "b=3" = .ok (.comparing "b" .equal (.string "3")) :=
    (compile_of_read right).trans rfl
  obtain ⟨_, _, -, -, -, joined, -⟩ := compile_ampersand (by decide) (by decide) first second
  exact ⟨first, second, joined⟩

end Resolver

end Sift

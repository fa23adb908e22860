import Sift.Proofs.Cache.Refinement

namespace Sift

namespace Recent

variable {τ : Type} [Targets τ] {capacity : Nat} {recent after final : Recent τ}

/-- All that is held is what its key is compiled to. -/
def Faithful (recent : Recent τ) : Prop :=
  ∀ target text compiled, ((target, text), compiled) ∈ recent.held →
    Resolver.compile (Targets.resolver target) text = .ok compiled.filter

theorem faithful_start : (start : Recent τ).Faithful :=
  nofun

/-- Requests keep it that all that is held is what its query compiles to. -/
theorem Serves.faithful {request : Request τ} {answer : Answer}
    (serves : Serves capacity recent request answer after) (faithful : recent.Faithful) : after.Faithful := by
  cases serves with
  | found present =>
    intro target text compiled member
    refine faithful target text compiled ?_
    rw [present, List.perm_middle.mem_iff]
    exact member
  | made _ outcome _ =>
    intro target text compiled member
    rcases List.mem_cons.mp (List.mem_of_mem_take member) with new | old
    · cases new
      exact outcome
    · exact faithful target text compiled old
  | refused => exact faithful
  | clear => exact nofun
  | _ => exact faithful

/-- One answer to a query: what the query is compiled to, held or not. -/
theorem Serves.outcome {target : τ} {text : String} {answer : Answer}
    (serves : Serves capacity recent (.compile target text) answer after) (faithful : recent.Faithful) :
    ∃ outcome, answer = .compiled outcome ∧
      outcome.map Compiled.filter = Resolver.compile (Targets.resolver target) text := by
  cases serves with
  | @found before rest _ _ compiled present =>
    have member : ((target, text), compiled) ∈ recent.held := by
      rw [present]
      exact List.mem_append_right before (List.mem_cons_self ..)
    exact ⟨_, rfl, (faithful target text compiled member).symm⟩
  | made _ outcome _ => exact ⟨_, rfl, outcome.symm⟩
  | refused _ outcome => exact ⟨_, rfl, outcome.symm⟩

/-- In a run from a faithful list, a query comes to what it is compiled to. -/
theorem Runs.outcome {requests : List (Request τ)} {answers : List (Answer × CacheStats)}
    (runs : Runs capacity recent requests answers final) (faithful : recent.Faithful) {i : Nat} {target : τ}
    {text : String} (asked : requests[i]? = some (.compile target text)) :
    ∃ outcome stats, answers[i]? = some (.compiled outcome, stats) ∧
      outcome.map Compiled.filter = Resolver.compile (Targets.resolver target) text := by
  induction runs generalizing i with
  | done => cases asked
  | next serves _ ih =>
    cases i with
    | zero =>
      cases asked
      obtain ⟨outcome, rfl, same⟩ := serves.outcome faithful
      exact ⟨outcome, _, rfl, same⟩
    | succ i => exact ih (serves.faithful faithful) asked

end Recent

namespace Cache

variable {τ : Type} [DecidableEq τ] [Hashable τ] [Targets τ]

/-- Whatever a new cache was asked before, a query of any target comes to the filter, or to the error,
that it is compiled to without a cache. -/
theorem outcome_run (capacity : Nat) {requests : List (Request τ)} {i : Nat} {target : τ} {text : String}
    (asked : requests[i]? = some (.compile target text)) :
    ∃ outcome stats, ((empty capacity).run requests)[i]? = some (.compiled outcome, stats) ∧
      outcome.map Compiled.filter = Resolver.compile (Targets.resolver target) text := by
  obtain ⟨final, runs, -⟩ := (Shows.empty capacity).run requests
  exact runs.outcome Recent.faithful_start asked

/-- A blank query is compiled to the filter of all documents, also once another query took its place. -/
theorem outcome_run_blank :
    ∃ outcome stats, ((empty 1).run
        [.compile Target.anything "", .compile Target.anything " ", .compile Target.anything ""])[2]? =
          some (.compiled outcome, stats) ∧
      outcome.map Compiled.filter = .ok .always := by
  have blank : Resolver.compile (Targets.resolver Target.anything) "" = .ok .always := rfl
  have asked : [.compile Target.anything "", .compile Target.anything " ",
      .compile Target.anything ""][2]? = some (Request.compile Target.anything "") := rfl
  rw [← blank]
  exact outcome_run 1 asked

end Cache

end Sift

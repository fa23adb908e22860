import Sift.Proofs.Cache.Transparency

namespace Sift

/-- The first items once one is taken out are known from one item more. -/
theorem take_erase_take {α : Type} [BEq α] [LawfulBEq α] (x : α) (xs : List α) (n : Nat) :
    ((xs.take (n + 1)).erase x).take n = (xs.erase x).take n := by
  induction xs generalizing n with
  | nil => rfl
  | cons y ys ih =>
    rw [List.take_succ_cons]
    by_cases same : y = x
    · rw [same, List.erase_cons_head, List.erase_cons_head, List.take_take, Nat.min_self]
    · have other : ¬(y == x) = true := by simpa using same
      rw [List.erase_cons_tail other, List.erase_cons_tail other]
      cases n with
      | zero => rfl
      | succ n => rw [List.take_succ_cons, List.take_succ_cons, ih]

namespace Request

variable {τ : Type} [DecidableEq τ]

/-- How much a request finds among some queries: one, if it asks for one of them. -/
def finds : Request τ → List (τ × String) → Nat
  | compile target text, keys => if (target, text) ∈ keys then 1 else 0
  | _, _ => 0

/-- Of more keys, at least as many are found. -/
theorem finds_mono (request : Request τ) {keys keys' : List (τ × String)} (subset : keys ⊆ keys') :
    request.finds keys ≤ request.finds keys' := by
  cases request with
  | compile target text =>
    simp only [finds]
    split
    · rename_i member
      exact Nat.le_of_eq (if_pos (subset member)).symm
    · exact Nat.zero_le _
  | _ => exact Nat.le_refl _

variable [Targets τ]

/-- The queries in the order of their last use, the last used first, once a request was made: those that can be
compiled, since the last request to clear the cache. -/
def used : Request τ → List (τ × String) → List (τ × String)
  | compile target text, keys =>
    match Resolver.compile (Targets.resolver target) text with
    | .ok _ => (target, text) :: keys.erase (target, text)
    | .error _ => keys
  | clear, _ => []
  | _, keys => keys

/-- The first queries after a request are known from as many before it. -/
theorem take_used_take (request : Request τ) (keys : List (τ × String)) (capacity : Nat) :
    (request.used (keys.take capacity)).take capacity = (request.used keys).take capacity := by
  cases request with
  | compile target text =>
    simp only [used]
    split
    · cases capacity with
      | zero => rfl
      | succ n => rw [List.take_succ_cons, List.take_succ_cons, take_erase_take]
    · rw [List.take_take, Nat.min_self]
  | clear => rfl
  | _ => simp only [used, List.take_take, Nat.min_self]

/-- The queries in the order of their last use after some requests. -/
def usedBy (keys : List (τ × String)) (requests : List (Request τ)) : List (τ × String) :=
  requests.foldl (fun keys request => request.used keys) keys

/-- How much some requests find if there is room for so many queries. -/
def foundBy (capacity : Nat) (keys : List (τ × String)) : List (Request τ) → Nat
  | [] => 0
  | request :: requests => request.finds (keys.take capacity) + foundBy capacity (request.used keys) requests

/-- A greater capacity finds at least as much of a list of requests. -/
theorem foundBy_mono {capacity capacity' : Nat} (le : capacity ≤ capacity') (keys : List (τ × String))
    (requests : List (Request τ)) : foundBy capacity keys requests ≤ foundBy capacity' keys requests := by
  induction requests generalizing keys with
  | nil => exact Nat.le_refl _
  | cons request requests ih =>
    exact Nat.add_le_add (request.finds_mono (List.take_subset_take_left _ le)) (ih _)

end Request

namespace Recent

variable {τ : Type} [DecidableEq τ] [Targets τ] {capacity : Nat} {recent after : Recent τ}
  {request : Request τ} {answer : Answer}

/-- What is held afterwards are the keys used last, as many as there is room for. -/
theorem Serves.keys (serves : Serves capacity recent request answer after) (faithful : recent.Faithful)
    (distinct : recent.keys.Nodup) (within : recent.held.length ≤ capacity) :
    after.keys = (request.used recent.keys).take capacity := by
  have whole : recent.keys.take capacity = recent.keys := by
    rw [Recent.keys, ← List.map_take, List.take_of_length_le within]
  cases serves with
  | @found before rest target text compiled present =>
    have member : ((target, text), compiled) ∈ recent.held := by
      rw [present]
      exact List.mem_append_right before (List.mem_cons_self ..)
    have split : recent.keys = before.map Prod.fst ++ (target, text) :: rest.map Prod.fst := by
      rw [Recent.keys, present, List.map_append, List.map_cons]
    have first : (target, text) ∉ before.map Prod.fst := by
      rw [split, List.nodup_append] at distinct
      exact fun inFront => distinct.2.2 _ inFront _ (List.mem_cons_self ..) rfl
    have fits : ((target, text) :: (before.map Prod.fst ++ rest.map Prod.fst)).length ≤ capacity := by
      rw [present] at within
      simpa [Nat.add_assoc] using within
    rw [Request.used, faithful target text compiled member, split, List.erase_append_right _ first,
      List.erase_cons_head, List.take_of_length_le fits, Recent.keys, List.map_cons, List.map_append]
  | made absent outcome _ =>
    rw [Request.used, outcome, List.erase_of_not_mem absent, Recent.keys, List.map_take]
    rfl
  | refused _ outcome =>
    rw [Request.used, outcome, whole]
    rfl
  | clear => exact List.take_nil.symm
  | _ => exact whole.symm

theorem Serves.hits (serves : Serves capacity recent request answer after) :
    after.hits = recent.hits + request.finds recent.keys := by
  cases serves with
  | @found before rest target text compiled present =>
    have member : (target, text) ∈ recent.keys := by
      rw [Recent.keys, present]
      simp
    rw [Request.finds, if_pos member]
  | made absent | refused absent =>
    rw [Request.finds, if_neg absent]
    rfl
  | _ => rfl

end Recent

namespace Cache

variable {τ : Type} [DecidableEq τ] [Hashable τ] [Targets τ]

/-- A cache that holds the first queries of a list goes on to do so. -/
theorem Shows.usedBy {capacity : Nat} {cache : Cache τ} {recent : Recent τ} (shows : Shows capacity cache recent)
    (faithful : recent.Faithful) {keys : List (τ × String)} (first : recent.keys = keys.take capacity)
    (requests : List (Request τ)) :
    ∃ final, Shows capacity (cache.after requests) final ∧
      final.keys = (Request.usedBy keys requests).take capacity ∧
      final.hits = recent.hits + Request.foundBy capacity keys requests := by
  -- The list keeps what the cache gives up. No request brings that back, for none looks behind the first queries.
  induction requests generalizing cache recent keys with
  | nil => exact ⟨recent, shows, first, rfl⟩
  | cons request requests ih =>
    obtain ⟨next, serves, shown⟩ := shows.answer request
    have further : next.keys = (request.used keys).take capacity := by
      rw [serves.keys faithful shows.held.distinct shows.within, first, request.take_used_take]
    obtain ⟨final, atEnd, last, hits⟩ := ih shown (serves.faithful faithful) further
    refine ⟨final, atEnd, last, ?_⟩
    rw [hits, serves.hits, first, Request.foundBy, Nat.add_assoc]

/-- What a new cache holds after some requests, and how often it has found a query. -/
theorem after_empty (capacity : Nat) (requests : List (Request τ)) :
    (∀ target text, ((empty capacity).after requests).contains target text = true ↔
      (target, text) ∈ (Request.usedBy [] requests).take capacity) ∧
    ((empty capacity : Cache τ).after requests).hits = Request.foundBy capacity [] requests := by
  have first : (Recent.start : Recent τ).keys = [].take capacity := List.take_nil.symm
  obtain ⟨final, shows, last, hits⟩ := (Shows.empty capacity).usedBy Recent.faithful_start first requests
  refine ⟨fun target text => ?_, shows.hits.trans (hits.trans (Nat.zero_add _))⟩
  rw [← last]
  exact shows.held.contains_iff

/-- A cache of greater capacity is no worse. After the same requests it holds every query that the other one holds,
and no fewer were found in it. -/
theorem contains_after_mono {capacity capacity' : Nat} (le : capacity ≤ capacity')
    (requests : List (Request τ)) :
    (∀ target text, ((empty capacity).after requests).contains target text = true →
      ((empty capacity').after requests).contains target text = true) ∧
    ((empty capacity : Cache τ).after requests).hits ≤ ((empty capacity' : Cache τ).after requests).hits := by
  obtain ⟨held, hits⟩ := after_empty (τ := τ) capacity requests
  obtain ⟨held', hits'⟩ := after_empty (τ := τ) capacity' requests
  constructor
  · intro target text
    rw [held, held']
    exact fun member => List.take_subset_take_left _ le member
  · rw [hits, hits']
    exact Request.foundBy_mono le [] requests

/-- A query that is asked for again once there was another one. -/
def asked : List Request :=
  [.compile .anything "", .compile .anything " ", .compile .anything ""]

/-- With room for one query the first one is compiled again. -/
theorem contains_after_mono_asked :
    1 ≤ 2 ∧ ((empty 1).after asked).contains Target.anything "" = true ∧
      ((empty 2).after asked).contains Target.anything "" = true ∧
      ((empty 1).after asked).hits = 0 ∧ ((empty 2).after asked).hits = 1 ∧
      ((empty 1).after asked).hits ≤ ((empty 2).after asked).hits := by
  obtain ⟨more, found⟩ := contains_after_mono (by decide : 1 ≤ 2) asked
  have held : ((empty 1).after asked).contains Target.anything "" = true :=
    ((after_empty 1 asked).1 .anything "").mpr (by decide +kernel)
  exact ⟨by decide, held, more _ _ held, (after_empty 1 asked).2.trans (by decide +kernel),
    (after_empty 2 asked).2.trans (by decide +kernel), found⟩

end Cache

end Sift

import Sift.Cache.Basic
import Sift.Proofs.Cache.Recency

namespace Sift

namespace Request

variable {τ : Type}

/-- Whether a request is for a compiled query. -/
def isCompile : Request τ → Bool
  | compile _ _ => true
  | _ => false

theorem countP_cons (request : Request τ) (requests : List (Request τ)) :
    (request :: requests).countP isCompile = [request].countP isCompile + requests.countP isCompile := by
  rw [← List.countP_append, List.singleton_append]

end Request

/-- What is known of a cache: the queries that it holds, the last used first, with what they were
compiled to; the counts; and the numbers that compiled queries had so far. -/
structure Recent (τ : Type) where
  held : List ((τ × String) × Compiled)
  hits : Nat
  misses : Nat
  issued : List Nat

namespace Recent

variable {τ : Type}

/-- Nothing is held, and nothing was asked. -/
def start : Recent τ :=
  ⟨[], 0, 0, []⟩

/-- What is held, without what it was compiled to. -/
def keys (recent : Recent τ) : List (τ × String) :=
  recent.held.map Prod.fst

def stats (recent : Recent τ) (capacity : Nat) : CacheStats :=
  ⟨capacity, recent.held.length, recent.hits, recent.misses⟩

variable [Targets τ]

/-- The answer to a request, and what is known after it. A query that is held goes to the front; one that
is not is compiled, and if that succeeds is held with a number of its own, as the first of so many. -/
inductive Serves (capacity : Nat) : Recent τ → Request τ → Answer → Recent τ → Prop
  | found {recent before after target text compiled} :
      recent.held = before ++ ((target, text), compiled) :: after →
      Serves capacity recent (.compile target text) (.compiled (.ok compiled))
        { recent with held := ((target, text), compiled) :: (before ++ after), hits := recent.hits + 1 }
  | made {recent target text compiled} : (target, text) ∉ recent.keys →
      Resolver.compile (Targets.resolver target) text = .ok compiled.filter →
      compiled.number ∉ recent.issued →
      Serves capacity recent (.compile target text) (.compiled (.ok compiled))
        { recent with
          held := (((target, text), compiled) :: recent.held).take capacity
          misses := recent.misses + 1
          issued := compiled.number :: recent.issued }
  | refused {recent target text error} : (target, text) ∉ recent.keys →
      Resolver.compile (Targets.resolver target) text = .error error →
      Serves capacity recent (.compile target text) (.compiled (.error error))
        { recent with misses := recent.misses + 1 }
  | contains {recent target text answer} : (answer = true ↔ (target, text) ∈ recent.keys) →
      Serves capacity recent (.contains target text) (.flag answer) recent
  | size {recent} : Serves capacity recent .size (.count recent.held.length) recent
  | isEmpty {recent} : Serves capacity recent .isEmpty (.flag recent.held.isEmpty) recent
  | stats {recent} : Serves capacity recent .stats .done recent
  | clear {recent} : Serves capacity recent .clear .done { recent with held := [] }

/-- The answers to requests in turn, each with the counts after it. -/
inductive Runs (capacity : Nat) :
    Recent τ → List (Request τ) → List (Answer × CacheStats) → Recent τ → Prop
  | done {recent} : Runs capacity recent [] [] recent
  | next {recent after final request requests answer answers} :
      Serves capacity recent request answer after → Runs capacity after requests answers final →
      Runs capacity recent (request :: requests) ((answer, after.stats capacity) :: answers) final

variable {capacity : Nat} {recent after final : Recent τ}

/-- Every query is counted once. -/
theorem Serves.counts {request : Request τ} {answer : Answer}
    (serves : Serves capacity recent request answer after) :
    after.hits + after.misses = recent.hits + recent.misses + [request].countP Request.isCompile := by
  cases serves with
  | found => exact Nat.add_right_comm ..
  | _ => rfl

/-- Over a whole run, every compilation is counted once. -/
theorem Runs.counts {requests : List (Request τ)} {answers : List (Answer × CacheStats)}
    (runs : Runs capacity recent requests answers final) :
    final.hits + final.misses = recent.hits + recent.misses + requests.countP Request.isCompile := by
  induction runs with
  | done => rfl
  | next serves _ ih =>
    have first := serves.counts
    rw [Request.countP_cons]
    omega

/-- With no room for any query, none is held, and none is ever found. -/
theorem Runs.without_room {requests : List (Request τ)} {answers : List (Answer × CacheStats)}
    (runs : Runs capacity recent requests answers final) (none : capacity = 0) (empty : recent.held = []) :
    final.held = [] ∧ final.hits = recent.hits := by
  induction runs with
  | done => exact ⟨empty, rfl⟩
  | next serves _ ih =>
    cases serves with
    | found present =>
      rw [empty] at present
      exact absurd present (by simp)
    | made => exact ih (by rw [none, List.take_zero])
    | clear => exact ih rfl
    | _ => exact ih empty

end Recent

namespace Cache

variable {τ : Type} [DecidableEq τ] [Hashable τ]

/-- A cache after requests. -/
def after [Targets τ] (cache : Cache τ) (requests : List (Request τ)) : Cache τ :=
  requests.foldl (fun cache request => (cache.answer request).2) cache

/-- What is known of a cache is what it has in its indexes and counts. A number that is larger than the
count of misses was not given yet. -/
structure Shows (capacity : Nat) (cache : Cache τ) (recent : Recent τ) : Prop where
  held : cache.entries.Holds recent.held
  bound : cache.capacity = capacity
  room : cache.entries.capacity = capacity
  within : recent.held.length ≤ capacity
  hits : cache.hits = recent.hits
  misses : cache.misses = recent.misses
  issued : ∀ number ∈ recent.issued, number ≤ recent.misses

namespace Shows

variable {capacity : Nat} {cache : Cache τ} {recent : Recent τ}

theorem empty (capacity : Nat) : Shows capacity (Cache.empty capacity : Cache τ) .start where
  held := .empty capacity
  bound := rfl
  room := rfl
  within := Nat.zero_le _
  hits := rfl
  misses := rfl
  issued := nofun

theorem stats (shows : Shows capacity cache recent) : cache.stats = recent.stats capacity := by
  rw [Cache.stats, Cache.size, shows.held.size, shows.bound, shows.hits, shows.misses, Recent.stats]

theorem clear (shows : Shows capacity cache recent) :
    Shows capacity cache.clear { recent with held := [] } :=
  { shows with held := .clear cache.entries, within := Nat.zero_le _ }

/-- A query that is held is found and comes to the front. -/
theorem find_present (shows : Shows capacity cache recent) {key : τ × String} {compiled : Compiled}
    {before after : List ((τ × String) × Compiled)} (present : recent.held = before ++ (key, compiled) :: after) :
    (cache.find key).1 = some compiled ∧
      Shows capacity (cache.find key).2 { recent with held := (key, compiled) :: (before ++ after) } := by
  have within := shows.within
  have held := shows.held
  rw [present] at held within
  rw [List.length_append, List.length_cons] at within
  have positive : cache.capacity ≠ 0 := by
    rw [shows.bound]
    omega
  obtain ⟨found, used⟩ := held.use_present
  rw [find, if_neg positive]
  refine ⟨found, { shows with held := used, room := ?_, within := ?_ }⟩
  · exact (RecencyMap.capacity_use ..).trans shows.room
  · rw [List.length_cons, List.length_append]
    exact within

theorem find_absent (shows : Shows capacity cache recent) {key : τ × String} (absent : key ∉ recent.keys) :
    (cache.find key).1 = none ∧ Shows capacity (cache.find key).2 recent := by
  rw [find]
  by_cases nothing : cache.capacity = 0
  · rw [if_pos nothing]
    exact ⟨rfl, shows⟩
  · rw [if_neg nothing]
    obtain ⟨missing, used⟩ := shows.held.use_absent absent
    exact ⟨missing, { shows with held := used, room := (RecencyMap.capacity_use ..).trans shows.room }⟩

/-- A compiled query is put in front of what is held. -/
theorem keep_absent (shows : Shows capacity cache recent) {key : τ × String} (absent : key ∉ recent.keys)
    (compiled : Compiled) :
    (cache.keep key compiled).1 = compiled ∧
      Shows capacity (cache.keep key compiled).2
        { recent with held := ((key, compiled) :: recent.held).take capacity } := by
  have within : (((key, compiled) :: recent.held).take capacity).length ≤ capacity := List.length_take_le ..
  rw [keep]
  by_cases nothing : cache.capacity = 0
  · rw [if_pos nothing]
    -- what has no room is not put into the map at all, and the list has no first entries to keep
    have zero : capacity = 0 := shows.bound.symm.trans nothing
    subst zero
    have empty : recent.held = [] := List.eq_nil_of_length_eq_zero (Nat.le_zero.mp shows.within)
    have held := shows.held
    rw [empty] at held
    exact ⟨rfl, { shows with held, within }⟩
  · rw [if_neg nothing]
    have room := shows.room
    have fits : recent.held.length ≤ cache.entries.capacity := room ▸ shows.within
    have positive : 0 < cache.entries.capacity := by
      rw [room, ← shows.bound]
      exact Nat.pos_of_ne_zero nothing
    obtain ⟨kept, held⟩ := shows.held.useOrInsert_absent absent fits positive compiled
    rw [room] at held
    exact ⟨kept, { shows with held, within, room := (RecencyMap.capacity_useOrInsert ..).trans room }⟩

variable [Targets τ]

/-- A query is answered as the machine has it. -/
theorem compile (shows : Shows capacity cache recent) (target : τ) (text : String) :
    ∃ after, recent.Serves capacity (.compile target text) (.compiled (cache.compile target text).1) after ∧
      Shows capacity (cache.compile target text).2 after := by
  cases looked : cache.find (target, text) with
  | mk result left =>
  simp only [Cache.compile, looked]
  by_cases present : (target, text) ∈ recent.keys
  · obtain ⟨⟨key, compiled⟩, member, rfl⟩ := List.mem_map.mp present
    obtain ⟨before, after, split⟩ := List.append_of_mem member
    obtain ⟨found, used⟩ := shows.find_present split
    rw [looked] at found used
    cases found
    exact ⟨_, .found split, { used with hits := congrArg (· + 1) used.hits }⟩
  · obtain ⟨missing, used⟩ := shows.find_absent present
    rw [looked] at missing used
    cases missing
    have missed : Shows capacity { left with misses := left.misses + 1 }
        { recent with misses := recent.misses + 1 } :=
      { used with
        misses := congrArg (· + 1) used.misses
        issued := fun number member => Nat.le_succ_of_le (used.issued number member) }
    cases outcome : Resolver.compile (Targets.resolver target) text with
    | error error => exact ⟨_, .refused present outcome, missed⟩
    | ok filter =>
      obtain ⟨kept, holds⟩ := missed.keep_absent present ⟨left.misses + 1, filter⟩
      have new : left.misses + 1 ∉ recent.issued := by
        intro member
        have given := used.issued _ member
        rw [used.misses] at given
        exact Nat.not_succ_le_self _ given
      simp only [kept]
      refine ⟨_, .made present outcome new, { holds with issued := ?_ }⟩
      intro number member
      rcases List.mem_cons.mp member with rfl | old
      · exact Nat.le_of_eq (congrArg (· + 1) used.misses)
      · exact holds.issued number old

/-- Every request is answered as the list of what is held says. -/
theorem answer (shows : Shows capacity cache recent) (request : Request τ) :
    ∃ after, recent.Serves capacity request (cache.answer request).1 after ∧
      Shows capacity (cache.answer request).2 after := by
  cases request with
  | compile target text => exact shows.compile target text
  | contains target text => exact ⟨recent, .contains shows.held.contains_iff, shows⟩
  | size =>
    rw [Cache.answer, Cache.size, shows.held.size]
    exact ⟨recent, .size, shows⟩
  | isEmpty =>
    have empty : cache.isEmpty = recent.held.isEmpty := by
      rw [Cache.isEmpty, Cache.size, shows.held.size]
      cases recent.held <;> rfl
    rw [Cache.answer, empty]
    exact ⟨recent, .isEmpty, shows⟩
  | stats => exact ⟨recent, .stats, shows⟩
  | clear => exact ⟨_, .clear, shows.clear⟩

/-- Requests in turn are answered as a run of the list. -/
theorem run (shows : Shows capacity cache recent) (requests : List (Request τ)) :
    ∃ final, recent.Runs capacity requests (cache.run requests) final ∧
      Shows capacity (cache.after requests) final := by
  induction requests generalizing cache recent with
  | nil => exact ⟨recent, .done, shows⟩
  | cons request requests ih =>
    obtain ⟨next, serves, shown⟩ := shows.answer request
    obtain ⟨final, runs, atEnd⟩ := ih shown
    refine ⟨final, ?_, atEnd⟩
    rw [Cache.run]
    simp only [shown.stats]
    exact .next serves runs

end Shows

theorem tick_find_le (cache : Cache τ) (key : τ × String) :
    (cache.find key).2.entries.tick ≤ cache.entries.tick + 1 := by
  unfold find
  split
  · exact Nat.le_succ _
  · exact Nat.le_of_eq (RecencyMap.tick_use ..)

theorem tick_keep_le (cache : Cache τ) (key : τ × String) (compiled : Compiled) :
    (cache.keep key compiled).2.entries.tick ≤ cache.entries.tick + 2 := by
  unfold keep
  split
  · exact Nat.le_add_right ..
  · exact RecencyMap.tick_useOrInsert_le ..

variable [Targets τ]

theorem tick_compile_le (cache : Cache τ) (target : τ) (text : String) :
    (cache.compile target text).2.entries.tick ≤ cache.entries.tick + 3 := by
  have looked := cache.tick_find_le (target, text)
  unfold compile
  split <;> rename_i left found <;> rw [found] at looked
  · exact Nat.le_trans looked (Nat.le_add_right _ 2)
  · split
    · exact Nat.le_trans looked (Nat.le_add_right _ 2)
    · refine Nat.le_trans (tick_keep_le ..) ?_
      exact Nat.add_le_add_right looked 2

theorem tick_answer_le (cache : Cache τ) (request : Request τ) :
    (cache.answer request).2.entries.tick ≤ cache.entries.tick + 3 * [request].countP Request.isCompile := by
  cases request with
  | compile target text => exact cache.tick_compile_le target text
  | _ => exact Nat.le_refl _

/-- A compilation makes the tick go on by three at most, and other requests leave it. -/
theorem tick_after_le (cache : Cache τ) (requests : List (Request τ)) :
    (cache.after requests).entries.tick ≤ cache.entries.tick + 3 * requests.countP Request.isCompile := by
  induction requests generalizing cache with
  | nil => exact Nat.le_refl _
  | cons request requests ih =>
    have first := cache.tick_answer_le request
    have further := ih (cache.answer request).2
    change ((cache.answer request).2.after requests).entries.tick ≤ _
    rw [Request.countP_cons]
    omega

/-- Every run of a cache is one of the machine that keeps the list of what is held and the counts. No key
is held twice, there are never more of them than the capacity, and every query is a hit or a miss: a miss
if there is no room. Stamps stay within three times the number of queries, and 64 bits hold the counters
for as long as they hold that. -/
theorem run_refines (capacity : Nat) (requests : List (Request τ)) :
    ∃ final : Recent τ, Recent.start.Runs capacity requests ((empty capacity).run requests) final ∧
      final.keys.Nodup ∧ final.held.length ≤ capacity ∧
      final.hits + final.misses = requests.countP Request.isCompile ∧
      (capacity = 0 → final.held = [] ∧ final.hits = 0) ∧
      ((empty capacity : Cache τ).after requests).entries.tick ≤ 3 * requests.countP Request.isCompile := by
  obtain ⟨final, runs, shows⟩ := (Shows.empty capacity).run requests
  have counts := runs.counts
  have ticks := (empty capacity : Cache τ).tick_after_le requests
  refine ⟨final, runs, shows.held.distinct, shows.within, ?_, fun none => runs.without_room none rfl, ?_⟩
  · rw [counts]
    exact Nat.zero_add _
  · exact Nat.le_trans ticks (Nat.le_of_eq (Nat.zero_add _))

end Cache

end Sift

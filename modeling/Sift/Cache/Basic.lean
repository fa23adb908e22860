import Sift.Cache.Recency
import Sift.Target

namespace Sift

/-- A compiled query. Its number tells it apart from others with the same filter. -/
structure Compiled where
  number : Nat
  filter : Filter
  deriving Repr

/-- A cache of compiled queries, with the counts of what it found and what it did not. Queries that cannot be
compiled are not held, and a cache of capacity zero holds nothing. -/
structure Cache (τ : Type) [BEq τ] [Hashable τ] where
  capacity : Nat
  hits : Nat
  misses : Nat
  entries : RecencyMap (τ × String) Compiled

/-- What can be asked about a cache at any time. -/
structure CacheStats where
  capacity : Nat
  size : Nat
  hits : Nat
  misses : Nat
  deriving DecidableEq, Repr

namespace Cache

variable {τ : Type} [BEq τ] [Hashable τ]

def empty (capacity : Nat) : Cache τ :=
  ⟨capacity, 0, 0, .empty capacity⟩

def size (cache : Cache τ) : Nat :=
  cache.entries.size

def isEmpty (cache : Cache τ) : Bool :=
  cache.size == 0

/-- Whether a query is held for a target. It is not a use of it. -/
def contains (cache : Cache τ) (target : τ) (text : String) : Bool :=
  cache.entries.contains (target, text)

/-- The cache without what it holds. The counts go on. -/
def clear (cache : Cache τ) : Cache τ :=
  { cache with entries := cache.entries.clear }

def stats (cache : Cache τ) : CacheStats :=
  ⟨cache.capacity, cache.size, cache.hits, cache.misses⟩

/-- What the cache holds of a query. A cache of capacity zero is not asked. -/
def find (cache : Cache τ) (key : τ × String) : Option Compiled × Cache τ :=
  if cache.capacity = 0 then (none, cache)
  else
    let (found, entries) := cache.entries.use key
    (found, { cache with entries })

/-- The cache with a compiled query in it, and the one that it then holds. -/
def keep (cache : Cache τ) (key : τ × String) (compiled : Compiled) : Compiled × Cache τ :=
  if cache.capacity = 0 then (compiled, cache)
  else
    let inserted := cache.entries.useOrInsert key compiled
    (inserted.value, { cache with entries := inserted.map })

/-- A query compiled for a target, or what the cache holds of it. A new one has the number of the
miss that it was compiled for. -/
def compile [Targets τ] (cache : Cache τ) (target : τ) (text : String) :
    Except QueryError Compiled × Cache τ :=
  match cache.find (target, text) with
  | (some compiled, cache) => (.ok compiled, { cache with hits := cache.hits + 1 })
  | (none, cache) =>
    let cache := { cache with misses := cache.misses + 1 }
    match Resolver.compile (Targets.resolver target) text with
    | .error error => (.error error, cache)
    | .ok filter =>
      let (compiled, cache) := cache.keep (target, text) ⟨cache.misses, filter⟩
      (.ok compiled, cache)

end Cache

/-- What may be asked of a cache. -/
inductive Request (τ : Type := Target) where
  | compile (target : τ) (text : String)
  | contains (target : τ) (text : String)
  | size
  | isEmpty
  /-- For the counts alone, which come with every answer. -/
  | stats
  | clear
  deriving DecidableEq, Repr

/-- What a cache answers. -/
inductive Answer where
  | compiled (outcome : Except QueryError Compiled)
  | flag (value : Bool)
  | count (value : Nat)
  | done

namespace Cache

variable {τ : Type} [BEq τ] [Hashable τ] [Targets τ]

def answer (cache : Cache τ) : Request τ → Answer × Cache τ
  | .compile target text =>
    let (outcome, cache) := cache.compile target text
    (.compiled outcome, cache)
  | .contains target text => (.flag (cache.contains target text), cache)
  | .size => (.count cache.size, cache)
  | .isEmpty => (.flag cache.isEmpty, cache)
  | .stats => (.done, cache)
  | .clear => (.done, cache.clear)

/-- The answers to requests in turn, each with the counts after it. -/
def run (cache : Cache τ) : List (Request τ) → List (Answer × CacheStats)
  | [] => []
  | request :: requests =>
    let (answer, cache) := cache.answer request
    (answer, cache.stats) :: cache.run requests

end Cache

end Sift

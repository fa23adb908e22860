import Std.Data.HashMap
import Std.Data.TreeMap

namespace Sift

/-- A map that holds so many entries and gives up what has not been used for longest. Every use is stamped with
the next tick; one index finds an entry by its key, the other finds keys by their stamps, so that its first
stamp is that of the entry to give up. -/
structure RecencyMap (κ ν : Type) [BEq κ] [Hashable κ] where
  capacity : Nat
  /-- The stamp that was given last. -/
  tick : Nat
  /-- The values, each with the stamp of its last use. -/
  items : Std.HashMap κ (ν × Nat)
  /-- The keys in the order of their last use. -/
  order : Std.TreeMap Nat κ

namespace RecencyMap

variable {κ ν : Type} [BEq κ] [Hashable κ]

def empty (capacity : Nat) : RecencyMap κ ν :=
  ⟨capacity, 0, ∅, ∅⟩

def size (map : RecencyMap κ ν) : Nat :=
  map.items.size

/-- Whether there is an entry for a key. That is no use of it. -/
def contains (map : RecencyMap κ ν) (key : κ) : Bool :=
  map.items.contains key

/-- The map without entries, and with the stamps going on. -/
def clear (map : RecencyMap κ ν) : RecencyMap κ ν :=
  { map with items := ∅, order := ∅ }

/-- A value looked up is used: its entry gets the next stamp. -/
def use (map : RecencyMap κ ν) (key : κ) : Option ν × RecencyMap κ ν :=
  let now := map.tick + 1
  match map.items[key]? with
  | none => (none, { map with tick := now })
  | some (value, stamp) =>
    (some value,
      { map with
        tick := now
        items := map.items.insert key (value, now)
        order := (map.order.erase stamp).insert now key })

/-- The key that has not been used for longest, and the map without its entry. -/
def evict (map : RecencyMap κ ν) : Option κ × RecencyMap κ ν :=
  match map.order.minEntry? with
  | none => (none, map)
  | some (stamp, key) =>
    (some key, { map with items := map.items.erase key, order := map.order.erase stamp })

/-- An entry under a new key, stamped with the next tick. -/
def insertNew (map : RecencyMap κ ν) (key : κ) (value : ν) : RecencyMap κ ν :=
  let now := map.tick + 1
  { map with
    tick := now
    items := map.items.insert key (value, now)
    order := map.order.insert now key }

/-- What an insertion comes to: the value that the map has for the key afterwards, the key that was
given up for it, and the map. -/
structure Inserted (κ ν : Type) [BEq κ] [Hashable κ] where
  value : ν
  evicted : Option κ
  map : RecencyMap κ ν

/-- The entry of a key, which is thereby used; a new one with a value if there is none. A full map
gives up an entry for the new one. -/
def useOrInsert (map : RecencyMap κ ν) (key : κ) (value : ν) : Inserted κ ν :=
  match map.use key with
  | (some present, used) => ⟨present, none, used⟩
  | (none, used) =>
    if used.capacity ≤ used.items.size then
      let (evicted, room) := used.evict
      ⟨value, evicted, room.insertNew key value⟩
    else ⟨value, none, used.insertNew key value⟩

end RecencyMap

end Sift

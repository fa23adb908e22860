import Sift.Proofs.Cache.Recency

namespace Sift

namespace RecencyMap

variable {κ ν : Type}

/-- What may be done to a map. -/
inductive Operation (κ ν : Type) where
  | use (key : κ)
  | useOrInsert (key : κ) (value : ν)
  | clear

variable [BEq κ] [Hashable κ]

/-- What an operation makes of a map. -/
def perform (map : RecencyMap κ ν) : Operation κ ν → RecencyMap κ ν
  | .use key => (map.use key).2
  | .useOrInsert key value => (map.useOrInsert key value).map
  | .clear => map.clear

/-- A map after operations in turn. -/
def after (map : RecencyMap κ ν) (operations : List (Operation κ ν)) : RecencyMap κ ν :=
  operations.foldl perform map

/-- Both indexes of a map tell the same. A map without room for any entry still takes one. -/
structure Agrees (map : RecencyMap κ ν) : Prop where
  order : ∀ (stamp : Nat) (key : κ),
    map.order[stamp]? = some key ↔ ∃ value, map.items[key]? = some (value, stamp)
  distinct : ∀ (stamp : Nat) (key key' : κ) (value value' : ν), map.items[key]? = some (value, stamp) →
    map.items[key']? = some (value', stamp) → key = key'
  stamped : ∀ (key : κ) (value : ν) (stamp : Nat), map.items[key]? = some (value, stamp) → stamp ≤ map.tick
  size : map.items.size = map.order.size
  within : map.items.size ≤ max 1 map.capacity

/-- The key of an entry with the smallest stamp. -/
def IsOldest (map : RecencyMap κ ν) (key : κ) : Prop :=
  ∃ value stamp, map.items[key]? = some (value, stamp) ∧
    ∀ (other : κ) (value' : ν) (stamp' : Nat), map.items[other]? = some (value', stamp') → stamp ≤ stamp'

/-- An insertion that comes to a use of what the map has for a key. -/
structure Renews (map : RecencyMap κ ν) (key : κ) (present : ν) (inserted : Inserted κ ν) : Prop where
  gives : inserted.value = present
  evicted : inserted.evicted = none
  entry : inserted.map.items[key]? = some (present, map.tick + 1)
  others : ∀ other : κ, other ≠ key → inserted.map.items[other]? = map.items[other]?

/-- An insertion of an entry for a key that the map did not have. -/
structure Adds (map : RecencyMap κ ν) (key : κ) (value : ν) (inserted : Inserted κ ν) : Prop where
  gives : inserted.value = value
  entry : inserted.map.items[key]? = some (value, map.tick + 2)
  evicts_iff : inserted.evicted.isSome = true ↔ map.items.size ≠ 0 ∧ map.capacity ≤ map.items.size
  oldest : ∀ gone ∈ inserted.evicted, map.IsOldest gone ∧ inserted.map.items[gone]? = none
  others : ∀ other : κ, other ≠ key → other ∉ inserted.evicted →
    inserted.map.items[other]? = map.items[other]?

/-- A list of entries that leaves no room for another one has a last entry to give up for it. -/
theorem Entry.room_or_full {κ ν : Type} (entries : List (Entry κ ν)) (capacity : Nat) :
    (entries = [] ∨ entries.length < capacity) ∨
      ∃ before last, entries = before ++ [last] ∧ capacity ≤ before.length + 1 := by
  obtain rfl | ⟨before, last, split⟩ := List.eq_nil_or_concat entries
  · exact .inl (.inl rfl)
  rw [List.concat_eq_append] at split
  subst split
  rw [List.length_append]
  rcases Nat.lt_or_ge (before.length + 1) capacity with room | full
  · exact .inl (.inr room)
  · exact .inr ⟨before, last, rfl, full⟩

namespace Lists

variable {map map' : RecencyMap κ ν} {entries entries' before after : List (Entry κ ν)} {entry : Entry κ ν}

/-- A map that lists its entries has two indexes that say the same. -/
theorem agrees (lists : map.Lists entries) (within : entries.length ≤ max 1 map.capacity) : map.Agrees where
  order stamp key := by simp only [lists.order, lists.items]
  distinct := by
    intro stamp key key' value value' atKey atKey'
    have stamped := (lists.order stamp key).mpr ⟨value, (lists.items ..).mp atKey⟩
    have stamped' := (lists.order stamp key').mpr ⟨value', (lists.items ..).mp atKey'⟩
    exact Option.some.inj (stamped.symm.trans stamped')
  stamped key value stamp atKey := lists.stamped _ ((lists.items ..).mp atKey)
  size := by rw [lists.size, lists.size_order]
  within := by rwa [lists.size]

theorem getElem?_eq_of_mem_iff (lists : map.Lists entries) (lists' : map'.Lists entries') {key : κ}
    (same : ∀ stamp value, (⟨stamp, key, value⟩ : Entry κ ν) ∈ entries' ↔ ⟨stamp, key, value⟩ ∈ entries) :
    map'.items[key]? = map.items[key]? := by
  refine Option.ext fun ⟨value, stamp⟩ => ?_
  rw [lists.items, lists'.items, same]

theorem getElem?_eq_none_iff (lists : map.Lists entries) {key : κ} :
    map.items[key]? = none ↔ key ∉ entries.map Entry.key := by
  rw [Option.eq_none_iff_forall_ne_some, List.mem_map]
  constructor
  · rintro absent ⟨entry, member, rfl⟩
    exact absent _ ((lists.items ..).mpr member)
  · rintro absent ⟨value, stamp⟩ present
    exact absent ⟨_, (lists.items ..).mp present, rfl⟩

/-- The last entry of the list is the one that has not been used for longest. -/
theorem isOldest_last (lists : map.Lists (before ++ [entry])) : map.IsOldest entry.key := by
  have last : entry ∈ before ++ [entry] := List.mem_append_right before (List.mem_singleton_self _)
  refine ⟨entry.value, entry.stamp, (lists.items ..).mpr last, fun other value stamp present => ?_⟩
  rcases List.mem_append.mp ((lists.items ..).mp present) with inFront | atEnd
  · exact Nat.le_of_lt ((List.pairwise_append.mp lists.descending).2.2 _ inFront _ (List.mem_singleton_self _))
  · exact Nat.le_of_eq (congrArg Entry.stamp (List.mem_singleton.mp atEnd)).symm

variable [LawfulBEq κ]

/-- An entry that is there keeps its value and gets a new stamp. -/
theorem renews (lists : map.Lists entries) {key : κ} {present : ν} {stamp : Nat}
    (found : map.items[key]? = some (present, stamp)) (value : ν) :
    map.Renews key present (map.useOrInsert key value) := by
  obtain ⟨before, after, rfl⟩ := List.append_of_mem ((lists.items ..).mp found)
  have inserted := lists.useOrInsert_present value
  have used := lists.use_present.2
  simp only at inserted used
  rw [inserted]
  refine ⟨rfl, rfl, (used.items ..).mpr (List.mem_cons_self ..), fun other different => ?_⟩
  refine lists.getElem?_eq_of_mem_iff used fun stamp' value' => ?_
  have notOld : (⟨stamp', other, value'⟩ : Entry κ ν) ≠ ⟨stamp, key, present⟩ := fun same =>
    different (congrArg Entry.key same)
  have notNew : (⟨stamp', other, value'⟩ : Entry κ ν) ≠ ⟨map.tick + 1, key, present⟩ := fun same =>
    different (congrArg Entry.key same)
  rw [Entry.mem_others_iff notOld, List.mem_cons, or_iff_right notNew]

theorem adds_of_room (lists : map.Lists entries) {key : κ} (absent : key ∉ entries.map Entry.key)
    (room : entries = [] ∨ entries.length < map.capacity) (value : ν) :
    map.Adds key value (map.useOrInsert key value) := by
  obtain ⟨same, none, inserted⟩ := lists.useOrInsert_room absent room value
  refine ⟨same, (inserted.items ..).mpr (List.mem_cons_self ..), ?_, by simp [none], fun other different _ => ?_⟩
  · rw [none, lists.size]
    refine iff_of_false Bool.false_ne_true fun ⟨nonempty, full⟩ => ?_
    rcases room with rfl | room
    · exact nonempty rfl
    · exact Nat.not_lt.mpr full room
  · refine lists.getElem?_eq_of_mem_iff inserted fun stamp' value' => ?_
    rw [List.mem_cons, or_iff_right fun same => different (congrArg Entry.key same)]

/-- A full map gives up its last entry for a new one. -/
theorem adds_of_full (lists : map.Lists (before ++ [entry])) {key : κ}
    (absent : key ∉ (before ++ [entry]).map Entry.key) (full : map.capacity ≤ before.length + 1) (value : ν) :
    map.Adds key value (map.useOrInsert key value) := by
  obtain ⟨same, gone, inserted⟩ := lists.useOrInsert_full absent full value
  have last : entry.key ≠ key := by
    rintro rfl
    simp at absent
  have others := Entry.ne_of_mem_others lists.distinct
  rw [List.append_nil] at others
  refine ⟨same, (inserted.items ..).mpr (List.mem_cons_self ..), ?_, ?_, fun other different kept => ?_⟩
  · rw [gone, lists.size, List.length_append]
    exact iff_of_true rfl ⟨Nat.succ_ne_zero _, full⟩
  · intro key' isGone
    rw [gone, Option.mem_some_iff] at isGone
    subst isGone
    refine ⟨lists.isOldest_last, inserted.getElem?_eq_none_iff.mpr ?_⟩
    rw [List.map_cons, List.mem_cons, not_or, List.mem_map]
    exact ⟨last, fun ⟨other, member, again⟩ => others other member again⟩
  · refine lists.getElem?_eq_of_mem_iff inserted fun stamp' value' => ?_
    rw [gone, Option.mem_some_iff] at kept
    have notLast : (⟨stamp', other, value'⟩ : Entry κ ν) ≠ entry := fun same =>
      kept (congrArg Entry.key same).symm
    rw [List.mem_cons, or_iff_right fun same => different (congrArg Entry.key same),
      Entry.mem_others_iff notLast, List.append_nil]

/-- A key that is not there is added, whether or not an entry must go for it. -/
theorem adds (lists : map.Lists entries) {key : κ} (missing : map.items[key]? = none) (value : ν) :
    map.Adds key value (map.useOrInsert key value) := by
  have absent := lists.getElem?_eq_none_iff.mp missing
  rcases Entry.room_or_full entries map.capacity with room | ⟨before, last, rfl, full⟩
  · exact lists.adds_of_room absent room value
  · exact lists.adds_of_full absent full value

end Lists

/-- Both indexes of a map agree with a list of entries that is not too long. -/
def IsBounded (map : RecencyMap κ ν) : Prop :=
  ∃ entries, map.Lists entries ∧ entries.length ≤ max 1 map.capacity

theorem capacity_perform (map : RecencyMap κ ν) (operation : Operation κ ν) :
    (map.perform operation).capacity = map.capacity := by
  cases operation with
  | use key => exact map.capacity_use key
  | useOrInsert key value => exact map.capacity_useOrInsert key value
  | clear => rfl

theorem capacity_after (map : RecencyMap κ ν) (operations : List (Operation κ ν)) :
    (map.after operations).capacity = map.capacity := by
  induction operations generalizing map with
  | nil => rfl
  | cons operation operations ih => exact (ih _).trans (map.capacity_perform operation)

theorem tick_perform_le (map : RecencyMap κ ν) (operation : Operation κ ν) :
    (map.perform operation).tick ≤ map.tick + 2 := by
  cases operation with
  | use key => exact Nat.le_succ_of_le (Nat.le_of_eq (map.tick_use key))
  | useOrInsert key value => exact map.tick_useOrInsert_le key value
  | clear => exact Nat.le_add_right ..

/-- No operation makes the tick go on by more than two. -/
theorem tick_after_le (map : RecencyMap κ ν) (operations : List (Operation κ ν)) :
    (map.after operations).tick ≤ map.tick + 2 * operations.length := by
  induction operations generalizing map with
  | nil => exact Nat.le_refl _
  | cons operation operations ih =>
    have first := map.tick_perform_le operation
    have further := ih (map.perform operation)
    change ((map.perform operation).after operations).tick ≤ _
    rw [List.length_cons]
    omega

variable [LawfulBEq κ]

namespace IsBounded

variable {map : RecencyMap κ ν}

theorem empty (capacity : Nat) : (RecencyMap.empty capacity : RecencyMap κ ν).IsBounded :=
  ⟨[], .empty capacity, Nat.zero_le _⟩

theorem use (bounded : map.IsBounded) (key : κ) : (map.use key).2.IsBounded := by
  obtain ⟨entries, lists, within⟩ := bounded
  rw [IsBounded, map.capacity_use key]
  by_cases present : key ∈ entries.map Entry.key
  · obtain ⟨entry, member, rfl⟩ := List.mem_map.mp present
    obtain ⟨before, after, rfl⟩ := List.append_of_mem member
    refine ⟨_, lists.use_present.2, ?_⟩
    rwa [List.perm_middle.length_eq] at within
  · rw [lists.use_absent present]
    exact ⟨entries, lists.later (Nat.le_succ _), within⟩

theorem useOrInsert (bounded : map.IsBounded) (key : κ) (value : ν) :
    (map.useOrInsert key value).map.IsBounded := by
  have used := bounded.use key
  obtain ⟨entries, lists, within⟩ := bounded
  by_cases present : key ∈ entries.map Entry.key
  · obtain ⟨entry, member, rfl⟩ := List.mem_map.mp present
    obtain ⟨before, after, rfl⟩ := List.append_of_mem member
    rwa [lists.useOrInsert_present value]
  rw [IsBounded, map.capacity_useOrInsert key value]
  rcases Entry.room_or_full entries map.capacity with room | ⟨before, last, rfl, full⟩
  · refine ⟨_, (lists.useOrInsert_room present room value).2.2, ?_⟩
    rw [List.length_cons]
    -- without room for any entry the map holds one nevertheless
    rcases room with rfl | room
    · exact Nat.le_max_left ..
    · exact Nat.le_trans room (Nat.le_max_right ..)
  · refine ⟨_, (lists.useOrInsert_full present full value).2.2, ?_⟩
    rwa [List.length_append] at within

theorem perform (bounded : map.IsBounded) (operation : Operation κ ν) : (map.perform operation).IsBounded := by
  cases operation with
  | use key => exact bounded.use key
  | useOrInsert key value => exact bounded.useOrInsert key value
  | clear => exact ⟨[], .clear map, Nat.zero_le _⟩

theorem after (bounded : map.IsBounded) (operations : List (Operation κ ν)) :
    (map.after operations).IsBounded := by
  induction operations generalizing map with
  | nil => exact bounded
  | cons operation operations ih => exact ih (bounded.perform operation)

end IsBounded

/-- The two indexes of a map never drift apart, whatever is done to it. Stamps stay within twice the number of
operations, so that 64 bits hold them for as long as they hold that. -/
theorem indexes_agree (capacity : Nat) (operations : List (Operation κ ν)) (key : κ) (value : ν) :
    let map := (empty capacity : RecencyMap κ ν).after operations
    map.Agrees ∧ map.capacity = capacity ∧ map.tick ≤ 2 * operations.length ∧
      (∀ present stamp, map.items[key]? = some (present, stamp) →
        map.Renews key present (map.useOrInsert key value)) ∧
      (map.items[key]? = none → map.Adds key value (map.useOrInsert key value)) := by
  intro map
  obtain ⟨entries, lists, within⟩ := (IsBounded.empty capacity).after operations
  have ticks := (empty capacity : RecencyMap κ ν).tick_after_le operations
  refine ⟨lists.agrees within, capacity_after .., ?_, fun present stamp found => lists.renews found value,
    fun missing => lists.adds missing value⟩
  exact Nat.le_trans ticks (Nat.le_of_eq (Nat.zero_add _))

/-- What is used again stays, and the other entry goes. -/
theorem indexes_agree_used_again :
    let map := (empty 2 : RecencyMap Nat Char).after [.useOrInsert 0 'a', .useOrInsert 1 'b', .use 0]
    map.Agrees ∧ map.items[2]? = none ∧ map.Adds 2 'c' (map.useOrInsert 2 'c') ∧
      (map.useOrInsert 2 'c').evicted = some 1 := by
  intro map
  have nothing : (empty 2 : RecencyMap Nat Char).Lists [] := .empty 2
  have first : Lists _ [⟨_, 0, 'a'⟩] :=
    (nothing.useOrInsert_room (by simp) (.inl rfl) 'a').2.2
  have second : Lists _ ([⟨_, 1, 'b'⟩] ++ ⟨_, 0, 'a'⟩ :: []) :=
    (first.useOrInsert_room (by simp) (.inr (by simp [capacity_useOrInsert, empty])) 'b').2.2
  have third : map.Lists ([⟨_, 0, 'a'⟩] ++ [⟨_, 1, 'b'⟩]) := second.use_present.2
  have missing : map.items[2]? = none := third.getElem?_eq_none_iff.mpr (by simp)
  have full : map.capacity = 2 := capacity_after ..
  obtain ⟨-, gone, -⟩ :=
    third.useOrInsert_full (third.getElem?_eq_none_iff.mp missing) (Nat.le_of_eq full) 'c'
  obtain ⟨agrees, -, -, -, adds⟩ := indexes_agree 2 [.useOrInsert 0 'a', .useOrInsert 1 'b', .use 0] 2 'c'
  exact ⟨agrees, missing, adds missing, gone⟩

end RecencyMap

end Sift

import Sift.Cache.Recency

namespace Sift

section
variable {κ : Type}

/-- The library has laws for the first key of a tree, and none for its first entry. -/
theorem minEntry?_eq_head?_toListModel (tree : Std.DTreeMap.Internal.Impl Nat fun _ => κ) :
    Std.DTreeMap.Internal.Impl.Const.minEntry? tree = (tree.toListModel.map fun e => (e.1, e.2)).head? := by
  induction tree using Std.DTreeMap.Internal.Impl.Const.minEntry?.induct with
  | case1 => rw [Std.DTreeMap.Internal.Impl.Const.minEntry?]; rfl
  | case2 => rw [Std.DTreeMap.Internal.Impl.Const.minEntry?]; rfl
  | case3 size k v size' k' v' left right right' ih =>
    rw [Std.DTreeMap.Internal.Impl.Const.minEntry?, ih]
    simp

theorem minEntry?_eq_head?_toList (order : Std.TreeMap Nat κ) : order.minEntry? = order.toList.head? := by
  rw [Std.TreeMap.toList, Std.DTreeMap.Const.toList, Std.DTreeMap.Internal.Impl.Const.toList_eq_toListModel_map]
  exact minEntry?_eq_head?_toListModel _

/-- The first stamp of the index of stamps is the least one. -/
theorem minEntry?_eq_some {order : Std.TreeMap Nat κ} {stamp : Nat} {key : κ}
    (present : order[stamp]? = some key) (least : ∀ stamp' key', order[stamp']? = some key' → stamp ≤ stamp') :
    order.minEntry? = some (stamp, key) := by
  have member := Std.TreeMap.mem_toList_iff_getElem?_eq_some.mpr present
  have ascending := Std.TreeMap.ordered_keys_toList (t := order)
  rw [minEntry?_eq_head?_toList]
  cases listed : order.toList with
  | nil => rw [listed] at member; cases member
  | cons head rest =>
    rw [listed] at member ascending
    rcases List.mem_cons.mp member with same | later
    · rw [← same, List.head?_cons]
    · have before := Nat.compare_eq_lt.mp ((List.pairwise_cons.mp ascending).1 _ later)
      have atHead : order[head.1]? = some head.2 :=
        Std.TreeMap.mem_toList_iff_getElem?_eq_some.mp (listed ▸ List.mem_cons_self ..)
      exact absurd (least _ _ atHead) (Nat.not_le.mpr before)

end

namespace RecencyMap

/-- An entry of a map, with the stamp of its last use. -/
structure Entry (κ ν : Type) where
  stamp : Nat
  key : κ
  value : ν

variable {κ ν : Type}

namespace Entry

variable {before after : List (Entry κ ν)} {entry : Entry κ ν}

/-- What tells entries apart tells one from all others. -/
theorem ne_of_mem_others {α : Type} {f : Entry κ ν → α}
    (distinct : ((before ++ entry :: after).map f).Nodup) :
    ∀ other ∈ before ++ after, f other ≠ f entry := by
  intro other member same
  have ahead := ((List.perm_middle.map f).nodup_iff).mp distinct
  rw [List.map_cons, List.nodup_cons] at ahead
  exact ahead.1 (List.mem_map.mpr ⟨other, member, same⟩)

theorem mem_others_iff {other : Entry κ ν} (different : other ≠ entry) :
    other ∈ before ++ entry :: after ↔ other ∈ before ++ after := by
  rw [List.perm_middle.mem_iff, List.mem_cons, or_iff_right different]

def pair (entry : Entry κ ν) : κ × ν :=
  (entry.key, entry.value)

theorem keys_pairs (entries : List (Entry κ ν)) : (entries.map pair).map Prod.fst = entries.map key := by
  rw [List.map_map]
  rfl

end Entry

variable [BEq κ] [Hashable κ]

/-- Both indexes of a map agree with a list of entries, the last used first. No two entries have a stamp
or a key in common. -/
structure Lists (map : RecencyMap κ ν) (entries : List (Entry κ ν)) : Prop where
  descending : entries.Pairwise fun later earlier => earlier.stamp < later.stamp
  stamped : ∀ entry ∈ entries, entry.stamp ≤ map.tick
  distinct : (entries.map Entry.key).Nodup
  items : ∀ key value stamp, map.items[key]? = some (value, stamp) ↔ ⟨stamp, key, value⟩ ∈ entries
  order : ∀ stamp key, map.order[stamp]? = some key ↔ ∃ value, ⟨stamp, key, value⟩ ∈ entries
  size : map.items.size = entries.length

namespace Lists

variable {map : RecencyMap κ ν} {entries before after : List (Entry κ ν)} {entry : Entry κ ν}

theorem distinctStamps (lists : map.Lists entries) : (entries.map Entry.stamp).Nodup :=
  List.pairwise_map.mpr (lists.descending.imp Nat.ne_of_gt)

/-- Time may pass without a use. -/
theorem later (lists : map.Lists entries) {now : Nat} (passed : map.tick ≤ now) :
    Lists { map with tick := now } entries :=
  { lists with stamped := fun entry member => Nat.le_trans (lists.stamped entry member) passed }

/-- What the indexes are made of does not matter. -/
theorem congr (lists : map.Lists entries) {map' : RecencyMap κ ν} (tick : map'.tick = map.tick)
    (items : ∀ key : κ, map'.items[key]? = map.items[key]?) (order : map'.order = map.order)
    (size : map'.items.size = entries.length) : map'.Lists entries where
  descending := lists.descending
  stamped := tick ▸ lists.stamped
  distinct := lists.distinct
  items key value stamp := by rw [items, lists.items]
  order := order ▸ lists.order
  size := size

/-- The index of stamps has the entries of the list and no others. -/
theorem toList_order_perm (lists : map.Lists entries) :
    map.order.toList.Perm (entries.map fun entry => (entry.stamp, entry.key)) := by
  have once : map.order.toList.Nodup := Std.TreeMap.ordered_keys_toList.imp fun before same => by
    rw [same, Nat.compare_eq_lt] at before
    exact Nat.lt_irrefl _ before
  have once' : (entries.map fun entry => (entry.stamp, entry.key)).Nodup :=
    List.pairwise_map.mpr (lists.descending.imp fun before same =>
      Nat.ne_of_gt before (congrArg Prod.fst same))
  rw [List.perm_ext_iff_of_nodup once once']
  rintro ⟨stamp, key⟩
  rw [Std.TreeMap.mem_toList_iff_getElem?_eq_some, lists.order, List.mem_map]
  constructor
  · rintro ⟨value, member⟩
    exact ⟨_, member, rfl⟩
  · rintro ⟨entry, member, same⟩
    cases same
    exact ⟨entry.value, member⟩

theorem size_order (lists : map.Lists entries) : map.order.size = entries.length := by
  rw [← Std.TreeMap.length_toList, lists.toList_order_perm.length_eq, List.length_map]

/-- A map without entries has none to give up. -/
theorem evict_nil (lists : map.Lists []) : map.evict = (none, map) := by
  have nothing : map.order.toList = [] := lists.toList_order_perm.eq_nil
  simp only [RecencyMap.evict, minEntry?_eq_head?_toList, nothing, List.head?_nil]

/-- The first stamp is that of the entry that was used first of all. -/
theorem evict_last (lists : map.Lists (before ++ [entry])) :
    map.evict = (some entry.key,
      { map with items := map.items.erase entry.key, order := map.order.erase entry.stamp }) := by
  have present : map.order[entry.stamp]? = some entry.key :=
    (lists.order _ _).mpr ⟨entry.value, List.mem_append_right before (List.mem_singleton_self _)⟩
  have least : ∀ stamp key, map.order[stamp]? = some key → entry.stamp ≤ stamp := by
    intro stamp key atStamp
    obtain ⟨value, member⟩ := (lists.order stamp key).mp atStamp
    rcases List.mem_append.mp member with inFront | last
    · have earlier := (List.pairwise_append.mp lists.descending).2.2 _ inFront entry (List.mem_singleton_self _)
      exact Nat.le_of_lt earlier
    · obtain rfl := List.mem_singleton.mp last
      exact Nat.le_refl _
  simp only [RecencyMap.evict, minEntry?_eq_some present least]

variable [LawfulBEq κ]

theorem empty (capacity : Nat) : (RecencyMap.empty capacity : RecencyMap κ ν).Lists [] := by
  constructor <;> simp [RecencyMap.empty]

theorem clear (map : RecencyMap κ ν) : map.clear.Lists [] := by
  constructor <;> simp [RecencyMap.clear]

/-- The index of keys has the keys of the list. -/
theorem mem_items (lists : map.Lists entries) {key : κ} :
    key ∈ map.items ↔ key ∈ entries.map Entry.key := by
  rw [Std.HashMap.mem_iff_isSome_getElem?, Option.isSome_iff_exists, List.mem_map]
  constructor
  · rintro ⟨⟨value, stamp⟩, present⟩
    exact ⟨_, (lists.items key value stamp).mp present, rfl⟩
  · rintro ⟨entry, member, rfl⟩
    exact ⟨_, (lists.items entry.key entry.value entry.stamp).mpr member⟩

/-- An entry taken out of both indexes. -/
theorem erase (lists : map.Lists (before ++ entry :: after)) :
    Lists { map with items := map.items.erase entry.key, order := map.order.erase entry.stamp }
      (before ++ after) where
  descending := lists.descending.sublist ((List.sublist_cons_self entry after).append_left before)
  stamped other member := lists.stamped other (List.perm_middle.mem_iff.mpr (List.mem_cons_of_mem _ member))
  distinct := lists.distinct.sublist (((List.sublist_cons_self entry after).append_left before).map _)
  items := by
    intro key value stamp
    rw [Std.HashMap.getElem?_erase]
    by_cases same : entry.key = key
    · subst same
      refine iff_of_false (by simp) fun member => ?_
      exact Entry.ne_of_mem_others lists.distinct _ member rfl
    · have different : (⟨stamp, key, value⟩ : Entry κ ν) ≠ entry := by
        rintro rfl
        exact same rfl
      rw [if_neg (by simpa using same), lists.items, Entry.mem_others_iff different]
  order := by
    intro stamp key
    rw [Std.TreeMap.getElem?_erase]
    by_cases same : entry.stamp = stamp
    · subst same
      refine iff_of_false (by simp) ?_
      rintro ⟨value, member⟩
      exact Entry.ne_of_mem_others lists.distinctStamps _ member rfl
    · rw [if_neg (by simpa using same), lists.order]
      refine exists_congr fun value => Entry.mem_others_iff ?_
      rintro rfl
      exact same rfl
  size := by
    have member : entry.key ∈ map.items := lists.mem_items.mpr (by simp)
    have size := lists.size
    rw [Std.HashMap.size_erase, if_pos member, size]
    simp only [List.length_append, List.length_cons]
    omega

/-- A new entry stands at the front. -/
theorem insertNew (lists : map.Lists entries) {key : κ} (absent : key ∉ entries.map Entry.key) (value : ν) :
    (map.insertNew key value).Lists (⟨map.tick + 1, key, value⟩ :: entries) where
  descending := List.pairwise_cons.mpr ⟨fun other member => Nat.lt_succ_of_le (lists.stamped other member),
    lists.descending⟩
  stamped := by
    intro other member
    rcases List.mem_cons.mp member with rfl | old
    · exact Nat.le_refl _
    · exact Nat.le_succ_of_le (lists.stamped other old)
  distinct := by
    rw [List.map_cons, List.nodup_cons]
    exact ⟨absent, lists.distinct⟩
  items := by
    intro key' value' stamp
    rw [RecencyMap.insertNew, Std.HashMap.getElem?_insert, List.mem_cons]
    by_cases same : key = key'
    · subst same
      have notOld : (⟨stamp, key, value'⟩ : Entry κ ν) ∉ entries := fun old =>
        absent (List.mem_map.mpr ⟨_, old, rfl⟩)
      rw [or_iff_left notOld]
      simp [eq_comm, and_comm]
    · have notNew : (⟨stamp, key', value'⟩ : Entry κ ν) ≠ ⟨map.tick + 1, key, value⟩ := by
        intro new
        exact same (congrArg Entry.key new).symm
      rw [if_neg (by simpa using same), lists.items, or_iff_right notNew]
  order := by
    intro stamp key'
    simp only [RecencyMap.insertNew, Std.TreeMap.getElem?_insert, List.mem_cons]
    by_cases same : map.tick + 1 = stamp
    · subst same
      have notOld : ∀ value', (⟨map.tick + 1, key', value'⟩ : Entry κ ν) ∉ entries := fun value' old =>
        absurd (lists.stamped _ old) (Nat.not_succ_le_self _)
      simp [notOld, eq_comm]
    · have notNew : ∀ value', (⟨stamp, key', value'⟩ : Entry κ ν) ≠ ⟨map.tick + 1, key, value⟩ := by
        intro value' new
        exact same (congrArg Entry.stamp new).symm
      rw [if_neg (by simpa using same), lists.order]
      exact exists_congr fun value' => (or_iff_right (notNew value')).symm
  size := by
    have absent' : key ∉ map.items := mt lists.mem_items.mp absent
    rw [RecencyMap.insertNew, Std.HashMap.size_insert, if_neg absent', lists.size, List.length_cons]

theorem use_absent (lists : map.Lists entries) {key : κ} (absent : key ∉ entries.map Entry.key) :
    map.use key = (none, { map with tick := map.tick + 1 }) := by
  have missing : map.items[key]? = none := Std.HashMap.getElem?_eq_none (mt lists.mem_items.mp absent)
  simp only [RecencyMap.use, missing]

/-- An entry that is used comes to the front. -/
theorem use_present (lists : map.Lists (before ++ entry :: after)) :
    (map.use entry.key).1 = some entry.value ∧
      (map.use entry.key).2.Lists (⟨map.tick + 1, entry.key, entry.value⟩ :: (before ++ after)) := by
  have present : map.items[entry.key]? = some (entry.value, entry.stamp) :=
    (lists.items _ _ _).mpr (List.mem_append_right before (List.mem_cons_self ..))
  have member : entry.key ∈ map.items := by
    rw [Std.HashMap.mem_iff_isSome_getElem?, present]
    rfl
  have absent : entry.key ∉ (before ++ after).map Entry.key := by
    rintro again
    obtain ⟨other, within, same⟩ := List.mem_map.mp again
    exact Entry.ne_of_mem_others lists.distinct other within same
  -- a stamp written over another comes to the same entries as erasing and inserting anew
  have fresh := lists.erase.insertNew absent entry.value
  simp only [RecencyMap.use, present, true_and]
  refine fresh.congr rfl (fun key => ?_) rfl ?_
  · simp only [RecencyMap.insertNew, Std.HashMap.getElem?_insert, Std.HashMap.getElem?_erase]
    split <;> rfl
  · rw [Std.HashMap.size_insert, if_pos member, lists.size]
    simp only [List.length_append, List.length_cons]
    omega

theorem useOrInsert_present (lists : map.Lists (before ++ entry :: after)) (value : ν) :
    map.useOrInsert entry.key value = ⟨entry.value, none, (map.use entry.key).2⟩ := by
  obtain ⟨found, -⟩ := lists.use_present
  unfold useOrInsert
  split <;> rename_i used <;> rw [used] at found
  · obtain rfl := Option.some.inj found
    rw [used]
  · cases found

/-- A full map gives up the entry that was used first of all. -/
theorem useOrInsert_full {last : Entry κ ν} (lists : map.Lists (before ++ [last])) {key : κ}
    (absent : key ∉ (before ++ [last]).map Entry.key) (full : map.capacity ≤ before.length + 1) (value : ν) :
    (map.useOrInsert key value).value = value ∧ (map.useOrInsert key value).evicted = some last.key ∧
      (map.useOrInsert key value).map.Lists (⟨map.tick + 2, key, value⟩ :: before) := by
  have ticked := lists.later (Nat.le_succ map.tick)
  have absent' : key ∉ before.map Entry.key := by
    rw [List.map_append, List.mem_append, not_or] at absent
    exact absent.1
  have filled : map.capacity ≤ map.items.size := by
    rw [lists.size, List.length_append]
    exact full
  have erased := ticked.erase
  rw [List.append_nil] at erased
  simp only [RecencyMap.useOrInsert, lists.use_absent absent]
  rw [if_pos filled, ticked.evict_last]
  exact ⟨rfl, rfl, erased.insertNew absent' value⟩

/-- A map with room gives up none, and neither does one without entries. -/
theorem useOrInsert_room (lists : map.Lists entries) {key : κ} (absent : key ∉ entries.map Entry.key)
    (room : entries = [] ∨ entries.length < map.capacity) (value : ν) :
    (map.useOrInsert key value).value = value ∧ (map.useOrInsert key value).evicted = none ∧
      (map.useOrInsert key value).map.Lists (⟨map.tick + 2, key, value⟩ :: entries) := by
  have ticked := lists.later (Nat.le_succ map.tick)
  simp only [RecencyMap.useOrInsert, lists.use_absent absent]
  by_cases full : map.capacity ≤ map.items.size
  · rw [lists.size] at full
    obtain rfl := room.resolve_right (Nat.not_lt.mpr full)
    rw [if_pos (lists.size ▸ full), ticked.evict_nil]
    exact ⟨rfl, rfl, ticked.insertNew absent value⟩
  · rw [if_neg full]
    exact ⟨rfl, rfl, ticked.insertNew absent value⟩

/-- A new entry comes to the front, and the entries beyond the capacity are given up. -/
theorem useOrInsert_absent (lists : map.Lists entries) {key : κ} (absent : key ∉ entries.map Entry.key)
    (within : entries.length ≤ map.capacity) (positive : 0 < map.capacity) (value : ν) :
    (map.useOrInsert key value).value = value ∧
      (map.useOrInsert key value).map.Lists ((⟨map.tick + 2, key, value⟩ :: entries).take map.capacity) := by
  by_cases full : map.capacity ≤ entries.length
  · obtain rfl | ⟨front, last, split⟩ := List.eq_nil_or_concat entries
    · exact absurd full (Nat.not_le.mpr positive)
    rw [List.concat_eq_append] at split
    subst split
    have room : map.capacity = front.length + 1 := by
      simp only [List.length_append, List.length_singleton] at full within
      omega
    have kept : List.take map.capacity (⟨map.tick + 2, key, value⟩ :: (front ++ [last])) =
        ⟨map.tick + 2, key, value⟩ :: front := by
      rw [room, List.take_succ_cons, List.take_left]
    obtain ⟨same, -, inserted⟩ := lists.useOrInsert_full absent (Nat.le_of_eq room) value
    rw [kept]
    exact ⟨same, inserted⟩
  · rw [Nat.not_le] at full
    obtain ⟨same, -, inserted⟩ := lists.useOrInsert_room absent (.inr full) value
    rw [List.take_of_length_le full]
    exact ⟨same, inserted⟩

end Lists

/-- What a map holds, the last used first. -/
def Holds (map : RecencyMap κ ν) (held : List (κ × ν)) : Prop :=
  ∃ entries, map.Lists entries ∧ held = entries.map Entry.pair

theorem capacity_use (map : RecencyMap κ ν) (key : κ) : (map.use key).2.capacity = map.capacity := by
  unfold use
  split <;> rfl

theorem tick_use (map : RecencyMap κ ν) (key : κ) : (map.use key).2.tick = map.tick + 1 := by
  unfold use
  split <;> rfl

theorem capacity_evict (map : RecencyMap κ ν) : map.evict.2.capacity = map.capacity := by
  unfold evict
  split <;> rfl

theorem tick_evict (map : RecencyMap κ ν) : map.evict.2.tick = map.tick := by
  unfold evict
  split <;> rfl

/-- The capacity is what it was when the map was made. -/
theorem capacity_useOrInsert (map : RecencyMap κ ν) (key : κ) (value : ν) :
    (map.useOrInsert key value).map.capacity = map.capacity := by
  have capacity := map.capacity_use key
  unfold useOrInsert
  split <;> rename_i used <;> rw [used] at capacity
  · exact capacity
  · split
    · exact (capacity_evict _).trans capacity
    · exact capacity

/-- Looking for an entry takes a tick, and so does its insertion. -/
theorem tick_useOrInsert_le (map : RecencyMap κ ν) (key : κ) (value : ν) :
    (map.useOrInsert key value).map.tick ≤ map.tick + 2 := by
  have tick := map.tick_use key
  unfold useOrInsert
  split <;> rename_i used <;> rw [used] at tick
  · exact Nat.le_trans (Nat.le_of_eq tick) (Nat.le_succ _)
  · split
    · exact Nat.succ_le_succ (Nat.le_of_eq ((tick_evict _).trans tick))
    · exact Nat.succ_le_succ (Nat.le_of_eq tick)

namespace Holds

variable {map : RecencyMap κ ν} {held before after : List (κ × ν)} {key : κ} {value : ν}

theorem distinct (holds : map.Holds held) : (held.map Prod.fst).Nodup := by
  obtain ⟨entries, lists, rfl⟩ := holds
  rw [Entry.keys_pairs]
  exact lists.distinct

theorem size (holds : map.Holds held) : map.size = held.length := by
  obtain ⟨entries, lists, rfl⟩ := holds
  rw [RecencyMap.size, lists.size, List.length_map]

variable [LawfulBEq κ]

theorem empty (capacity : Nat) : (RecencyMap.empty capacity : RecencyMap κ ν).Holds [] :=
  ⟨[], .empty capacity, rfl⟩

theorem clear (map : RecencyMap κ ν) : map.clear.Holds [] :=
  ⟨[], .clear map, rfl⟩

/-- A map contains the keys that it holds. -/
theorem contains_iff (holds : map.Holds held) : map.contains key = true ↔ key ∈ held.map Prod.fst := by
  obtain ⟨entries, lists, rfl⟩ := holds
  rw [Entry.keys_pairs, ← lists.mem_items]
  exact Std.HashMap.contains_iff_mem

theorem use_absent (holds : map.Holds held) (absent : key ∉ held.map Prod.fst) :
    (map.use key).1 = none ∧ (map.use key).2.Holds held := by
  obtain ⟨entries, lists, rfl⟩ := holds
  rw [Entry.keys_pairs] at absent
  rw [lists.use_absent absent]
  exact ⟨rfl, entries, lists.later (Nat.le_succ _), rfl⟩

theorem use_present (holds : map.Holds (before ++ (key, value) :: after)) :
    (map.use key).1 = some value ∧ (map.use key).2.Holds ((key, value) :: (before ++ after)) := by
  obtain ⟨entries, lists, split⟩ := holds
  obtain ⟨front, back, rfl, rfl, atKey⟩ := List.map_eq_append_iff.mp split.symm
  obtain ⟨entry, rest, rfl, same, rfl⟩ := List.map_eq_cons_iff.mp atKey
  cases same
  obtain ⟨found, used⟩ := lists.use_present
  refine ⟨found, _, used, ?_⟩
  rw [List.map_cons, List.map_append]
  rfl

theorem useOrInsert_absent (holds : map.Holds held) (absent : key ∉ held.map Prod.fst)
    (within : held.length ≤ map.capacity) (positive : 0 < map.capacity) (value : ν) :
    (map.useOrInsert key value).value = value ∧
      (map.useOrInsert key value).map.Holds (((key, value) :: held).take map.capacity) := by
  obtain ⟨entries, lists, rfl⟩ := holds
  rw [Entry.keys_pairs] at absent
  rw [List.length_map] at within
  obtain ⟨kept, inserted⟩ := lists.useOrInsert_absent absent within positive value
  refine ⟨kept, _, inserted, ?_⟩
  rw [List.map_take, List.map_cons]
  rfl

end Holds

end RecencyMap

end Sift

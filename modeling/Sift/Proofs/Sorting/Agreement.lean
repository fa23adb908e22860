import Sift.Proofs.Sorting.Piece

namespace Sift

theorem not_blank_of_head?_trim {cs : List Char} : ∀ c ∈ (trim cs).head?, isBlank c = false := by
  intro c first
  obtain ⟨rest, whole⟩ := List.head?_eq_some_iff.mp first
  obtain ⟨more, split⟩ := trim_front cs
  rw [whole, List.cons_append] at split
  have begins := List.head?_dropWhile_not isBlank cs
  rw [← split] at begins
  simpa using begins

theorem not_blank_of_getLast?_trim {cs : List Char} : ∀ c ∈ (trim cs).getLast?, isBlank c = false := by
  intro c last
  rw [trim, trimRight, List.getLast?_reverse] at last
  have begins := List.head?_dropWhile_not isBlank (cs.dropWhile isBlank).reverse
  rw [last] at begins
  simpa using begins

namespace SortFault

/-- What a fault tells of a piece between so many pieces before it and after it. The segment is the piece
without the white space around it. -/
inductive Tells (before after : Nat) (segment : List Char) : SortFault → Prop
  | leadingComma : segment = [] → before = 0 → Tells before after segment .leadingComma
  | trailingComma : segment = [] → after = 0 → Tells before after segment .trailingComma
  | emptySegment : segment = [] → Tells before after segment (.emptySegment (before + 1))
  | repeatedSign {first second rest} : segment = first :: second :: rest → isSign first → isSign second →
      Tells before after segment (.repeatedSign (String.ofList segment))
  | signAlone {sign} : segment = [sign] → isSign sign →
      Tells before after segment (.signAlone (String.ofList segment))
  | spaceAfterSign {sign space rest} : segment = sign :: space :: rest → isSign sign → isBlank space →
      Tells before after segment (.spaceAfterSign (String.ofList segment))
  | missingComma {space} : space ∈ segment → isBlank space →
      Tells before after segment (.missingComma (String.ofList segment))
  | invalidName {direction sign name} : Direction.IsWritten direction sign → segment = sign ++ name →
      (∀ path : PropertyPath, path.IsNamed → path.dotted.toList ≠ name) →
      Tells before after segment (.invalidName (String.ofList name))

/-- The faults of some pieces with so many before them: one for each piece that spells no key, in the order
of the pieces. -/
inductive Told : Nat → List (List Char) → List SortFault → Prop
  | none {before} : Told before [] []
  | spelled {before piece others faults} {key : SortKey} : key.IsSpelledBy (trim piece) →
      Told (before + 1) others faults → Told before (piece :: others) faults
  | unspelled {before piece others fault faults} : (∀ key : SortKey, ¬key.IsSpelledBy (trim piece)) →
      Tells before others.length (trim piece) fault → Told (before + 1) others faults →
      Told before (piece :: others) (fault :: faults)

theorem tells_ofEmpty (before after : Nat) : (ofEmpty before after).Tells before after [] := by
  unfold ofEmpty
  split
  · rename_i first
    exact .leadingComma rfl first
  · split
    · rename_i last
      exact .trailingComma rfl last
    · exact .emptySegment rfl

/-- The fault that is found in a piece is one that the piece has. -/
theorem tells_of_inSegment? {before after : Nat} {segment : List Char} {fault : SortFault}
    (first : ∀ c ∈ segment.head?, isBlank c = false) (last : ∀ c ∈ segment.getLast?, isBlank c = false)
    (found : inSegment? segment = some fault) : fault.Tells before after segment := by
  have split := List.takeWhile_append_dropWhile (p := isSign) (l := segment)
  have signs := List.all_eq_true.mp (List.all_takeWhile (p := isSign) (l := segment))
  simp only [inSegment?, ite_eq_iff, Option.some.injEq, reduceCtorEq, and_false, or_false] at found
  generalize segment.takeWhile isSign = sign at split signs found
  generalize segment.dropWhile isSign = name at split found
  rcases found with ⟨several, rfl⟩ | ⟨single, ⟨alone, rfl⟩ | ⟨-, ⟨spaced, rfl⟩ | ⟨-, ⟨divided, rfl⟩ |
    ⟨-, unnamed, rfl⟩⟩⟩⟩
  · obtain _ | ⟨c, _ | ⟨d, more⟩⟩ := sign
    · exact absurd several (Nat.not_lt_zero 1)
    · exact absurd several (Nat.lt_irrefl 1)
    · exact .repeatedSign split.symm (signs c (by simp)) (signs d (by simp))
  · obtain ⟨one, blank⟩ := alone
    obtain ⟨c, rfl⟩ := List.length_eq_one_iff.mp one
    have empty : name = [] := by
      by_contra filled
      have atEnd : segment.getLast? = some (name.getLast filled) := by
        rw [← split, List.getLast?_append_of_ne_nil _ filled, List.getLast?_eq_some_getLast filled]
      have solid := last _ atEnd
      rw [List.all_eq_true.mp blank _ (List.getLast_mem filled)] at solid
      cases solid
    rw [empty, List.append_nil] at split
    exact .signAlone split.symm (signs c (by simp))
  · obtain ⟨space, atFront, blank⟩ := (Option.any_eq_true _ _).mp spaced
    obtain ⟨rest, rfl⟩ := List.head?_eq_some_iff.mp atFront
    rcases Nat.le_one_iff_eq_zero_or_eq_one.mp (Nat.le_of_not_lt single) with unsigned | signed
    · rw [List.length_eq_zero_iff.mp unsigned, List.nil_append] at split
      rw [first space (by rw [← split]; rfl)] at blank
      cases blank
    · obtain ⟨c, rfl⟩ := List.length_eq_one_iff.mp signed
      exact .spaceAfterSign split.symm (signs c (by simp)) blank
  · obtain ⟨space, within, blank⟩ := List.any_eq_true.mp divided
    exact .missingComma (split ▸ List.mem_append_right _ within) blank
  · obtain ⟨direction, written⟩ := exists_isWritten signs (Nat.le_of_not_lt single)
    refine .invalidName written split.symm fun path named same => ?_
    rw [pathOf?_eq_some.mpr ⟨named, same.symm⟩] at unnamed
    cases unnamed

/-- There is one fault for every piece that spells no key. -/
theorem told_inPieces (before : Nat) (ps : List (List Char)) : Told before ps (inPieces before ps) := by
  induction ps generalizing before with
  | nil => exact .none
  | cons piece others ih =>
    have further := ih (before + 1)
    simp only [inPieces]
    by_cases empty : (trim piece).isEmpty = true
    · rw [if_pos empty]
      rw [List.isEmpty_iff] at empty
      refine .unspelled ?_ ?_ further
      · rintro key ⟨sign, -, named, split⟩
        obtain ⟨first, rest, chars, -⟩ := named.begins
        simp [empty, chars] at split
      · rw [empty]
        exact tells_ofEmpty before others.length
    · rw [if_neg empty]
      cases found : inSegment? (trim piece) with
      | none =>
        obtain ⟨key, spelled⟩ := inSegment?_eq_none_iff.mp found
        exact .spelled spelled further
      | some fault =>
        refine .unspelled (fun key spelled => ?_) ?_ further
        · rw [inSegment?_eq_none_iff.mpr ⟨key, spelled⟩] at found
          cases found
        · exact tells_of_inSegment? not_blank_of_head?_trim not_blank_of_getLast?_trim found

variable {before : Nat} {ps : List (List Char)} {faults : List SortFault} (told : Told before ps faults)

include told

/-- No fault is told just when every piece spells a key. -/
theorem Told.eq_nil_iff : faults = [] ↔ ∀ piece ∈ ps, ∃ key : SortKey, key.IsSpelledBy (trim piece) := by
  induction told with
  | none => exact ⟨fun _ => nofun, fun _ => rfl⟩
  | spelled spelled _ ih => rw [List.forall_mem_cons, ← ih, and_iff_right ⟨_, spelled⟩]
  | unspelled unspelled _ _ _ =>
    refine ⟨nofun, fun each => ?_⟩
    obtain ⟨key, spelled⟩ := each _ (List.mem_cons_self ..)
    exact absurd spelled (unspelled key)

/-- The rules never say that a piece cannot be read. -/
theorem Told.not_unreadable (segment : String) : unreadable segment ∉ faults := by
  induction told with
  | none => exact List.not_mem_nil
  | spelled _ _ ih => exact ih
  | unspelled _ tells _ ih =>
    rw [List.mem_cons, not_or]
    refine ⟨?_, ih⟩
    rintro rfl
    cases tells

end SortFault

namespace SortKey

/-- The pieces are read as the keys that they spell. -/
theorem readAll_eq_ok {ps : List (List Char)} {keys : List SortKey} :
    readAll ps = .ok keys ↔ List.Forall₂ (fun piece key => key.IsSpelledBy (trim piece)) ps keys := by
  induction ps generalizing keys with
  | nil =>
    rw [readAll, List.forall₂_nil_left_iff, Except.ok.injEq, eq_comm]
  | cons piece others ih =>
    rw [readAll, List.forall₂_cons_left_iff]
    constructor
    · intro read
      split at read
      · cases read
      · rename_i key atFirst
        obtain ⟨rest, atRest, rfl⟩ := map_eq_ok.mp read
        exact ⟨key, rest, read?_eq_some.mp atFirst, ih.mp atRest, rfl⟩
    · rintro ⟨key, rest, spelled, further, rfl⟩
      rw [read?_eq_some.mpr spelled]
      exact map_eq_ok.mpr ⟨rest, ih.mpr further, rfl⟩

theorem exists_of_spelled {ps : List (List Char)} {keys : List SortKey}
    (spelled : List.Forall₂ (fun piece key => key.IsSpelledBy (trim piece)) ps keys) :
    ∀ piece ∈ ps, ∃ key : SortKey, key.IsSpelledBy (trim piece) := by
  induction spelled with
  | nil => exact nofun
  | cons first _ ih => exact List.forall_mem_cons.mpr ⟨⟨_, first⟩, ih⟩

/-- Pieces that spell a key each are read as one key each. -/
theorem exists_readAll {ps : List (List Char)}
    (each : ∀ piece ∈ ps, ∃ key : SortKey, key.IsSpelledBy (trim piece)) : ∃ keys, readAll ps = .ok keys := by
  simp only [readAll_eq_ok]
  induction ps with
  | nil => exact ⟨[], .nil⟩
  | cons piece others ih =>
    obtain ⟨⟨key, spelled⟩, further⟩ := List.forall_mem_cons.mp each
    obtain ⟨keys, all⟩ := ih further
    exact ⟨key :: keys, .cons spelled all⟩

end SortKey

namespace SortFault

/-- A blank text has one fault of its own. It spells no key, since a name begins with no white space. -/
theorem all_eq_nil_iff (text : String) : all text = [] ↔
    ∀ piece ∈ pieces ',' text.toList, ∃ key : SortKey, key.IsSpelledBy (trim piece) := by
  unfold all
  by_cases blank : isBlankText text = true
  · rw [if_pos blank]
    refine ⟨nofun, fun each => ?_⟩
    have member : (firstPiece ',' text.toList).1 ∈ pieces ',' text.toList := List.mem_cons_self ..
    obtain ⟨key, sign, -, named, split⟩ := each _ member
    obtain ⟨first, rest, chars, begins⟩ := named.begins
    have within : first ∈ trim (firstPiece ',' text.toList).1 := by simp [split, chars]
    have inText := ((trim_within _).trans (infix_of_mem_pieces member)).subset within
    have solid := named.not_blank first (chars ▸ List.mem_cons_self ..)
    rw [List.all_eq_true.mp blank first inText] at solid
    cases solid
  · rw [if_neg blank]
    exact (told_inPieces 0 _).eq_nil_iff

/-- No text has the fault of a piece without other faults that cannot be read. -/
theorem not_unreadable_mem_all (text segment : String) : unreadable segment ∉ all text := by
  unfold all
  split
  · simp
  · exact (told_inPieces 0 _).not_unreadable segment

end SortFault

namespace Sorting

/-- A text that breaks no rule is read piece by piece. -/
theorem read_of_faultless {text : String} (faultless : SortFault.all text = []) :
    Sorting.read text = (SortKey.readAll (pieces ',' text.toList)).map ofKeys := by
  rw [Sorting.read, faultless]

/-- A text that breaks rules is refused with all of them. -/
theorem read_of_faults {text : String} (faults : SortFault.all text ≠ []) :
    Sorting.read text = .error (.invalidSort (SortFault.all text)) := by
  unfold Sorting.read
  split
  · rename_i none
    exact absurd none faults
  · rfl

/-- A text is read exactly if every piece of it spells a key. -/
theorem read_eq_ok {text : String} {sorting : Sorting} : Sorting.read text = .ok sorting ↔
    ∃ keys, List.Forall₂ (fun piece key => SortKey.IsSpelledBy key (trim piece)) (pieces ',' text.toList) keys ∧
      sorting = ofKeys keys := by
  by_cases faultless : SortFault.all text = []
  · rw [read_of_faultless faultless, map_eq_ok]
    exact exists_congr fun keys => and_congr SortKey.readAll_eq_ok eq_comm
  · rw [read_of_faults faultless]
    refine ⟨nofun, fun ⟨keys, spelled, _⟩ => absurd ?_ faultless⟩
    exact (SortFault.all_eq_nil_iff text).mpr (SortKey.exists_of_spelled spelled)

theorem ofKeys_cases {ps : List (List Char)} {keys : List SortKey}
    (spelled : List.Forall₂ (fun piece key => SortKey.IsSpelledBy key (trim piece)) ps keys) :
    (∃ key, ofKeys keys = .single key) ↔ ps.length = 1 := by
  rw [spelled.length_eq]
  match keys with
  | [] => exact ⟨nofun, nofun⟩
  | [key] => exact ⟨fun _ => rfl, fun _ => ⟨key, rfl⟩⟩
  | _ :: _ :: _ => exact ⟨nofun, nofun⟩

/-- The rules find no fault with a text just when it is read, and just when every piece of it spells a key.
The ordering is then by those keys, and it is a single one if the text is one piece. Otherwise the faults are
the answer, one for every piece that spells no key; that a segment cannot be read is never among them. -/
theorem read_agrees (text : String) :
    (SortFault.all text = [] ↔ ∃ sorting, Sorting.read text = .ok sorting) ∧
    (SortFault.all text = [] ↔
      ∀ piece ∈ pieces ',' text.toList, ∃ key : SortKey, key.IsSpelledBy (trim piece)) ∧
    (∀ sorting, Sorting.read text = .ok sorting →
      List.Forall₂ (fun piece key => SortKey.IsSpelledBy key (trim piece)) (pieces ',' text.toList)
        sorting.keys ∧
      ((∃ key, sorting = .single key) ↔ (pieces ',' text.toList).length = 1)) ∧
    (SortFault.all text ≠ [] → Sorting.read text = .error (.invalidSort (SortFault.all text)) ∧
      ∀ segment, SortFault.unreadable segment ∉ SortFault.all text) ∧
    (isBlankText text = false → SortFault.Told 0 (pieces ',' text.toList) (SortFault.all text)) := by
  refine ⟨⟨fun faultless => ?_, fun ⟨sorting, read⟩ => ?_⟩, SortFault.all_eq_nil_iff text, ?_, ?_, ?_⟩
  · obtain ⟨keys, all⟩ := SortKey.exists_readAll ((SortFault.all_eq_nil_iff text).mp faultless)
    exact ⟨ofKeys keys, by rw [read_of_faultless faultless, all]; rfl⟩
  · by_contra faults
    rw [read_of_faults faults] at read
    cases read
  · intro sorting read
    obtain ⟨keys, spelled, rfl⟩ := read_eq_ok.mp read
    rw [keys_ofKeys]
    exact ⟨spelled, ofKeys_cases spelled⟩
  · exact fun faults => ⟨read_of_faults faults, SortFault.not_unreadable_mem_all text⟩
  · intro filled
    rw [SortFault.all, filled]
    exact SortFault.told_inPieces 0 _

/-- White space around pieces is no matter, also if it is a newline; signs before a name are. -/
theorem read_agrees_newline :
    (Sorting.read "-b.c,\na" = .ok (.several [⟨⟨["b", "c"]⟩, .descending⟩, ⟨⟨["a"]⟩, .ascending⟩]) ∧
      List.Forall₂ (fun piece key => SortKey.IsSpelledBy key (trim piece)) [['-', 'b', '.', 'c'], ['\n', 'a']]
        [⟨⟨["b", "c"]⟩, .descending⟩, ⟨⟨["a"]⟩, .ascending⟩]) ∧
    SortFault.all "--a,,b c" ≠ [] ∧ isBlankText "--a,,b c" = false ∧
    Sorting.read "--a,,b c" =
      .error (.invalidSort [.repeatedSign "--a", .emptySegment 2, .missingComma "b c"]) ∧
    SortFault.Told 0 [['-', '-', 'a'], [], ['b', ' ', 'c']]
      [.repeatedSign "--a", .emptySegment 2, .missingComma "b c"] := by
  have read : Sorting.read "-b.c,\na" =
      .ok (.several [⟨⟨["b", "c"]⟩, .descending⟩, ⟨⟨["a"]⟩, .ascending⟩]) := by decide
  have faults : SortFault.all "--a,,b c" = [.repeatedSign "--a", .emptySegment 2, .missingComma "b c"] := by
    decide
  have filled : isBlankText "--a,,b c" = false := by decide
  have broken : SortFault.all "--a,,b c" ≠ [] := faults ▸ List.cons_ne_nil _ _
  obtain ⟨-, -, spelled, -, -⟩ := read_agrees "-b.c,\na"
  obtain ⟨-, -, -, refused, told⟩ := read_agrees "--a,,b c"
  refine ⟨⟨read, (spelled _ read).1⟩, broken, filled, faults ▸ (refused broken).1, faults ▸ told filled⟩

end Sorting

end Sift

import Mathlib.Data.List.Nodup
import Sift.Proofs.Grammar.ClassMembers

namespace Sift

theorem eraseDups_append_left {α : Type} [BEq α] [LawfulBEq α] {xs : List α} (distinct : xs.Nodup)
    (ys : List α) : (xs ++ ys).eraseDups = xs ++ (ys.removeAll xs).eraseDups := by
  rw [List.eraseDups_append, eraseDups_of_nodup distinct]

theorem addNew_ne_nil (seen : List Char) {members : List Char} {c : Char} (member : c ∈ members) :
    addNew seen members ≠ [] := by
  intro empty
  obtain ⟨rfl, none⟩ := List.append_eq_nil_iff.mp empty
  simpa using List.filter_eq_nil_iff.mp none c member

/-- Characters are added as if duplicates were erased afterwards. -/
theorem addNew_eq {seen members : List Char} (seenOnce : seen.Nodup) (once : members.Nodup) :
    addNew seen members = (seen ++ members).eraseDups := by
  have added : members.removeAll seen = members.filter (· ∉ seen) := by simp [List.removeAll]
  rw [eraseDups_append_left seenOnce, added, eraseDups_of_nodup (once.filter _), addNew]

theorem nodup_addNew {seen members : List Char} (seenOnce : seen.Nodup) (once : members.Nodup) :
    (addNew seen members).Nodup := by
  refine seenOnce.append (once.filter _) fun c old new => ?_
  simp [old] at new

/-- It does not matter for what comes later whether duplicates were erased before. -/
theorem eraseDups_addNew_append {seen members : List Char} (seenOnce : seen.Nodup)
    (once : members.Nodup) (later : List Char) :
    (addNew seen members ++ later).eraseDups = (seen ++ (members ++ later)).eraseDups := by
  have absent : later.removeAll (addNew seen members) = later.removeAll (seen ++ members) := by
    simp only [List.removeAll, List.elem_eq_contains, addNew_eq seenOnce once]
    congr 1
    funext c
    simp [List.contains_eq_mem, List.mem_eraseDups]
  rw [eraseDups_append_left (nodup_addNew seenOnce once), absent, addNew_eq seenOnce once,
    ← List.append_assoc, ← List.eraseDups_append]

/-- The end of a range is a member behind a dash. -/
theorem rangeEnd?_sound {ts : List Token} {last : Char} {left : List Token}
    (range : rangeEnd? ts = some (last, left)) :
    ∃ dash stop, ts = dash :: stop :: left ∧ dash.kind = .dash ∧ stop.kind.isMember = true ∧
      last = stop.char := by
  unfold rangeEnd? at range
  split at range
  · split at range
    · rename_i dash stop others both
      cases range
      exact ⟨dash, stop, rfl, both.1, both.2, rfl⟩
    · cases range
  · cases range

/-- A class that has been read is divided into parts, and the characters of these were added to those it had. -/
theorem classMembers_sound {seen : List Char} (distinct : seen.Nodup) {ts : List Token}
    {members : List Char} {rest : List Token} (read : classMembers seen ts = .ok (members, rest)) :
    ∃ front closing parts, ts = front ++ closing :: rest ∧ closing.kind = .rightBracket ∧
      ClassDivides front parts ∧ (∀ part ∈ parts, part.Ascends) ∧
      members = (seen ++ parts.flatMap ClassPart.chars).eraseDups ∧ members ≠ [] := by
  fun_induction classMembers seen ts with
  | case1 | case2 | case4 | case7 => cases read
  | case3 seen t ts closes nonempty =>
    cases read
    exact ⟨[], t, [], rfl, closes, .done, by simp, by simp [eraseDups_of_nodup distinct],
      by simpa using nonempty⟩
  | case5 seen t ts _ member last left range ascending ih =>
    obtain ⟨dash, stop, rfl, isDash, stopMember, rfl⟩ := rangeEnd?_sound range
    have once := (ClassPart.range t.char stop.char).nodup_chars
    obtain ⟨front, closing, parts, rfl, closes, divides, others, named, filled⟩ :=
      ih (nodup_addNew distinct once) read
    refine ⟨t :: dash :: stop :: front, closing, _, rfl, closes,
      .range member isDash stopMember divides, List.forall_mem_cons.mpr ⟨Char.not_lt.mp ascending, others⟩, ?_, filled⟩
    rw [List.flatMap_cons, ← eraseDups_addNew_append distinct once]
    exact named
  | case6 seen t ts _ member alone ih =>
    have once := (ClassPart.single t.char).nodup_chars
    obtain ⟨front, closing, parts, rfl, closes, divides, others, named, filled⟩ :=
      ih (nodup_addNew distinct once) read
    refine ⟨t :: front, closing, _, rfl, closes, .single member ?_ divides,
      List.forall_mem_cons.mpr ⟨trivial, others⟩, ?_, filled⟩
    · rintro dash last others rfl both
      simp [rangeEnd?, both] at alone
    · rw [List.flatMap_cons, ← eraseDups_addNew_append distinct once]
      exact named

/-- A member before a dash and another member adds the range between the two. -/
theorem classMembers_range {seen : List Char} {first dash last : Token} (ts : List Token)
    (member : first.kind.isMember = true) (isDash : dash.kind = .dash)
    (lastMember : last.kind.isMember = true) (ascending : first.char ≤ last.char) :
    classMembers seen (first :: dash :: last :: ts) =
      classMembers (addNew seen (charRange first.char last.char)) ts := by
  have range : rangeEnd? (dash :: last :: ts) = some (last.char, ts) := if_pos ⟨isDash, lastMember⟩
  rw [classMembers, if_neg (Kind.ne_rightBracket_of_isMember member), if_pos member]
  split
  · rename_i found
    cases range.symm.trans found
    rw [if_neg (Char.not_lt.mpr ascending)]
  · rename_i none
    cases range.symm.trans none

/-- Any other member adds itself. -/
theorem classMembers_single {seen : List Char} {t : Token} {ts : List Token}
    (member : t.kind.isMember = true) (alone : rangeEnd? ts = none) :
    classMembers seen (t :: ts) = classMembers (addNew seen [t.char]) ts := by
  rw [classMembers, if_neg (Kind.ne_rightBracket_of_isMember member), if_pos member]
  split
  · rename_i found
    cases alone.symm.trans found
  · rfl

/-- The bracket that closes a class ends no range. -/
theorem rangeEnd?_append {ts : List Token} {closing : Token} (closes : closing.kind = .rightBracket)
    (alone : ∀ dash last others, ts = dash :: last :: others → dash.kind ≠ .dash)
    (rest : List Token) : rangeEnd? (ts ++ closing :: rest) = none := by
  match ts with
  | [] =>
    cases rest with
    | nil => rfl
    | cons => simp [rangeEnd?, closes]
  | [dash] => simp [rangeEnd?, closes, Kind.isMember, Kind.isLiteral]
  | dash :: last :: others => simp [rangeEnd?, alone dash last others rfl]

/-- The parts of a class are read one after the other, and their characters added to those before. -/
theorem classMembers_complete {front : List Token} {parts : List ClassPart} (divides : ClassDivides front parts)
    (ascending : ∀ part ∈ parts, part.Ascends) {closing : Token} (closes : closing.kind = .rightBracket)
    (rest : List Token) {seen : List Char} (distinct : seen.Nodup)
    (nonempty : seen ++ parts.flatMap ClassPart.chars ≠ []) :
    classMembers seen (front ++ closing :: rest) =
      .ok ((seen ++ parts.flatMap ClassPart.chars).eraseDups, rest) := by
  have grown {part : ClassPart} {parts : List ClassPart} {seen : List Char} (ascends : part.Ascends) :
      addNew seen part.chars ++ parts.flatMap ClassPart.chars ≠ [] := by
    obtain ⟨c, named⟩ := ascends.mem_chars
    exact List.append_ne_nil_of_left_ne_nil (addNew_ne_nil seen named) _
  induction divides generalizing seen with
  | done =>
    rw [List.flatMap_nil, List.append_nil] at nonempty ⊢
    rw [List.nil_append, classMembers, if_pos closes, if_neg (by simpa using nonempty),
      eraseDups_of_nodup distinct]
  | @range first dash last ts parts member isDash lastMember _ ih =>
    obtain ⟨ascends, others⟩ := List.forall_mem_cons.mp ascending
    have once := (ClassPart.range first.char last.char).nodup_chars
    simp only [List.cons_append, List.flatMap_cons]
    rw [classMembers_range _ member isDash lastMember ascends, ← eraseDups_addNew_append distinct once]
    exact ih others (nodup_addNew distinct once) (grown ascends)
  | @single t ts parts member alone divides ih =>
    obtain ⟨ascends, others⟩ := List.forall_mem_cons.mp ascending
    have once := (ClassPart.single t.char).nodup_chars
    simp only [List.cons_append, List.flatMap_cons]
    rw [classMembers_single member (rangeEnd?_append closes (divides.not_dash alone) rest),
      ← eraseDups_addNew_append distinct once]
    exact ih others (nodup_addNew distinct once) (grown ascends)

/-- What is read as a class was in brackets and reads as it. -/
theorem bracketClass_sound {ts : List Token} {members : List Char} {rest : List Token}
    (read : bracketClass ts = .ok (members, rest)) :
    ∃ front closing parts, ts = front ++ closing :: rest ∧ closing.kind = .rightBracket ∧
      ClassReads front parts members := by
  obtain ⟨front, closing, parts, split, closes, divides, ascending, rfl, filled⟩ :=
    classMembers_sound List.nodup_nil read
  exact ⟨front, closing, parts, split, closes, .of_divides divides ascending filled⟩

/-- A class is read up to the bracket that closes it. -/
theorem bracketClass_complete {front : List Token} {parts : List ClassPart} {members : List Char}
    (reads : ClassReads front parts members) {closing : Token} (closes : closing.kind = .rightBracket)
    (rest : List Token) : bracketClass (front ++ closing :: rest) = .ok (members, rest) := by
  have filled : parts.flatMap ClassPart.chars ≠ [] := by
    obtain ⟨c, member⟩ := List.exists_mem_of_ne_nil _ reads.nonempty
    exact List.ne_nil_of_mem (ClassPart.mem_flatMap_chars.mpr ((reads.named c).mp member))
  rw [reads.eq_eraseDups]
  exact classMembers_complete reads.divides reads.ascending closes rest List.nodup_nil filled

theorem bracketClass_eq_ok {ts : List Token} {members : List Char} {rest : List Token} :
    bracketClass ts = .ok (members, rest) ↔ ∃ front closing parts, ts = front ++ closing :: rest ∧
      closing.kind = .rightBracket ∧ ClassReads front parts members := by
  refine ⟨bracketClass_sound, ?_⟩
  rintro ⟨front, closing, parts, rfl, closes, reads⟩
  exact bracketClass_complete reads closes rest

/-- A range that descends is told of where it begins. -/
theorem classMembers_descending {seen : List Char} {first dash last : Token} (ts : List Token)
    (member : first.kind.isMember = true) (isDash : dash.kind = .dash)
    (lastMember : last.kind.isMember = true) (descends : last.char < first.char) :
    classMembers seen (first :: dash :: last :: ts) =
      .error (.final .ascendingRange (.range first.char last.char) (first :: dash :: last :: ts)) := by
  have range : rangeEnd? (dash :: last :: ts) = some (last.char, ts) := if_pos ⟨isDash, lastMember⟩
  rw [classMembers, if_neg (Kind.ne_rightBracket_of_isMember member), if_pos member]
  split
  · rename_i found
    cases range.symm.trans found
    rw [if_pos descends]
  · rename_i none
    cases range.symm.trans none

/-- The first range that descends is told of, wherever it stands. -/
theorem ClassDivides.refused {front : List Token} {parts : List ClassPart} (divides : ClassDivides front parts)
    {first last : Char} (range : .range first last ∈ parts) (descends : last < first) {closing : Token}
    (closes : closing.kind = .rightBracket) (rest : List Token) (seen : List Char) :
    ∃ failure, classMembers seen (front ++ closing :: rest) = .error failure ∧ failure.isFinal = true := by
  induction divides generalizing seen with
  | done => cases range
  | @range begins dash ends ts parts member isDash lastMember _ ih =>
    simp only [List.cons_append]
    by_cases here : ends.char < begins.char
    · exact ⟨_, classMembers_descending _ member isDash lastMember here, rfl⟩
    · rw [classMembers_range _ member isDash lastMember (Char.not_lt.mp here)]
      refine ih (Or.resolve_left (List.mem_cons.mp range) ?_) _
      rintro ⟨⟩
      exact here descends
  | @single t ts parts member alone divides ih =>
    rw [List.cons_append, classMembers_single member (rangeEnd?_append closes (divides.not_dash alone) rest)]
    exact ih ((List.mem_cons.mp range).resolve_left nofun) _

/-- Classes read exactly their characters. What is not made of members up to the first closing bracket is refused,
and so are a class with nothing in it, one that is not closed, and one with a range that descends. -/
theorem bracketClass_exact (ts : List Token) :
    (∀ members rest, bracketClass ts = .ok (members, rest) ↔ ∃ front closing parts,
      ts = front ++ closing :: rest ∧ closing.kind = .rightBracket ∧ ClassReads front parts members) ∧
    (∀ closing rest, ts = closing :: rest → closing.kind = .rightBracket →
      bracketClass ts = .missing .classMember ts) ∧
    ((∀ t ∈ ts, t.kind ≠ .rightBracket) → ∃ failure, bracketClass ts = .error failure) ∧
    (∀ front closing rest parts first last, ts = front ++ closing :: rest → closing.kind = .rightBracket →
      ClassDivides front parts → .range first last ∈ parts → last < first →
      ∃ failure, bracketClass ts = .error failure ∧ failure.isFinal = true) := by
  refine ⟨fun members rest => bracketClass_eq_ok, ?_, fun unclosed => ?_, ?_⟩
  · rintro closing rest rfl closes
    rw [bracketClass, classMembers, if_pos closes]
    rfl
  · cases read : bracketClass ts with
    | error failure => exact ⟨failure, rfl⟩
    | ok result =>
      obtain ⟨front, closing, parts, rfl, closes, -⟩ := bracketClass_eq_ok.mp read
      exact absurd closes (unclosed closing (by simp))
  · rintro front closing rest parts first last rfl closes divides range descends
    exact divides.refused range descends closes rest []

/-- A dash may end a range, and stands alone at the end of a class. -/
example : bracketClass (Token.scan "+--z-]") = .ok (['+', ',', '-', 'z'], []) := by
  with_unfolding_all rfl

end Sift

import Mathlib.Data.List.Induction
import Sift.Proofs.Grammar.Derivation

namespace Sift

theorem eraseDups_of_nodup {α : Type} [BEq α] [LawfulBEq α] {xs : List α} (distinct : xs.Nodup) :
    xs.eraseDups = xs := by
  induction xs with
  | nil => rfl
  | cons x xs ih =>
    obtain ⟨fresh, distinct⟩ := List.nodup_cons.mp distinct
    have kept : xs.filter (fun y => !y == x) = xs :=
      List.filter_eq_self.mpr fun y member => by
        simpa using fun same : y = x => fresh (same ▸ member)
    rw [List.eraseDups_cons, kept, ih distinct]

theorem toNat_of_valid {n : Nat} {c : Char}
    (found : (if valid : n.isValidChar then some (Char.ofNatAux n valid) else none) = some c) :
    c.toNat = n := by
  obtain ⟨valid, same⟩ := Option.dite_none_right_eq_some.mp found
  cases same
  rfl

/-- A range has the characters from its first to its last one. -/
theorem mem_charRange {first last c : Char} : c ∈ charRange first last ↔ first ≤ c ∧ c ≤ last := by
  have order : ∀ a b : Char, a ≤ b ↔ a.toNat ≤ b.toNat := fun _ _ => UInt32.le_iff_toNat_le
  rw [order, order]
  constructor
  · intro member
    obtain ⟨n, inside, found⟩ := List.mem_filterMap.mp member
    have same := toNat_of_valid found
    have bounds := List.mem_range'_1.mp inside
    omega
  · intro bounds
    have inside : c.toNat ∈ List.range' first.toNat (last.toNat + 1 - first.toNat) :=
      List.mem_range'_1.mpr (by omega)
    exact List.mem_filterMap.mpr ⟨c.toNat, inside, dif_pos c.valid⟩

namespace ClassPart

/-- The characters that a part names, in ascending order. -/
def chars : ClassPart → List Char
  | single c => [c]
  | range first last => charRange first last

theorem mem_chars {part : ClassPart} {c : Char} : c ∈ part.chars ↔ part.Names c := by
  cases part with
  | single d => exact List.mem_singleton
  | range first last => exact mem_charRange

/-- The characters of a part ascend. -/
theorem pairwise_chars (part : ClassPart) : part.chars.Pairwise (· < ·) := by
  cases part with
  | single c => exact List.pairwise_singleton _ _
  | range first last =>
    refine (List.pairwise_lt_range' 1).filterMap _ fun m n before c atM d atN => ?_
    rw [← toNat_of_valid atM, ← toNat_of_valid atN] at before
    exact UInt32.lt_iff_toNat_lt.mpr before

theorem nodup_chars (part : ClassPart) : part.chars.Nodup :=
  part.pairwise_chars.imp Char.ne_of_lt

theorem mem_flatMap_chars {parts : List ClassPart} {c : Char} :
    c ∈ parts.flatMap chars ↔ ∃ part ∈ parts, part.Names c := by
  simp only [List.mem_flatMap, mem_chars]

/-- A part that ascends names a character. -/
theorem Ascends.mem_chars {part : ClassPart} (ascends : part.Ascends) : ∃ c, c ∈ part.chars := by
  cases part with
  | single c => exact ⟨c, List.mem_singleton_self c⟩
  | range first last => exact ⟨first, mem_charRange.mpr ⟨Char.le_refl first, ascends⟩⟩

namespace NamedBefore

variable {parts : List ClassPart} {c d : Char}

/-- Of two characters only one is named before the other. -/
theorem asymm (named : NamedBefore parts c d) : ¬NamedBefore parts d c := by
  induction parts with
  | nil => exact named.elim
  | cons part parts ih =>
    rcases named with ⟨names, behind⟩ | ⟨unnamed, unnamed', later⟩
    · rintro (⟨names', behind'⟩ | ⟨-, unnamed, -⟩)
      · exact Char.lt_asymm (behind names') (behind' names)
      · exact unnamed names
    · rintro (⟨names', -⟩ | ⟨-, -, later'⟩)
      · exact unnamed' names'
      · exact ih later later'

theorem ne (named : NamedBefore parts c d) : c ≠ d := by
  rintro rfl
  exact named.asymm named

theorem append (named : NamedBefore parts c d) (more : List ClassPart) : NamedBefore (parts ++ more) c d := by
  induction parts with
  | nil => exact named.elim
  | cons part parts ih => exact named.imp_right fun ⟨first, second, later⟩ => ⟨first, second, ih later⟩

/-- A character is named before those that come with further parts. -/
theorem of_named (named : ∃ part ∈ parts, part.Names c) (unnamed : ¬∃ part ∈ parts, part.Names d)
    (more : List ClassPart) : NamedBefore (parts ++ more) c d := by
  induction parts with
  | nil =>
    obtain ⟨_, member, _⟩ := named
    exact absurd member List.not_mem_nil
  | cons part parts ih =>
    simp only [List.mem_cons, exists_eq_or_imp, not_or] at named unnamed
    by_cases here : part.Names c
    · exact .inl ⟨here, fun names => absurd names unnamed.1⟩
    · exact .inr ⟨here, unnamed.1, ih (named.resolve_left here) unnamed.2⟩

/-- A part that is the first to name two characters names the lesser one before the other. -/
theorem of_unnamed {part : ClassPart} (unnamed : ¬∃ part ∈ parts, part.Names c)
    (unnamed' : ¬∃ part ∈ parts, part.Names d) (names : part.Names c) (before : c < d) :
    NamedBefore (parts ++ [part]) c d := by
  induction parts with
  | nil => exact .inl ⟨names, fun _ => before⟩
  | cons first parts ih =>
    simp only [List.mem_cons, exists_eq_or_imp, not_or] at unnamed unnamed'
    exact .inr ⟨unnamed.1, unnamed'.1, ih unnamed.2 unnamed'.2⟩

end NamedBefore

/-- Once duplicates are erased, characters stand in the order in which they are named first. -/
theorem pairwise_eraseDups (parts : List ClassPart) :
    (parts.flatMap chars).eraseDups.Pairwise (NamedBefore parts) := by
  induction parts using List.reverseRecOn with
  | nil => exact .nil
  | append_singleton parts part ih =>
    have added : (part.chars.removeAll (parts.flatMap chars)).eraseDups =
        part.chars.filter fun c => !(parts.flatMap chars).elem c :=
      eraseDups_of_nodup (part.nodup_chars.filter _)
    have isNew : ∀ c ∈ part.chars.filter fun c => !(parts.flatMap chars).elem c,
        ¬∃ part ∈ parts, part.Names c := by
      intro c member
      rw [← mem_flatMap_chars]
      simpa using (List.mem_filter.mp member).2
    rw [List.flatMap_append, List.flatMap_singleton, List.eraseDups_append, added, List.pairwise_append]
    refine ⟨ih.imp (·.append [part]), ?_, fun c old d new => ?_⟩
    · refine (part.pairwise_chars.filter _).imp_of_mem fun {c d} first second before => ?_
      exact .of_unnamed (isNew c first) (isNew d second) (mem_chars.mp (List.mem_filter.mp first).1) before
    · exact .of_named (mem_flatMap_chars.mp (List.mem_eraseDups.mp old)) (isNew d new) [part]

/-- The order in which characters are named first tells all of the list of them. -/
theorem eq_eraseDups {parts : List ClassPart} {members : List Char}
    (named : ∀ c, c ∈ members ↔ ∃ part ∈ parts, part.Names c) (order : members.Pairwise (NamedBefore parts)) :
    members = (parts.flatMap chars).eraseDups := by
  have order' := pairwise_eraseDups parts
  have same : members.Perm (parts.flatMap chars).eraseDups := by
    rw [List.perm_ext_iff_of_nodup (order.imp NamedBefore.ne) (order'.imp NamedBefore.ne)]
    intro c
    rw [named, List.mem_eraseDups, mem_flatMap_chars]
  exact same.eq_of_pairwise (fun c d _ _ before after => absurd after before.asymm) order order'

end ClassPart

theorem Kind.ne_rightBracket_of_isMember {kind : Kind} (member : kind.isMember = true) :
    kind ≠ .rightBracket := by
  rintro rfl
  cases member

namespace ClassDivides

variable {ts : List Token} {parts : List ClassPart}

/-- A class is made of members, dashes included. -/
theorem isMember (divides : ClassDivides ts parts) : ∀ t ∈ ts, t.kind.isMember = true := by
  induction divides with
  | done => exact nofun
  | range first dash last _ ih =>
    simp only [List.forall_mem_cons]
    exact ⟨first, dash ▸ rfl, last, ih⟩
  | single member _ _ ih => exact List.forall_mem_cons.mpr ⟨member, ih⟩

/-- Right behind a member that stands alone there is no dash, unless it is the last token. -/
theorem not_dash (divides : ClassDivides ts parts)
    (alone : ∀ dash last others, ts = dash :: last :: others → ¬(dash.kind = .dash ∧ last.kind.isMember)) :
    ∀ dash last others, ts = dash :: last :: others → dash.kind ≠ .dash := by
  rintro dash last others rfl isDash
  exact alone dash last others rfl ⟨isDash, divides.isMember last (by simp)⟩

end ClassDivides

namespace ClassReads

variable {ts : List Token} {parts : List ClassPart} {members : List Char}

/-- Parts that ascend read as the characters that they name, with each put where it comes first. -/
theorem of_divides (divides : ClassDivides ts parts)
    (ascending : ∀ part ∈ parts, part.Ascends) (filled : (parts.flatMap ClassPart.chars).eraseDups ≠ []) :
    ClassReads ts parts (parts.flatMap ClassPart.chars).eraseDups where
  inside t inside := by
    have member := divides.isMember t inside
    have open_ := Kind.ne_rightBracket_of_isMember member
    simp only [Kind.isMember, Bool.and_eq_true, bne_iff_ne] at member
    exact ⟨member.1, member.2, open_⟩
  divides := divides
  ascending := ascending
  nonempty := filled
  distinct := (ClassPart.pairwise_eraseDups parts).imp ClassPart.NamedBefore.ne
  named c := by rw [List.mem_eraseDups, ClassPart.mem_flatMap_chars]
  order := ClassPart.pairwise_eraseDups parts

/-- The parts of a class leave no choice in what it reads as. -/
theorem eq_eraseDups (reads : ClassReads ts parts members) :
    members = (parts.flatMap ClassPart.chars).eraseDups :=
  ClassPart.eq_eraseDups reads.named reads.order

theorem isMember (reads : ClassReads ts parts members) : ∀ t ∈ ts, t.kind.isMember = true :=
  reads.divides.isMember

theorem ne_nil (reads : ClassReads ts parts members) : ts ≠ [] := by
  rintro rfl
  obtain ⟨c, member⟩ := List.exists_mem_of_ne_nil _ reads.nonempty
  obtain ⟨part, inParts, -⟩ := (reads.named c).mp member
  cases reads.divides
  cases inParts

end ClassReads

end Sift

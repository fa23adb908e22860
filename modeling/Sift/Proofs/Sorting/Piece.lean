import Sift.Proofs.Grammar.Printing
import Sift.Proofs.Target.Paths

namespace Sift

/-- The characters that are an identifier are those of a name. -/
theorem isIdentifier_iff {cs : List Char} : isIdentifier cs = true ↔ IsName (String.ofList cs) := by
  rw [IsName, String.toList_ofList]
  cases cs with
  | nil => exact ⟨nofun, nofun⟩
  | cons first others =>
    simp only [isIdentifier, beginsIdentifier, inIdentifier, Bool.and_eq_true, Bool.or_eq_true, beq_iff_eq,
      List.all_eq_true, List.cons.injEq]
    constructor
    · rintro ⟨begins, inside⟩
      exact ⟨first, others, ⟨rfl, rfl⟩, begins, fun c member => or_assoc.mp (inside c member)⟩
    · rintro ⟨_, _, ⟨rfl, rfl⟩, begins, inside⟩
      exact ⟨begins, fun c member => or_assoc.mpr (inside c member)⟩

/-- The characters of names are letters, digits and underscores. -/
theorem IsName.chars {name : String} (isName : IsName name) :
    ∀ c ∈ name.toList, isAlphabetic c = true ∨ c.isDigit = true ∨ c = '_' := by
  obtain ⟨first, others, split, begins, inside⟩ := isName
  rw [split]
  refine List.forall_mem_cons.mpr ⟨?_, inside⟩
  exact begins.imp_right .inr

theorem IsName.not_mem {name : String} (isName : IsName name) {c : Char} (noLetter : isAlphabetic c = false)
    (noDigit : c.isDigit = false) (other : c ≠ '_') : c ∉ name.toList := by
  intro member
  rcases isName.chars c member with letter | digit | same
  · exact Bool.false_ne_true (noLetter.symm.trans letter)
  · exact Bool.false_ne_true (noDigit.symm.trans digit)
  · exact other same

theorem IsName.not_blank {name : String} (isName : IsName name) : ∀ c ∈ name.toList, isBlank c = false := by
  intro c member
  rcases isName.chars c member with letter | digit | rfl
  · exact Kind.isBlank_of_isAlphanumeric (by simp [isAlphanumeric, letter])
  · exact Kind.isBlank_of_isAlphanumeric (by simp [isAlphanumeric, isNumeric, digit])
  · decide

theorem mem_joinWith {sep : List Char} {ps : List (List Char)} {c : Char} (member : c ∈ joinWith sep ps) :
    c ∈ sep ∨ ∃ piece ∈ ps, c ∈ piece := by
  induction ps with
  | nil => exact absurd member List.not_mem_nil
  | cons piece others ih =>
    by_cases last : others = []
    · subst last
      exact .inr ⟨piece, List.mem_cons_self .., member⟩
    · rw [joinWith_cons _ _ last, List.mem_append, List.mem_append] at member
      rcases member with (inPiece | inSep) | later
      · exact .inr ⟨piece, List.mem_cons_self .., inPiece⟩
      · exact .inl inSep
      · exact (ih later).imp_right fun ⟨other, within, inOther⟩ =>
          ⟨other, List.mem_cons_of_mem _ within, inOther⟩

namespace PropertyPath

/-- A path of one name or more. -/
structure IsNamed (path : PropertyPath) : Prop where
  nonempty : path.segments ≠ []
  names : ∀ name ∈ path.segments, IsName name

variable {path : PropertyPath}

theorem mem_dotted {c : Char} (member : c ∈ path.dotted.toList) :
    c = '.' ∨ ∃ name ∈ path.segments, c ∈ name.toList := by
  rw [toList_dotted] at member
  refine (mem_joinWith member).imp List.mem_singleton.mp ?_
  rintro ⟨piece, within, inPiece⟩
  obtain ⟨name, inPath, rfl⟩ := List.mem_map.mp within
  exact ⟨name, inPath, inPiece⟩

variable (named : path.IsNamed)

include named

/-- A path begins as a name does. -/
theorem IsNamed.begins : ∃ first rest, path.dotted.toList = first :: rest ∧
    (isAlphabetic first = true ∨ first = '_') := by
  obtain ⟨name, others, split⟩ := List.exists_cons_of_ne_nil named.nonempty
  obtain ⟨first, more, chars, begins, -⟩ := named.names name (split ▸ List.mem_cons_self ..)
  refine ⟨first, joinWith ['.'] (more :: others.map String.toList), ?_, begins⟩
  rw [toList_dotted, split, List.map_cons, chars, joinWith_cons_head]

theorem IsNamed.not_blank : ∀ c ∈ path.dotted.toList, isBlank c = false := by
  intro c member
  rcases mem_dotted member with rfl | ⟨name, inPath, inName⟩
  · decide
  · exact (named.names name inPath).not_blank c inName

/-- A path that is cut at its dots gives its names. -/
theorem IsNamed.pieces_dotted : pieces '.' path.dotted.toList = path.segments.map String.toList := by
  rw [toList_dotted]
  refine pieces_joinWith (mt List.map_eq_nil_iff.mp named.nonempty) fun piece within => ?_
  obtain ⟨name, inPath, rfl⟩ := List.mem_map.mp within
  exact (named.names name inPath).not_mem (by decide) rfl (by decide)

end PropertyPath

/-- A piece is a path if it is the names of one with dots between them. -/
theorem pathOf?_eq_some {cs : List Char} {path : PropertyPath} :
    pathOf? cs = some path ↔ path.IsNamed ∧ cs = path.dotted.toList := by
  constructor
  · intro found
    refine ⟨?_, (toList_dotted_of_pathOf? found).symm⟩
    simp only [pathOf?] at found
    split at found
    · rename_i identifiers
      obtain rfl := Option.some.inj found
      refine ⟨mt List.map_eq_nil_iff.mp (List.cons_ne_nil _ _), fun name member => ?_⟩
      obtain ⟨piece, within, rfl⟩ := List.mem_map.mp member
      exact isIdentifier_iff.mp (List.all_eq_true.mp identifiers piece within)
    · cases found
  · rintro ⟨named, rfl⟩
    have identifiers : (path.segments.map String.toList).all isIdentifier = true := by
      refine List.all_eq_true.mpr fun piece within => ?_
      obtain ⟨name, inPath, rfl⟩ := List.mem_map.mp within
      rw [isIdentifier_iff, String.ofList_toList]
      exact named.names name inPath
    have same : String.ofList ∘ String.toList = id := funext fun _ => String.ofList_toList
    simp only [pathOf?, named.pieces_dotted]
    rw [if_pos identifiers, List.map_map, same, List.map_id]

/-- What a direction is written as in front of a property. -/
inductive Direction.IsWritten : Direction → List Char → Prop
  | bare : IsWritten ascending []
  | plus : IsWritten ascending ['+']
  | minus : IsWritten descending ['-']

namespace SortKey

/-- That characters spell a key: its direction and its path. -/
def IsSpelledBy (key : SortKey) (cs : List Char) : Prop :=
  ∃ sign, key.direction.IsWritten sign ∧ key.property.IsNamed ∧ cs = sign ++ key.property.dotted.toList

/-- The sign of a piece is taken off, if it has one. -/
theorem takeDirection_split (cs : List Char) :
    ∃ sign, (takeDirection cs).1.IsWritten sign ∧ cs = sign ++ (takeDirection cs).2 := by
  fun_cases takeDirection cs with
  | case1 cs => exact ⟨['+'], .plus, rfl⟩
  | case2 cs => exact ⟨['-'], .minus, rfl⟩
  | case3 => exact ⟨[], .bare, rfl⟩

theorem takeDirection_append {direction : Direction} {sign : List Char} (written : direction.IsWritten sign)
    {c : Char} (plain : isSign c = false) (cs : List Char) :
    takeDirection (sign ++ c :: cs) = (direction, c :: cs) := by
  cases written with
  | bare =>
    rw [List.nil_append]
    unfold takeDirection
    split
    · rename_i plus
      rw [(List.cons.inj plus).1] at plain
      cases plain
    · rename_i minus
      rw [(List.cons.inj minus).1] at plain
      cases plain
    · rfl
  | plus => rfl
  | minus => rfl

end SortKey

/-- No name begins with a sign. -/
theorem isSign_eq_false {c : Char} (begins : isAlphabetic c = true ∨ c = '_') : isSign c = false := by
  rcases begins with letter | rfl
  · by_contra sign
    simp only [isSign, Bool.not_eq_false, Bool.or_eq_true, beq_iff_eq] at sign
    rcases sign with rfl | rfl
    · exact absurd letter (by decide)
    · exact absurd letter (by decide)
  · rfl

/-- A piece is read as the key that it spells. -/
theorem SortKey.read?_eq_some {cs : List Char} {key : SortKey} :
    read? cs = some key ↔ key.IsSpelledBy cs := by
  have opened : read? cs = (pathOf? (takeDirection cs).2).map fun path => ⟨path, (takeDirection cs).1⟩ := rfl
  rw [opened, Option.map_eq_some_iff]
  constructor
  · rintro ⟨path, found, rfl⟩
    obtain ⟨named, same⟩ := pathOf?_eq_some.mp found
    obtain ⟨sign, written, split⟩ := takeDirection_split cs
    rw [same] at split
    exact ⟨sign, written, named, split⟩
  · rintro ⟨sign, written, named, rfl⟩
    obtain ⟨first, rest, split, begins⟩ := named.begins
    have taken := takeDirection_append written (isSign_eq_false begins) rest
    rw [← split] at taken
    rw [taken]
    exact ⟨key.property, pathOf?_eq_some.mpr ⟨named, rfl⟩, rfl⟩

namespace SortFault

/-- A segment is faultless if its signs are none or one and what is after them is a path: no other rule can
be broken then. -/
theorem inSegment?_eq_none {segment : List Char} :
    inSegment? segment = none ↔
      (segment.takeWhile isSign).length ≤ 1 ∧ ∃ path, pathOf? (segment.dropWhile isSign) = some path := by
  have nonempty : ∀ {found : Option PropertyPath}, ¬found.isNone = true ↔ ∃ path, found = some path := by
    intro found
    rw [Option.isNone_iff_eq_none, ← ne_eq, Option.ne_none_iff_exists']
  simp only [inSegment?, ite_eq_iff, reduceCtorEq, and_false, false_or, and_true, Nat.not_lt, nonempty]
  constructor
  · rintro ⟨signs, -, -, -, found⟩
    exact ⟨signs, found⟩
  · rintro ⟨signs, path, found⟩
    obtain ⟨named, same⟩ := pathOf?_eq_some.mp found
    obtain ⟨first, rest, split, -⟩ := named.begins
    have solid := named.not_blank
    rw [← same] at solid split
    have inFront : isBlank first = false := by
      rw [split] at solid
      exact solid first (List.mem_cons_self ..)
    have notAlone : (segment.dropWhile isSign).all isBlank = false := by
      rw [split, List.all_cons, inFront, Bool.false_and]
    have noSpace : (segment.dropWhile isSign).head?.any isBlank = false := by
      rw [split, List.head?_cons, Option.any_some, inFront]
    have oneName : (segment.dropWhile isSign).any isBlank = false := by
      simpa using solid
    refine ⟨signs, ?_, ?_, ?_, path, found⟩
    · rw [notAlone]
      exact fun alone => nomatch alone.2
    · rw [noSpace]
      nofun
    · rw [oneName]
      nofun

theorem exists_isWritten {sign : List Char} (signed : ∀ c ∈ sign, isSign c = true) (one : sign.length ≤ 1) :
    ∃ direction : Direction, direction.IsWritten sign := by
  match sign with
  | [] => exact ⟨.ascending, .bare⟩
  | [c] =>
    have isSign := signed c (List.mem_cons_self ..)
    simp only [Sift.isSign, Bool.or_eq_true, beq_iff_eq] at isSign
    rcases isSign with rfl | rfl
    · exact ⟨.ascending, .plus⟩
    · exact ⟨.descending, .minus⟩

theorem takeWhile_isSign {direction : Direction} {sign : List Char} (written : direction.IsWritten sign)
    {c : Char} (plain : isSign c = false) (cs : List Char) :
    (sign ++ c :: cs).takeWhile isSign = sign ∧ (sign ++ c :: cs).dropWhile isSign = c :: cs := by
  have noMore : (c :: cs).takeWhile isSign = [] ∧ (c :: cs).dropWhile isSign = c :: cs := by
    simp [plain]
  cases written with
  | bare => exact noMore
  | plus => exact ⟨congrArg ('+' :: ·) noMore.1, noMore.2⟩
  | minus => exact ⟨congrArg ('-' :: ·) noMore.1, noMore.2⟩

/-- The rules find no fault with just those pieces that spell a key. -/
theorem inSegment?_eq_none_iff {segment : List Char} :
    inSegment? segment = none ↔ ∃ key : SortKey, key.IsSpelledBy segment := by
  rw [inSegment?_eq_none]
  constructor
  · rintro ⟨signs, path, found⟩
    obtain ⟨named, same⟩ := pathOf?_eq_some.mp found
    have split := List.takeWhile_append_dropWhile (p := isSign) (l := segment)
    have signed := List.all_eq_true.mp (List.all_takeWhile (p := isSign) (l := segment))
    obtain ⟨direction, written⟩ := exists_isWritten signed signs
    exact ⟨⟨path, direction⟩, _, written, named, by rw [← same, split]⟩
  · rintro ⟨⟨path, direction⟩, sign, written, named, rfl⟩
    obtain ⟨first, rest, chars, begins⟩ := named.begins
    obtain ⟨signs, name⟩ := takeWhile_isSign written (isSign_eq_false begins) rest
    rw [← chars] at signs name
    rw [signs, name]
    refine ⟨?_, path, pathOf?_eq_some.mpr ⟨named, rfl⟩⟩
    cases written <;> decide

end SortFault

end Sift

import Sift.Proofs.Filter.Tree
import Sift.Proofs.Grammar.Criteria
import Sift.Proofs.Token.Written

namespace Sift

theorem joinWith_cons (sep piece : List Char) {others : List (List Char)} (nonempty : others ≠ []) :
    joinWith sep (piece :: others) = piece ++ sep ++ joinWith sep others := by
  cases others with
  | nil => exact absurd rfl nonempty
  | cons next others => rfl

namespace PropertyPath

/-- That a path stands in a text. -/
def IsWrittenIn (path : PropertyPath) (text : List Char) : Prop :=
  path.dotted.toList <:+: text

theorem toList_dotted (path : PropertyPath) :
    path.dotted.toList = joinWith ['.'] (path.segments.map String.toList) :=
  String.toList_ofList

end PropertyPath

theorem NameSpells.written {ts : List Token} {name : String} (spelled : NameSpells ts name)
    (plain : ∀ t ∈ ts, t.IsPlain) : ts.flatMap Token.written = name.toList := by
  obtain @⟨first, ts, begins, inside⟩ := spelled
  have unescaped : ∀ t ∈ first :: ts, t.kind ≠ .escaped := by
    refine List.forall_mem_cons.mpr ⟨?_, fun t member => ?_⟩
    · intro escaped
      rw [escaped] at begins
      cases begins
    · intro escaped
      have inName := inside t member
      rw [escaped] at inName
      cases inName
  have each : ∀ t ∈ first :: ts, t.written = [t.char] := fun t member =>
    (plain t member).written (unescaped t member)
  rw [String.toList_ofList, List.flatMap_congr each]
  exact List.map_eq_flatMap.symm

/-- The tokens of a path are written as its names with dots between them. -/
theorem NamesSpell.written {ts : List Token} {names : List String} (spelled : NamesSpell ts names)
    (plain : ∀ t ∈ ts, t.IsPlain) :
    ts.flatMap Token.written = joinWith ['.'] (names.map String.toList) := by
  induction spelled with
  | last name => exact name.written plain
  | @next ts name dot us names spelled isDot further ih =>
    obtain ⟨plainName, plainDot, plainRest⟩ : (∀ t ∈ ts, t.IsPlain) ∧ dot.IsPlain ∧ ∀ t ∈ us, t.IsPlain := by
      simpa only [List.forall_mem_append, List.forall_mem_cons] using plain
    have nonempty : names.map String.toList ≠ [] := by
      cases further <;> exact List.cons_ne_nil _ _
    have unescaped : dot.kind ≠ .escaped := by
      rw [isDot]
      nofun
    have point : dot.written = ['.'] := by rw [plainDot.written unescaped, plainDot.dot isDot]
    rw [List.flatMap_append, List.flatMap_cons, spelled.written plainName, point, ih plainRest, List.map_cons,
      joinWith_cons _ _ nonempty, List.append_assoc]

theorem CriterionSpells.path_isWrittenIn {ts : List Token} {found : Criterion}
    (spelled : CriterionSpells ts found) (plain : ∀ t ∈ ts, t.IsPlain) :
    found.property.IsWrittenIn (ts.flatMap Token.written) := by
  obtain @⟨ts, names, equal, us, e, named, isEqual, derived⟩ := spelled
  have plainPath : ∀ t ∈ ts, t.IsPlain := fun t member => plain t (List.mem_append_left _ member)
  rw [PropertyPath.IsWrittenIn, PropertyPath.toList_dotted, ← named.written plainPath, List.flatMap_append]
  exact List.infix_append_left

/-- The paths of criteria are written in the text that they are spelled by. -/
theorem CriteriaSpell.path_isWrittenIn {ts : List Token} {found : List Criterion}
    (spelled : CriteriaSpell ts found) (plain : ∀ t ∈ ts, t.IsPlain) :
    ∀ criterion ∈ found, criterion.property.IsWrittenIn (ts.flatMap Token.written) := by
  induction spelled with
  | last first =>
    intro criterion member
    rw [List.mem_singleton.mp member]
    exact first.path_isWrittenIn plain
  | @next ts first ampersand us found spelled _ _ ih =>
    have plainFirst : ∀ t ∈ ts, t.IsPlain := fun t member => plain t (List.mem_append_left _ member)
    have plainRest : ∀ t ∈ us, t.IsPlain := fun t member =>
      plain t (List.mem_append_right _ (List.mem_cons_of_mem _ member))
    intro criterion member
    rw [List.flatMap_append, List.flatMap_cons]
    rcases List.mem_cons.mp member with rfl | later
    · exact (spelled.path_isWrittenIn plainFirst).trans List.infix_append_left
    · exact (ih plainRest criterion later).trans (List.infix_append_right.trans List.infix_append_right)

/-- The paths of criteria stand in the text that they are read from. -/
theorem Criterion.path_isWrittenIn {text : String} {found : List Criterion}
    (read : readList text = .ok found) : ∀ criterion ∈ found, criterion.property.IsWrittenIn text.toList := by
  obtain ⟨-, read⟩ := readText_eq_ok.mp read
  obtain ⟨front, whole, spelled⟩ := criteria_sound read
  rw [List.append_nil] at whole
  rw [← whole] at spelled
  have plain := Token.isPlain_of_mem_scanFrom .start false text.toList
  rw [← Token.scan_written text]
  exact spelled.path_isWrittenIn plain

/-- A blank text begins with white space, if with anything, and so with no property. -/
theorem Criterion.isBlankText_of_read {text : String} {found : List Criterion}
    (read : readList text = .ok found) : isBlankText text = false := by
  obtain ⟨-, read⟩ := readText_eq_ok.mp read
  obtain ⟨first, others, between, atFirst, -⟩ := criteria_eq_ok.mp read
  obtain ⟨front, whole, @⟨ts, names, equal, us, e, named, -, -⟩⟩ := criterion_sound atFirst
  obtain ⟨t, rest, scanned, begins⟩ : ∃ t rest, Token.scan text = t :: rest ∧ t.kind.beginsName := by
    cases named with
    | last name =>
      obtain ⟨begins, -⟩ := name
      exact ⟨_, _, whole, begins⟩
    | next name =>
      obtain ⟨begins, -⟩ := name
      exact ⟨_, _, whole, begins⟩
  refine Bool.eq_false_iff.mpr fun blank => ?_
  cases split : text.toList with
  | nil =>
    rw [Token.scan, split] at scanned
    cases scanned
  | cons c cs =>
    rw [isBlankText, split, List.all_cons, Bool.and_eq_true] at blank
    have plain : c ≠ '\\' := by
      rintro rfl
      exact absurd blank.1 (by decide)
    obtain ⟨u, -, kind, cut⟩ := Token.scanFrom_cons .start false plain
    rw [Token.scan, split, cut] at scanned
    rw [← (List.cons.inj scanned).1, kind, Kind.classify, Kind.ofChar_of_isBlank blank.1] at begins
    cases begins

theorem infix_joinWith {sep piece : List Char} {whole : List (List Char)} (member : piece ∈ whole) :
    piece <:+: joinWith sep whole := by
  induction whole with
  | nil => exact absurd member List.not_mem_nil
  | cons first others ih =>
    by_cases last : others = []
    · subst last
      rw [List.mem_singleton.mp member]
      exact List.infix_rfl
    · rw [joinWith_cons _ _ last, List.append_assoc]
      rcases List.mem_cons.mp member with rfl | later
      · exact List.infix_append_left
      · exact (ih later).trans (List.infix_append_right.trans List.infix_append_right)

/-- A piece is a stretch of what it was cut from. -/
theorem infix_of_mem_pieces {sep : Char} {cs piece : List Char} (member : piece ∈ pieces sep cs) :
    piece <:+: cs := by
  have within : piece <:+: joinWith [sep] (pieces sep cs) := infix_joinWith member
  rwa [joinWith_pieces] at within

theorem trim_front (cs : List Char) : trim cs <+: cs.dropWhile isBlank := by
  have backwards := List.dropWhile_suffix isBlank (l := (cs.dropWhile isBlank).reverse)
  have forwards := List.reverse_prefix.mpr backwards
  rwa [List.reverse_reverse] at forwards

theorem trim_within (cs : List Char) : trim cs <:+: cs := by
  have left : cs.dropWhile isBlank <:+ cs := List.dropWhile_suffix isBlank
  exact (trim_front cs).isInfix.trans left.isInfix

theorem toList_dotted_of_pathOf? {cs : List Char} {path : PropertyPath} (found : pathOf? cs = some path) :
    path.dotted.toList = cs := by
  simp only [pathOf?] at found
  split at found
  · obtain rfl := Option.some.inj found
    have same : String.toList ∘ String.ofList = id := funext fun _ => String.toList_ofList
    rw [PropertyPath.toList_dotted, List.map_map, same, List.map_id, joinWith_pieces]
  · cases found

namespace SortKey

theorem takeDirection_suffix (cs : List Char) : (takeDirection cs).2 <:+ cs := by
  unfold takeDirection
  split
  · exact List.suffix_cons _ _
  · exact List.suffix_cons _ _
  · exact List.suffix_rfl

theorem path_of_read? {segment : List Char} {key : SortKey} (read : read? segment = some key) :
    key.property.IsWrittenIn segment := by
  have split : (pathOf? (takeDirection segment).2).map (fun path => ⟨path, (takeDirection segment).1⟩) =
      some key := read
  obtain ⟨path, found, rfl⟩ := Option.map_eq_some_iff.mp split
  rw [PropertyPath.IsWrittenIn, toList_dotted_of_pathOf? found]
  exact (takeDirection_suffix segment).isInfix

/-- The paths of an ordering are written in its pieces. -/
theorem path_of_readAll {whole : List (List Char)} {keys : List SortKey} (read : readAll whole = .ok keys) :
    ∀ key ∈ keys, ∃ piece ∈ whole, key.property.IsWrittenIn piece := by
  induction whole generalizing keys with
  | nil =>
    cases read
    exact nofun
  | cons piece others ih =>
    rw [readAll] at read
    split at read
    · cases read
    · rename_i first atFirst
      obtain ⟨rest, atRest, rfl⟩ := map_eq_ok.mp read
      intro key member
      rcases List.mem_cons.mp member with rfl | later
      · exact ⟨piece, List.mem_cons_self .., (path_of_read? atFirst).trans (trim_within piece)⟩
      · obtain ⟨next, within, stands⟩ := ih atRest key later
        exact ⟨next, List.mem_cons_of_mem _ within, stands⟩

end SortKey

/-- The paths of an ordering stand in the text that it is read from. -/
theorem Sorting.path_isWrittenIn {text : String} {sorting : Sorting} (read : Sorting.read text = .ok sorting) :
    ∀ key ∈ sorting.keys, key.property.IsWrittenIn text.toList := by
  unfold Sorting.read at read
  split at read
  · obtain ⟨keys, all, rfl⟩ := map_eq_ok.mp read
    rw [keys_ofKeys]
    intro key member
    obtain ⟨piece, within, stands⟩ := SortKey.path_of_readAll all key member
    exact stands.trans (infix_of_mem_pieces within)
  · cases read

end Sift

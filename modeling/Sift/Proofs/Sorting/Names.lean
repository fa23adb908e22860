import Mathlib.Data.List.TakeWhile
import Sift.Proofs.Sorting.Agreement

namespace Sift

/-- What tokens spell as a name is one of characters. -/
theorem NameSpells.isName {ts : List Token} {name : String} (spelled : NameSpells ts name)
    (kinds : ∀ t ∈ ts, t.kind = .escaped ∨ t.kind = .ofChar t.char ∧ t.escapes = false) : IsName name := by
  obtain @⟨first, ts, begins, inside⟩ := spelled
  obtain ⟨kind, kinds⟩ := List.forall_mem_cons.mp kinds
  refine ⟨first.char, ts.map Token.char, String.toList_ofList, ?_, fun c member => ?_⟩
  · rcases kind with escaped | ⟨kind, -⟩
    · rw [escaped] at begins
      cases begins
    · exact Kind.beginsName_ofChar_iff.mp (kind ▸ begins)
  · obtain ⟨t, within, rfl⟩ := List.mem_map.mp member
    have inName := inside t within
    rcases kinds t within with escaped | ⟨kind, -⟩
    · rw [escaped] at inName
      cases inName
    · exact Kind.inName_ofChar_iff.mp (kind ▸ inName)

/-- What tokens spell as names is a path of characters. -/
theorem NamesSpell.isNamed {ts : List Token} {names : List String} (spelled : NamesSpell ts names)
    (kinds : ∀ t ∈ ts, t.kind = .escaped ∨ t.kind = .ofChar t.char ∧ t.escapes = false) :
    PropertyPath.IsNamed ⟨names⟩ := by
  induction spelled with
  | last name => exact ⟨List.cons_ne_nil _ _, List.forall_mem_singleton.mpr (name.isName kinds)⟩
  | next name isDot further ih =>
    obtain ⟨kindsName, kindsRest⟩ := List.forall_mem_append.mp kinds
    exact ⟨List.cons_ne_nil _ _, List.forall_mem_cons.mpr
      ⟨name.isName kindsName, (ih (List.forall_mem_cons.mp kindsRest).2).names⟩⟩

namespace PropertyPath

variable {text : String} {path : PropertyPath}

/-- A query reads just those paths that are made of names, from their written form and nothing else. -/
theorem read_eq_ok : read text = .ok path ↔ path.IsNamed ∧ text.toList = path.dotted.toList := by
  rw [read, readText_eq_ok]
  constructor
  · rintro ⟨-, read⟩
    obtain ⟨front, names, whole, spelled, rfl⟩ := propertyPath_sound read
    rw [List.append_nil] at whole
    rw [← whole] at spelled
    refine ⟨spelled.isNamed (Token.kind_of_mem_scanFrom .start false text.toList), ?_⟩
    rw [← Token.scan_written text, spelled.written (Token.isPlain_of_mem_scanFrom .start false text.toList),
      toList_dotted]
  · rintro ⟨named, same⟩
    have scans := scans_path named.nonempty named.names
    rw [← toList_dotted, ← same] at scans
    obtain ⟨spelled, clear⟩ := scans.scan
    have read := propertyPath_complete spelled (stops_nil _)
    rw [List.append_nil] at read
    exact ⟨clear, read⟩

theorem IsNamed.not_comma (named : path.IsNamed) : ',' ∉ path.dotted.toList := by
  intro member
  rcases mem_dotted member with dot | ⟨name, inPath, inName⟩
  · cases dot
  · exact (named.names name inPath).not_mem (by decide) rfl (by decide) inName

end PropertyPath

namespace Sorting

theorem mem_trim {c : Char} (solid : isBlank c = false) {cs : List Char} : c ∈ trim cs ↔ c ∈ cs := by
  have kept : ∀ ds : List Char, c ∈ ds.dropWhile isBlank ↔ c ∈ ds := by
    intro ds
    refine ⟨(List.dropWhile_sublist _).mem, fun member => ?_⟩
    rw [← List.takeWhile_append_dropWhile (p := isBlank) (l := ds), List.mem_append] at member
    refine member.resolve_left fun inFront => ?_
    rw [List.mem_takeWhile_imp inFront] at solid
    cases solid
  rw [trim, trimRight, List.mem_reverse, kept, List.mem_reverse, kept]

/-- No key is spelled with a comma in it. -/
theorem not_comma_of_isSpelledBy {key : SortKey} {cs : List Char} (spelled : key.IsSpelledBy cs) : ',' ∉ cs := by
  obtain ⟨path, direction⟩ := key
  obtain ⟨sign, written, named, rfl⟩ := spelled
  rw [List.mem_append, not_or]
  refine ⟨?_, named.not_comma⟩
  cases written <;> decide

/-- An ordering by one key is read from the characters that spell the key, with any white space around them. -/
theorem read_eq_single {text : String} {key : SortKey} :
    read text = .ok (.single key) ↔ key.IsSpelledBy (trim text.toList) := by
  rw [read_eq_ok]
  constructor
  · rintro ⟨keys, spelled, single⟩
    obtain ⟨piece, alone⟩ := List.length_eq_one_iff.mp ((ofKeys_cases spelled).mp ⟨key, single.symm⟩)
    have whole := joinWith_pieces ',' text.toList
    rw [alone] at spelled whole
    obtain ⟨only, _, spells, others, rfl⟩ := List.forall₂_cons_left_iff.mp spelled
    obtain rfl := List.forall₂_nil_left_iff.mp others
    obtain rfl : key = only := Sorting.single.inj single
    rw [← whole]
    exact spells
  · intro spells
    -- trimming takes no comma away, so that the text is a single piece
    have clear : ',' ∉ text.toList := mt (mem_trim (by decide)).mpr (not_comma_of_isSpelledBy spells)
    rw [pieces_of_not_mem clear]
    exact ⟨[key], .cons spells .nil, rfl⟩

end Sorting

/-- Queries and orderings have the same property paths. A text without white space around it and without a plus
is a path in a query just if it is the ascending ordering by that path, and a minus in front makes it the
descending one. -/
theorem PropertyPath.read_iff_sorting_read {text : String} (trimmed : trim text.toList = text.toList)
    (unsigned : text.toList.head? ≠ some '+') (path : PropertyPath) :
    (read text = .ok path ↔ Sorting.read text = .ok (.single ⟨path, .ascending⟩)) ∧
    (read text = .ok path → Sorting.read ("-" ++ text) = .ok (.single ⟨path, .descending⟩)) := by
  rw [read_eq_ok, Sorting.read_eq_single, Sorting.read_eq_single, trimmed]
  refine ⟨⟨?_, ?_⟩, ?_⟩
  · rintro ⟨named, same⟩
    exact ⟨[], .bare, named, same⟩
  · rintro ⟨sign, written, named, same⟩
    cases written with
    | bare => exact ⟨named, same⟩
    | plus => exact absurd (congrArg List.head? same) unsigned
  · rintro ⟨named, same⟩
    have written : ("-" ++ text).toList = '-' :: path.dotted.toList := by
      rw [String.toList_append, same]
      rfl
    have solid : ∀ c ∈ '-' :: path.dotted.toList, isBlank c = false :=
      List.forall_mem_cons.mpr ⟨rfl, named.not_blank⟩
    refine ⟨['-'], .minus, named, ?_⟩
    rw [written, trim_of_solid solid]
    rfl

/-- A path of two names, and the same path after a minus. -/
theorem PropertyPath.read_iff_sorting_read_address :
    trim "Address.City".toList = "Address.City".toList ∧ "Address.City".toList.head? ≠ some '+' ∧
    Sorting.read "Address.City" = .ok (.single ⟨⟨["Address", "City"]⟩, .ascending⟩) ∧
    Sorting.read "-Address.City" = .ok (.single ⟨⟨["Address", "City"]⟩, .descending⟩) := by
  have trimmed : trim "Address.City".toList = "Address.City".toList := by decide
  have unsigned : "Address.City".toList.head? ≠ some '+' := by decide
  have read : read "Address.City" = .ok ⟨["Address", "City"]⟩ := by decide +kernel
  obtain ⟨sameAscending, descending⟩ := read_iff_sorting_read trimmed unsigned ⟨["Address", "City"]⟩
  exact ⟨trimmed, unsigned, sameAscending.mp read, descending read⟩

end Sift

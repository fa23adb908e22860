import Sift.Grammar.Interval
import Sift.Proofs.Calendar.Exactness

namespace Sift

namespace CalendarForm

variable {form : CalendarForm} {text : String} {literal : form.Literal}

/-- What is told to be expected where a literal of a form does not exist. -/
def expected : CalendarForm → Expected
  | date => .validDate
  | time => .validTime
  | dateTime => .validDateTime

/-- One way to read a bound, as a word or as a literal of a form, and what it settles: a bound, a refusal, or
nothing, so that another way may be tried. -/
def trial (start : List Token) (text : String) : Option CalendarForm → Option (Except Failure Boundary)
  | none => if isWord text then some (.ok (.constant text)) else none
  | some form =>
    match form.read text with
    | .ok none => none
    | .ok (some literal) => some (.ok (form.boundary literal))
    | .error fault => some (.error (.final form.expected (.calendar fault) start))

theorem trial_eq_none {start : List Token} {form : CalendarForm} :
    trial start text (some form) = none ↔ form.read text = .ok none := by
  simp only [trial]
  split <;> simp_all

/-- Words are never refused, so a refusal is one of a form. -/
theorem trial_eq_error {start : List Token} {way : Option CalendarForm} {failure : Failure}
    (refused : trial start text way = some (.error failure)) :
    ∃ (form : CalendarForm) (fault : CalendarFault), form.read text = .error fault ∧
      failure = .final form.expected (.calendar fault) start := by
  cases way with
  | none =>
    simp only [trial] at refused
    split at refused <;> cases refused
  | some form =>
    simp only [trial] at refused
    split at refused
    · cases refused
    · cases refused
    · rename_i fault told
      cases refused
      exact ⟨form, fault, told, rfl⟩

/-- No text is settled in two ways. -/
theorem trial_unique {start : List Token} {way other : Option CalendarForm} (settles : trial start text way ≠ none)
    (settles' : trial start text other ≠ none) : way = other := by
  have word : trial start text none ≠ none → isWord text = true := by
    intro settles
    by_cases word : isWord text = true
    · exact word
    · exact absurd (if_neg word) settles
  cases way with
  | none =>
    cases other with
    | none => rfl
    | some form => exact absurd (trial_eq_none.mpr (read_of_isWord (word settles) form)) settles'
  | some form =>
    cases other with
    | none => exact absurd (trial_eq_none.mpr (read_of_isWord (word settles') form)) settles
    | some other =>
      rw [ne_eq, trial_eq_none] at settles settles'
      exact congrArg some (form_unique settles settles')

/-- Of trials at most one of which settles a bound, the first that does so is that one. -/
theorem findSome?_trial {start : List Token} {order : List (Option CalendarForm)} (complete : ∀ way, way ∈ order)
    (way : Option CalendarForm) (settles : trial start text way ≠ none) :
    order.findSome? (trial start text) = trial start text way := by
  cases first : order.findSome? (trial start text) with
  | none => exact absurd (List.findSome?_eq_none_iff.mp first way (complete way)) settles
  | some settled =>
    obtain ⟨found, -, trial⟩ := List.exists_of_findSome?_eq_some first
    have settles' : CalendarForm.trial start text found ≠ none := by simp [trial]
    rw [trial_unique settles settles', trial]

/-- The ways are tried in turn until one settles the text. -/
theorem typedBound_eq_trials (start : List Token) (text : String) :
    typedBound start (some text) =
      ([none, some date, some time, some dateTime].findSome? (trial start text)).getD
        (.error (.missing .intervalBound start)) := by
  by_cases word : isWord text = true
  · simp [typedBound, trial, word]
  · simp only [typedBound, List.findSome?, trial, word, read]
    rcases Date.read text with fault | _ | d
    · rfl
    · rcases Time.read text with fault | _ | t
      · rfl
      · rcases readDateTime text with fault | _ | ⟨d, t⟩ <;> rfl
      · rfl
    · rfl

/-- A bound is what one of the ways settles, or it is missing. -/
theorem exists_trial (start : List Token) (text : String) :
    (∃ way, trial start text way = some (typedBound start (some text))) ∨
      typedBound start (some text) = .error (.missing .intervalBound start) := by
  rw [typedBound_eq_trials]
  cases settled : [none, some date, some time, some dateTime].findSome? (trial start text) with
  | none => exact .inr rfl
  | some outcome =>
    obtain ⟨way, -, trial⟩ := List.exists_of_findSome?_eq_some settled
    exact .inl ⟨way, trial⟩

theorem mem_ways (way : Option CalendarForm) : way ∈ [none, some date, some time, some dateTime] := by
  rcases way with _ | _ | _ | _ <;> decide

/-- What one way settles is what the bound is, since no other way settles anything. -/
theorem typedBound_of_trial {start : List Token} {way : Option CalendarForm} {outcome : Except Failure Boundary}
    (settles : trial start text way = some outcome) : typedBound start (some text) = outcome := by
  have settles' : trial start text way ≠ none := by simp [settles]
  rw [typedBound_eq_trials, findSome?_trial mem_ways way settles', settles]
  rfl

theorem typedBound_of_isWord (word : isWord text = true) (start : List Token) :
    typedBound start (some text) = .ok (.constant text) :=
  have settles : trial start text none = some (.ok (.constant text)) := if_pos word
  typedBound_of_trial settles

/-- A literal that a form reads is the bound. -/
theorem typedBound_of_read (form : CalendarForm) {literal : form.Literal} (read : form.read text = .ok (some literal))
    (start : List Token) : typedBound start (some text) = .ok (form.boundary literal) := by
  have settles : trial start text (some form) = some (.ok (form.boundary literal)) := by
    simp only [trial, read]
  exact typedBound_of_trial settles

/-- The order of the ways does not matter as long as none is left out. -/
theorem typedBound_of_order (start : List Token) (text : String) {order : List (Option CalendarForm)}
    (complete : ∀ way, way ∈ order) :
    typedBound start (some text) =
      (order.findSome? (trial start text)).getD (.error (.missing .intervalBound start)) := by
  rw [typedBound_eq_trials]
  by_cases settled : ∃ way, trial start text way ≠ none
  · obtain ⟨way, settles⟩ := settled
    rw [findSome?_trial mem_ways way settles, findSome?_trial complete way settles]
  · have nothing : ∀ ways : List (Option CalendarForm), ways.findSome? (trial start text) = none := fun ways =>
      List.findSome?_eq_none_iff.mpr fun way _ => Classical.not_not.mp (not_exists.mp settled way)
    rw [nothing, nothing]

/-- A text of both is refused for its date, then for its time. -/
theorem readDateTime_of_parts {x y : String} {d : Date} {t : Time} (date : DateSpells x.toList d)
    (time : TimeSpells y.toList t) :
    readDateTime (x ++ "T" ++ y) = (do
      let _ ← Date.read x
      let _ ← Time.read y
      return some (d, t)) := by
  have atDate : CalendarForm.date.read x = _ := read_of_spells date
  have atTime : CalendarForm.time.read y = _ := read_of_spells time
  have both : CalendarForm.dateTime.Spells (x ++ "T" ++ y).toList (d, t) :=
    ⟨x.toList, y.toList, by simp, date, time⟩
  have atBoth : CalendarForm.dateTime.read (x ++ "T" ++ y) = _ := read_of_spells both
  simp only [read, fault?] at atDate atTime atBoth
  rw [atBoth, atDate, atTime]
  cases Date.fault? d <;> cases Time.fault? t <;> rfl

/-- Each form decides its literals, and no text concerns two forms, nor a form and the words: the ways to read a
bound may be tried in any order. -/
theorem reads_exactly (text : String) :
    (∀ form : CalendarForm,
      (∀ literal, form.read text = .ok (some literal) ↔
        form.Spells text.toList literal ∧ form.IsReal literal) ∧
      ((∃ fault, form.read text = .error fault) ↔
        ∃ literal, form.Spells text.toList literal ∧ ¬form.IsReal literal) ∧
      (form.read text = .ok none ↔ ∀ literal, ¬form.Spells text.toList literal) ∧
      ∀ literal, form.read text = .ok (some literal) → form.read (form.text literal) = .ok (some literal)) ∧
    (∀ x y d t, text = x ++ "T" ++ y → DateSpells x.toList d → TimeSpells y.toList t →
      readDateTime text = do
        let _ ← Date.read x
        let _ ← Time.read y
        return some (d, t)) ∧
    (isWord text = true → ∀ form : CalendarForm, form.read text = .ok none) ∧
    (∀ form other : CalendarForm, form.read text ≠ .ok none → other.read text ≠ .ok none → form = other) ∧
    ∀ (start : List Token) (order : List (Option CalendarForm)), (∀ way, way ∈ order) →
      typedBound start (some text) =
        (order.findSome? (trial start text)).getD (.error (.missing .intervalBound start)) := by
  refine ⟨fun form => ⟨fun literal => read_eq_some_iff, refuses_iff, read_eq_none_iff, fun literal read => ?_⟩,
    ?_, read_of_isWord, fun form other => form_unique, fun start order => typedBound_of_order start text⟩
  · obtain ⟨spelled, real⟩ := read_eq_some_iff.mp read
    exact read_text (isOrdinary_of_real spelled real)
  · rintro x y d t rfl date time
    exact readDateTime_of_parts date time

/-- A leap day is taken, but not in another year. Of both a date and a time that do not exist the date is told. -/
theorem reads_exactly_leapDay :
    (Date.read "2024-2-29" = .ok (some ⟨2024, 2, 29⟩) ∧
      Date.read (date.text ⟨2024, 2, 29⟩) = .ok (some ⟨2024, 2, 29⟩)) ∧
    (∃ fault, Date.read "2023-2-29" = .error fault) ∧
    readDateTime ("2024-13-01" ++ "T" ++ "24:00") = .error (.date ⟨2024, 13, 1⟩ .month) ∧
    typedBound [] (some "2024-2-29") =
      ([some dateTime, some time, some date, none].findSome? (trial [] "2024-2-29")).getD
        (.error (.missing .intervalBound [])) := by
  have spelled : DateSpells "2024-2-29".toList ⟨2024, 2, 29⟩ := Date.shape?_eq_some.mp (by decide +kernel)
  have leapDay : Date.IsReal ⟨2024, 2, 29⟩ := .leapDay (by decide) (by decide)
  have spelled' : DateSpells "2023-2-29".toList ⟨2023, 2, 29⟩ := Date.shape?_eq_some.mp (by decide +kernel)
  have unreal : ¬Date.IsReal ⟨2023, 2, 29⟩ := fun real => by cases Date.isReal_iff.mp real
  have atDate : DateSpells "2024-13-01".toList ⟨2024, 13, 1⟩ := Date.shape?_eq_some.mp (by decide +kernel)
  have atTime : TimeSpells "24:00".toList ⟨24, 0, 0, 0⟩ := Time.shape?_eq_some.mp (by decide +kernel)
  have refused : Date.read "2024-13-01" = .error (.date ⟨2024, 13, 1⟩ .month) :=
    (read_eq_error_iff : date.read "2024-13-01" = _ ↔ _).mpr ⟨_, atDate, rfl⟩
  have taken : Date.read "2024-2-29" = .ok (some ⟨2024, 2, 29⟩) :=
    ((reads_exactly "2024-2-29").1 date).1 _ |>.mpr ⟨spelled, leapDay⟩
  refine ⟨⟨taken, ((reads_exactly "2024-2-29").1 date).2.2.2 _ taken⟩,
    ((reads_exactly "2023-2-29").1 date).2.1.mpr ⟨_, spelled', unreal⟩, ?_,
    (reads_exactly "2024-2-29").2.2.2.2 [] _ ?_⟩
  · rw [(reads_exactly _).2.1 _ _ _ _ rfl atDate atTime, refused]
    rfl
  · exact fun way => (List.reverse_perm _).mem_iff.mpr (mem_ways way)

end CalendarForm

end Sift

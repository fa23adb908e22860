import Sift.Proofs.Calendar.Form
import Sift.Proofs.Calendar.Literal

namespace Sift

/-- The days of the Gregorian calendar, which reaches back before its introduction. -/
inductive Date.IsReal : Date → Prop
  | long {year month day} : month ∈ [1, 3, 5, 7, 8, 10, 12] → 1 ≤ day → day ≤ 31 → IsReal ⟨year, month, day⟩
  | short {year month day} : month ∈ [4, 6, 9, 11] → 1 ≤ day → day ≤ 30 → IsReal ⟨year, month, day⟩
  | february {year day} : 1 ≤ day → day ≤ 28 → IsReal ⟨year, 2, day⟩
  | leapDay {year} : 4 ∣ year → (100 ∣ year → 400 ∣ year) → IsReal ⟨year, 2, 29⟩

theorem Date.isLeapYear_iff {year : Int} : isLeapYear year = true ↔ 4 ∣ year ∧ (100 ∣ year → 400 ∣ year) := by
  simp only [isLeapYear, Bool.and_eq_true, Bool.or_eq_true, beq_iff_eq, bne_iff_ne, ne_eq]
  omega

theorem Date.daysIn_long {month : Nat} (long : month ∈ [1, 3, 5, 7, 8, 10, 12]) (year : Int) :
    1 ≤ month ∧ month ≤ 12 ∧ daysIn year month = 31 := by
  simp only [List.mem_cons, List.not_mem_nil, or_false] at long
  rcases long with rfl | rfl | rfl | rfl | rfl | rfl | rfl <;> exact ⟨by decide, by decide, rfl⟩

theorem Date.daysIn_short {month : Nat} (short : month ∈ [4, 6, 9, 11]) (year : Int) :
    1 ≤ month ∧ month ≤ 12 ∧ daysIn year month = 30 := by
  simp only [List.mem_cons, List.not_mem_nil, or_false] at short
  rcases short with rfl | rfl | rfl | rfl <;> exact ⟨by decide, by decide, rfl⟩

theorem Date.month_cases {month : Nat} (least : 1 ≤ month) (most : month ≤ 12) :
    month ∈ [1, 3, 5, 7, 8, 10, 12] ∨ month ∈ [4, 6, 9, 11] ∨ month = 2 := by
  simp only [List.mem_cons, List.not_mem_nil, or_false]
  omega

theorem Date.fault?_eq_none_iff {d : Date} :
    d.fault? = none ↔ (1 ≤ d.month ∧ d.month ≤ 12) ∧ 1 ≤ d.day ∧ d.day ≤ daysIn d.year d.month := by
  unfold fault?
  split
  · simp only [reduceCtorEq, false_iff]
    omega
  · split
    · simp only [reduceCtorEq, false_iff]
      omega
    · simp only [true_iff]
      omega

/-- The dates that exist are those without a part out of its range. -/
theorem Date.isReal_iff {d : Date} : d.IsReal ↔ d.fault? = none := by
  obtain ⟨year, month, day⟩ := d
  simp only [fault?_eq_none_iff]
  constructor
  · rintro (⟨long, least, most⟩ | ⟨short, least, most⟩ | ⟨least, most⟩ | ⟨four, century⟩)
    · obtain ⟨first, last, days⟩ := daysIn_long long year
      exact ⟨⟨first, last⟩, least, days ▸ most⟩
    · obtain ⟨first, last, days⟩ := daysIn_short short year
      exact ⟨⟨first, last⟩, least, days ▸ most⟩
    · refine ⟨by decide, least, Nat.le_trans most ?_⟩
      simp only [daysIn]
      split <;> decide
    · have leap := isLeapYear_iff.mpr ⟨four, century⟩
      refine ⟨by decide, by decide, ?_⟩
      simp only [daysIn, leap, if_true, Nat.le_refl]
  · rintro ⟨⟨first, last⟩, least, most⟩
    rcases month_cases first last with long | short | rfl
    · exact .long long least ((daysIn_long long year).2.2 ▸ most)
    · exact .short short least ((daysIn_short short year).2.2 ▸ most)
    · by_cases leap : isLeapYear year = true
      · simp only [daysIn, leap, if_true] at most
        by_cases last : day = 29
        · obtain ⟨four, century⟩ := isLeapYear_iff.mp leap
          exact last ▸ .leapDay four century
        · exact .february least (by omega)
      · simp only [daysIn, leap, Bool.false_eq_true, if_false] at most
        exact .february least most

theorem IsDigits.numberOf_lt {least most : Nat} {ds : List Char} (digits : IsDigits least most ds) :
    numberOf ds < 10 ^ most :=
  Nat.lt_of_lt_of_le (Sift.numberOf_lt digits.1) (Nat.pow_le_pow_right (by decide) digits.2.2)

theorem DateSpells.year_le {cs : List Char} {d : Date} (spelled : DateSpells cs d) :
    0 ≤ d.year ∧ d.year ≤ 9999 := by
  obtain ⟨year, -, -⟩ := spelled
  have below := year.numberOf_lt
  simp only
  omega

/-- Three digits make up the thousandths of a second, so no text spells too many. -/
theorem SecondsSpell.milliseconds_lt {cs : List Char} {seconds milliseconds : Nat}
    (spelled : SecondsSpell cs seconds milliseconds) : milliseconds < 1000 := by
  cases spelled with
  | none => decide
  | whole => decide
  | @fraction _ ds _ digits =>
    obtain ⟨all, least, most⟩ := digits
    have filled : ∀ c ∈ ds ++ List.replicate (3 - ds.length) '0', c.isDigit = true := by
      intro c member
      rcases List.mem_append.mp member with written | zero
      · exact all c written
      · rw [List.eq_of_mem_replicate zero]
        rfl
    have below := numberOf_lt filled
    rwa [List.length_append, List.length_replicate, Nat.add_sub_cancel' most] at below

/-- The times of day, with any fraction of a second. -/
def Time.IsReal (t : Time) : Prop :=
  t.hours < 24 ∧ t.minutes < 60 ∧ t.seconds < 60

theorem Time.fault?_eq_none_iff {t : Time} : t.fault? = none ↔ t.IsReal ∧ t.milliseconds < 1000 := by
  unfold fault? IsReal
  repeat' split
  all_goals simp only [reduceCtorEq, false_iff, true_iff]; omega

theorem TimeSpells.isReal_iff {cs : List Char} {t : Time} (spelled : TimeSpells cs t) :
    t.IsReal ↔ t.fault? = none := by
  obtain ⟨-, -, further⟩ := spelled
  rw [Time.fault?_eq_none_iff, and_iff_left further.milliseconds_lt]

namespace CalendarForm

/-- The texts of a form. -/
def Spells : (form : CalendarForm) → List Char → form.Literal → Prop
  | date, cs, d => DateSpells cs d
  | time, cs, t => TimeSpells cs t
  | dateTime, cs, (d, t) => ∃ x y, cs = x ++ 'T' :: y ∧ DateSpells x d ∧ TimeSpells y t

/-- A literal that the calendar and the clock have. -/
def IsReal : (form : CalendarForm) → form.Literal → Prop
  | date, d => Date.IsReal d
  | time, t => Time.IsReal t
  | dateTime, (d, t) => Date.IsReal d ∧ Time.IsReal t

variable {form : CalendarForm} {text : String} {literal : form.Literal}

theorem isReal_iff {cs : List Char} (spelled : form.Spells cs literal) :
    form.IsReal literal ↔ form.fault? literal = none := by
  cases form with
  | date => simp [IsReal, fault?, Date.isReal_iff]
  | time =>
    have real : Time.IsReal literal ↔ Time.fault? literal = none := TimeSpells.isReal_iff spelled
    simp [IsReal, fault?, real]
  | dateTime =>
    obtain ⟨d, t⟩ := literal
    obtain ⟨x, y, -, -, spelled⟩ := spelled
    simp [IsReal, fault?, Date.isReal_iff, spelled.isReal_iff]

/-- What is spelled and exists can be written back. -/
theorem isOrdinary_of_real {cs : List Char} (spelled : form.Spells cs literal) (real : form.IsReal literal) :
    form.IsOrdinary literal := by
  cases form with
  | date =>
    obtain ⟨least, most⟩ := DateSpells.year_le spelled
    exact ⟨least, most, Date.isReal_iff.mp real⟩
  | time => exact (TimeSpells.isReal_iff spelled).mp real
  | dateTime =>
    obtain ⟨d, t⟩ := literal
    obtain ⟨x, y, -, date, time⟩ := spelled
    obtain ⟨least, most⟩ := date.year_le
    exact ⟨⟨least, most, Date.isReal_iff.mp real.1⟩, time.isReal_iff.mp real.2⟩

/-- A text that spells a literal is read as it, or refused for what is wrong with it. -/
theorem read_of_spells (spelled : form.Spells text.toList literal) :
    form.read text = match form.fault? literal with
      | some fault => .error fault
      | none => .ok (some literal) := by
  cases form with
  | date =>
    have shape := Date.shape?_eq_some.mpr spelled
    simp only [read, Date.read, shape, Date.checked, fault?]
    cases Date.fault? literal <;> rfl
  | time =>
    have shape := Time.shape?_eq_some.mpr spelled
    simp only [read, Time.read, shape, Time.checked, fault?]
    cases Time.fault? literal <;> rfl
  | dateTime =>
    obtain ⟨d, t⟩ := literal
    have shape := dateTimeShape?_eq_some.mpr spelled
    simp only [read, readDateTime, shape, Date.checked, Time.checked, fault?]
    cases Date.fault? d <;> cases Time.fault? t <;> rfl

/-- A text that spells no literal of a form is left to the other forms. -/
theorem read_of_not_spells (unspelled : ∀ literal, ¬form.Spells text.toList literal) :
    form.read text = .ok none := by
  cases form with
  | date =>
    simp only [read, Date.read]
    split
    · exact absurd (Date.shape?_eq_some.mp ‹_›) (unspelled _)
    · rfl
  | time =>
    simp only [read, Time.read]
    split
    · exact absurd (Time.shape?_eq_some.mp ‹_›) (unspelled _)
    · rfl
  | dateTime =>
    simp only [read, readDateTime]
    split
    · exact absurd (dateTimeShape?_eq_some.mp ‹_›) (unspelled (_, _))
    · rfl

theorem read_eq_none_iff : form.read text = .ok none ↔ ∀ literal, ¬form.Spells text.toList literal := by
  refine ⟨fun read literal spelled => ?_, read_of_not_spells⟩
  rw [read_of_spells spelled] at read
  split at read <;> cases read

/-- A form accepts the texts that spell a literal which exists. -/
theorem read_eq_some_iff :
    form.read text = .ok (some literal) ↔ form.Spells text.toList literal ∧ form.IsReal literal := by
  constructor
  · intro read
    by_cases spelled : ∃ other, form.Spells text.toList other
    · obtain ⟨other, spelled⟩ := spelled
      rw [read_of_spells spelled] at read
      split at read
      · cases read
      · rename_i faultless
        cases read
        exact ⟨spelled, (isReal_iff spelled).mpr faultless⟩
    · rw [read_of_not_spells (not_exists.mp spelled)] at read
      cases read
  · rintro ⟨spelled, real⟩
    rw [read_of_spells spelled, (isReal_iff spelled).mp real]

/-- A form refuses the texts that spell a literal which does not exist. -/
theorem read_eq_error_iff {fault : CalendarFault} :
    form.read text = .error fault ↔
      ∃ literal, form.Spells text.toList literal ∧ form.fault? literal = some fault := by
  constructor
  · intro read
    by_cases spelled : ∃ other, form.Spells text.toList other
    · obtain ⟨other, spelled⟩ := spelled
      rw [read_of_spells spelled] at read
      split at read
      · rename_i faulty
        cases read
        exact ⟨other, spelled, faulty⟩
      · cases read
    · rw [read_of_not_spells (not_exists.mp spelled)] at read
      cases read
  · rintro ⟨literal, spelled, faulty⟩
    rw [read_of_spells spelled, faulty]

/-- A text is refused just if it spells something that does not exist. -/
theorem refuses_iff : (∃ fault, form.read text = .error fault) ↔
    ∃ literal, form.Spells text.toList literal ∧ ¬form.IsReal literal := by
  simp only [read_eq_error_iff]
  constructor
  · rintro ⟨fault, literal, spelled, faulty⟩
    refine ⟨literal, spelled, fun real => ?_⟩
    rw [(isReal_iff spelled).mp real] at faulty
    cases faulty
  · rintro ⟨literal, spelled, unreal⟩
    rw [isReal_iff spelled] at unreal
    obtain ⟨fault, faulty⟩ := Option.ne_none_iff_exists'.mp unreal
    exact ⟨fault, literal, spelled, faulty⟩

/-- Which of the two signs of a literal a form has: dashes are in dates, colons in times. -/
def hasDash : CalendarForm → Bool
  | date | dateTime => true
  | time => false

/-- Whether what a form is written as has a colon in it. -/
def hasColon : CalendarForm → Bool
  | date => false
  | time | dateTime => true

theorem eq_of_signs {form other : CalendarForm} (dash : form.hasDash = other.hasDash)
    (colon : form.hasColon = other.hasColon) : form = other := by
  revert dash colon
  cases form <;> cases other <;> decide

/-- Every form begins with a digit and is known by its dashes and colons. -/
theorem signs_of_spells {cs : List Char} (spelled : form.Spells cs literal) :
    ('-' ∈ cs ↔ form.hasDash = true) ∧ (':' ∈ cs ↔ form.hasColon = true) ∧
      ∃ c ∈ cs.head?, c.isDigit = true := by
  cases form with
  | date =>
    obtain ⟨dash, digit, colon⟩ := Date.shape?_mem (Date.shape?_eq_some.mpr spelled)
    exact ⟨iff_of_true dash rfl, iff_of_false (fun has => List.not_mem_nil (colon has)) nofun, digit⟩
  | time =>
    obtain ⟨colon, digit, dash⟩ := Time.shape?_mem (Time.shape?_eq_some.mpr spelled)
    exact ⟨iff_of_false (fun has => List.not_mem_nil (dash has)) nofun, iff_of_true colon rfl, digit⟩
  | dateTime =>
    obtain ⟨d, t⟩ := literal
    obtain ⟨dash, colon, digit⟩ := dateTimeShape?_mem (dateTimeShape?_eq_some.mpr spelled)
    exact ⟨iff_of_true dash rfl, iff_of_true colon rfl, digit⟩

/-- No text concerns two forms. -/
theorem form_unique {form other : CalendarForm} (read : form.read text ≠ .ok none)
    (read' : other.read text ≠ .ok none) : form = other := by
  simp only [ne_eq, read_eq_none_iff, Classical.not_forall, Classical.not_not] at read read'
  obtain ⟨literal, spelled⟩ := read
  obtain ⟨literal', spelled'⟩ := read'
  obtain ⟨dash, colon, -⟩ := signs_of_spells spelled
  obtain ⟨dash', colon', -⟩ := signs_of_spells spelled'
  exact eq_of_signs (Bool.eq_iff_iff.mpr (dash.symm.trans dash')) (Bool.eq_iff_iff.mpr (colon.symm.trans colon'))

/-- No word concerns any form. -/
theorem read_of_isWord (word : isWord text = true) (form : CalendarForm) : form.read text = .ok none := by
  refine read_of_not_spells fun literal spelled => ?_
  obtain ⟨dash, colon, digit⟩ := signs_of_spells spelled
  have noWord : isWord text = false := by
    cases form with
    | date => exact isWord_of_digit digit (.inl rfl) (dash.mpr rfl)
    | time => exact isWord_of_digit digit (.inr rfl) (colon.mpr rfl)
    | dateTime => exact isWord_of_digit digit (.inl rfl) (dash.mpr rfl)
  rw [noWord] at word
  cases word

end CalendarForm

end Sift

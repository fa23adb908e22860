import Sift.Grammar.Interval
import Sift.Proofs.Calendar.Written

namespace Sift

/-- Digits, at least so many and at most so many. -/
def IsDigits (least most : Nat) (ds : List Char) : Prop :=
  (∀ c ∈ ds, c.isDigit = true) ∧ least ≤ ds.length ∧ ds.length ≤ most

/-- Digits are taken from the front, at most as many as the limit allows. -/
theorem takeDigits_spec (limit : Nat) (cs : List Char) :
    cs = (takeDigits limit cs).1 ++ (takeDigits limit cs).2 ∧
      IsDigits 0 limit (takeDigits limit cs).1 := by
  have none : IsDigits 0 limit [] := ⟨by simp, Nat.zero_le _, Nat.zero_le _⟩
  induction limit generalizing cs with
  | zero => exact ⟨rfl, none⟩
  | succ limit ih =>
    cases cs with
    | nil => exact ⟨rfl, none⟩
    | cons c cs =>
      simp only [takeDigits]
      split
      · rename_i digit
        obtain ⟨split, digits, -, length⟩ := ih cs ⟨by simp, Nat.zero_le _, Nat.zero_le _⟩
        exact ⟨congrArg (c :: ·) split, List.forall_mem_cons.mpr ⟨digit, digits⟩, Nat.zero_le _,
          Nat.succ_le_succ length⟩
      · exact ⟨rfl, none⟩

/-- A number is read from digits, as many of them as there may be. -/
theorem numberIn?_sound {least most n : Nat} {cs rest : List Char}
    (read : numberIn? least most cs = some (n, rest)) :
    ∃ ds, cs = ds ++ rest ∧ IsDigits least most ds ∧ n = numberOf ds := by
  simp only [numberIn?, Option.ite_none_right_eq_some, Option.some.injEq, Prod.mk.injEq] at read
  obtain ⟨enough, rfl, rfl⟩ := read
  obtain ⟨split, digits, -, length⟩ := takeDigits_spec most cs
  exact ⟨_, split, ⟨digits, enough, length⟩, rfl⟩

theorem numberIn?_complete {least most : Nat} {ds : List Char} (digits : IsDigits least most ds)
    (rest : List Char) (stops : ∀ c ∈ rest.head?, c.isDigit = false) :
    numberIn? least most (ds ++ rest) = some (numberOf ds, rest) := by
  obtain ⟨all, enough, fits⟩ := digits
  simp only [numberIn?, takeDigits_append all fits (.inr stops), enough, if_true]

theorem after?_eq_some {expected : Char} {cs rest : List Char} :
    after? expected cs = some rest ↔ cs = expected :: rest := by
  cases cs with
  | nil => simp [after?]
  | cons c cs => simp [after?]

/-- The text of a date: four digits, then one or two, then one or two, with dashes between. -/
inductive DateSpells : List Char → Date → Prop
  | mk {year month day} : IsDigits 4 4 year → IsDigits 1 2 month → IsDigits 1 2 day →
      DateSpells (year ++ '-' :: (month ++ '-' :: day)) ⟨numberOf year, numberOf month, numberOf day⟩

/-- What is taken for a date is spelled as one. -/
theorem Date.shape?_sound {cs rest : List Char} {d : Date} (read : shape? cs = some (d, rest)) :
    ∃ front, cs = front ++ rest ∧ DateSpells front d := by
  simp only [shape?, Option.bind_eq_bind, Option.bind_eq_some_iff, Option.pure_def, Option.some.injEq,
    Prod.mk.injEq, Prod.exists] at read
  obtain ⟨_, _, atYear, _, dash, _, _, atMonth, _, dash', _, _, atDay, rfl, rfl⟩ := read
  obtain ⟨year, rfl, yearDigits, rfl⟩ := numberIn?_sound atYear
  obtain rfl := after?_eq_some.mp dash
  obtain ⟨month, rfl, monthDigits, rfl⟩ := numberIn?_sound atMonth
  obtain rfl := after?_eq_some.mp dash'
  obtain ⟨day, rfl, dayDigits, rfl⟩ := numberIn?_sound atDay
  exact ⟨_, by simp, .mk yearDigits monthDigits dayDigits⟩

/-- What is spelled as a date is taken for it if no digit comes next. -/
theorem Date.shape?_complete {cs : List Char} {d : Date} (spelled : DateSpells cs d) (rest : List Char)
    (stops : ∀ c ∈ rest.head?, c.isDigit = false) : shape? (cs ++ rest) = some (d, rest) := by
  obtain @⟨year, month, day, yearDigits, monthDigits, dayDigits⟩ := spelled
  have atDash : ∀ cs : List Char, ∀ c ∈ ('-' :: cs).head?, c.isDigit = false := by simp
  have dash : ∀ cs, after? '-' ('-' :: cs) = some cs := fun _ => rfl
  simp only [List.append_assoc, List.cons_append, shape?, numberIn?_complete yearDigits _ (atDash _),
    numberIn?_complete monthDigits _ (atDash _), numberIn?_complete dayDigits rest stops, dash, Option.bind_eq_bind,
    Option.bind_some, Option.pure_def]

/-- The texts that have the shape of a date are those that spell one. -/
theorem Date.shape?_eq_some {cs : List Char} {d : Date} : shape? cs = some (d, []) ↔ DateSpells cs d := by
  refine ⟨fun read => ?_, fun spelled => ?_⟩
  · obtain ⟨front, rfl, spelled⟩ := shape?_sound read
    rwa [List.append_nil]
  · rw [← List.append_nil cs]
    exact shape?_complete spelled [] (by simp)

theorem Time.fraction?_sound {cs rest : List Char} {milliseconds : Nat}
    (read : fraction? cs = some (milliseconds, rest)) :
    ∃ ds, cs = '.' :: (ds ++ rest) ∧ IsDigits 1 3 ds ∧
      milliseconds = numberOf ds * tenTo (3 - ds.length) := by
  simp only [fraction?, Option.bind_eq_bind, Option.bind_eq_some_iff, Option.pure_def] at read
  obtain ⟨after, point, read⟩ := read
  obtain rfl := after?_eq_some.mp point
  obtain ⟨split, digits, -, length⟩ := takeDigits_spec 3 after
  split at read
  · cases read
  · rename_i nonempty
    cases read
    refine ⟨_, congrArg ('.' :: ·) split, ⟨digits, ?_, length⟩, rfl⟩
    exact List.length_pos_iff.mpr (by simpa using nonempty)

/-- What may follow the minutes of a time: nothing, or a colon and seconds, with a fraction or not. The
digits of the fraction that are not written are zeros. -/
inductive SecondsSpell : List Char → Nat → Nat → Prop
  | none : SecondsSpell [] 0 0
  | whole {seconds} : IsDigits 1 2 seconds → SecondsSpell (':' :: seconds) (numberOf seconds) 0
  | fraction {seconds ds} : IsDigits 1 2 seconds → IsDigits 1 3 ds →
      SecondsSpell (':' :: (seconds ++ '.' :: ds)) (numberOf seconds)
        (numberOf (ds ++ List.replicate (3 - ds.length) '0'))

/-- The text of a time: one digit or two for the hours, for the minutes and for the seconds. -/
inductive TimeSpells : List Char → Time → Prop
  | mk {hours minutes more seconds milliseconds} : IsDigits 1 2 hours → IsDigits 1 2 minutes →
      SecondsSpell more seconds milliseconds →
      TimeSpells (hours ++ ':' :: (minutes ++ more))
        ⟨numberOf hours, numberOf minutes, seconds, milliseconds⟩

theorem numberOf_append_zeros (ds : List Char) (n : Nat) :
    numberOf (ds ++ List.replicate n '0') = numberOf ds * tenTo n := by
  rw [numberOf, Nat.ofDigitChars_append, Nat.ofDigitChars_replicate_zero, Nat.mul_comm]
  rfl

theorem Time.seconds?_sound {cs rest : List Char} {seconds milliseconds : Nat}
    (read : seconds? cs = some (seconds, milliseconds, rest)) :
    ∃ front, cs = front ++ rest ∧ SecondsSpell front seconds milliseconds := by
  simp only [seconds?, Option.bind_eq_bind, Option.bind_eq_some_iff, Prod.exists] at read
  obtain ⟨_, colon, _, left, atSeconds, read⟩ := read
  obtain rfl := after?_eq_some.mp colon
  obtain ⟨ds, rfl, digits, rfl⟩ := numberIn?_sound atSeconds
  split at read
  · rename_i fraction
    obtain ⟨fs, rfl, fractionDigits, rfl⟩ := fraction?_sound fraction
    cases read
    rw [← numberOf_append_zeros]
    exact ⟨':' :: (ds ++ '.' :: fs), by simp, .fraction digits fractionDigits⟩
  · cases read
    exact ⟨':' :: ds, rfl, .whole digits⟩

theorem Time.shape?_sound {cs rest : List Char} {t : Time} (read : shape? cs = some (t, rest)) :
    ∃ front, cs = front ++ rest ∧ TimeSpells front t := by
  simp only [shape?, Option.bind_eq_bind, Option.bind_eq_some_iff, Prod.exists] at read
  obtain ⟨_, _, atHours, _, colon, _, left, atMinutes, read⟩ := read
  obtain ⟨hours, rfl, hourDigits, rfl⟩ := numberIn?_sound atHours
  obtain rfl := after?_eq_some.mp colon
  obtain ⟨minutes, rfl, minuteDigits, rfl⟩ := numberIn?_sound atMinutes
  split at read
  · rename_i seconds
    obtain ⟨front, rfl, more⟩ := seconds?_sound seconds
    cases read
    exact ⟨_, by simp, .mk hourDigits minuteDigits more⟩
  · cases read
    exact ⟨hours ++ ':' :: (minutes ++ []), by simp, .mk hourDigits minuteDigits .none⟩

theorem Time.fraction?_complete {ds : List Char} (digits : IsDigits 1 3 ds) :
    fraction? ('.' :: ds) = some (numberOf (ds ++ List.replicate (3 - ds.length) '0'), []) := by
  obtain ⟨all, enough, fits⟩ := digits
  have taken : takeDigits 3 (ds ++ []) = (ds, []) := takeDigits_append all fits (.inr (by simp))
  have nonempty : ds ≠ [] := List.ne_nil_of_length_pos enough
  rw [List.append_nil] at taken
  simp [fraction?, after?, taken, nonempty, numberOf_append_zeros]

/-- What spells seconds is nothing, or is read as them. -/
theorem Time.seconds?_complete {cs : List Char} {seconds milliseconds : Nat}
    (spelled : SecondsSpell cs seconds milliseconds) :
    cs = [] ∧ seconds = 0 ∧ milliseconds = 0 ∨ seconds? cs = some (seconds, milliseconds, []) := by
  have colon : ∀ cs, after? ':' (':' :: cs) = some cs := fun _ => rfl
  cases spelled with
  | none => exact .inl ⟨rfl, rfl, rfl⟩
  | @whole ds digits =>
    have atSeconds := numberIn?_complete digits [] (by simp)
    have noFraction : fraction? [] = none := rfl
    rw [List.append_nil] at atSeconds
    exact .inr (by simp [seconds?, colon, atSeconds, noFraction])
  | @fraction ds fs digits fractionDigits =>
    have atSeconds := numberIn?_complete digits ('.' :: fs) (by simp)
    exact .inr (by simp [seconds?, colon, atSeconds, fraction?_complete fractionDigits])

/-- A text is taken for a time just if all of it is spelled as one. -/
theorem Time.shape?_eq_some {cs : List Char} {t : Time} : shape? cs = some (t, []) ↔ TimeSpells cs t := by
  constructor
  · intro read
    obtain ⟨front, rfl, spelled⟩ := shape?_sound read
    rwa [List.append_nil]
  · rintro @⟨hours, minutes, more, seconds, milliseconds, hourDigits, minuteDigits, further⟩
    have atColon : ∀ cs : List Char, ∀ c ∈ (':' :: cs).head?, c.isDigit = false := by simp
    have colon : ∀ cs, after? ':' (':' :: cs) = some cs := fun _ => rfl
    have stops : ∀ c ∈ more.head?, c.isDigit = false := by cases further <;> simp
    have whole : seconds? [] = none := rfl
    have atHours := numberIn?_complete hourDigits (':' :: (minutes ++ more)) (atColon _)
    have atMinutes := numberIn?_complete minuteDigits more stops
    rcases seconds?_complete further with ⟨rfl, rfl, rfl⟩ | read
    · simp only [shape?, atHours, atMinutes, colon, whole, Option.bind_eq_bind, Option.bind_some, Option.pure_def]
    · simp only [shape?, atHours, atMinutes, colon, read, Option.bind_eq_bind, Option.bind_some, Option.pure_def]

theorem IsDigits.not_mem {least most : Nat} {ds : List Char} (digits : IsDigits least most ds) {c : Char}
    (other : c.isDigit = false) : c ∉ ds := by
  intro member
  rw [digits.1 c member] at other
  cases other

theorem IsDigits.begins {least most : Nat} {ds : List Char} (digits : IsDigits (least + 1) most ds)
    (more : List Char) : ∃ c ∈ (ds ++ more).head?, c.isDigit = true := by
  obtain ⟨all, enough, -⟩ := digits
  cases ds with
  | nil => simp at enough
  | cons c ds => exact ⟨c, rfl, all c (List.mem_cons_self ..)⟩

/-- A date has a dash in it and begins with a digit, and has no colon. -/
theorem Date.shape?_mem {cs rest : List Char} {d : Date} (read : shape? cs = some (d, rest)) :
    '-' ∈ cs ∧ (∃ c ∈ cs.head?, c.isDigit = true) ∧ (':' ∈ cs → ':' ∈ rest) := by
  obtain ⟨_, rfl, @⟨year, month, day, yearDigits, monthDigits, dayDigits⟩⟩ := shape?_sound read
  have inYear : ':' ∉ year := yearDigits.not_mem rfl
  have inMonth : ':' ∉ month := monthDigits.not_mem rfl
  have inDay : ':' ∉ day := dayDigits.not_mem rfl
  rw [List.append_assoc]
  exact ⟨by simp, yearDigits.begins _, by simp [inYear, inMonth, inDay]⟩

theorem SecondsSpell.not_mem {cs : List Char} {seconds milliseconds : Nat}
    (spelled : SecondsSpell cs seconds milliseconds) : '-' ∉ cs := by
  cases spelled with
  | none => simp
  | whole digits => simpa using digits.not_mem rfl
  | fraction digits fraction => simpa using ⟨digits.not_mem rfl, fraction.not_mem rfl⟩

/-- A text that begins with a time has a colon and begins with a digit, and a dash in it comes behind the time.
-/
theorem Time.shape?_mem {cs rest : List Char} {t : Time} (read : shape? cs = some (t, rest)) :
    ':' ∈ cs ∧ (∃ c ∈ cs.head?, c.isDigit = true) ∧ ('-' ∈ cs → '-' ∈ rest) := by
  obtain ⟨_, rfl, @⟨hours, minutes, more, _, _, hourDigits, minuteDigits, seconds⟩⟩ := shape?_sound read
  have inHours : '-' ∉ hours := hourDigits.not_mem rfl
  have inMinutes : '-' ∉ minutes := minuteDigits.not_mem rfl
  rw [List.append_assoc]
  exact ⟨by simp, hourDigits.begins _, by simp [inHours, inMinutes, seconds.not_mem]⟩

theorem dateTimeShape?_sound {cs rest : List Char} {d : Date} {t : Time}
    (read : dateTimeShape? cs = some ((d, t), rest)) :
    ∃ x y, cs = x ++ 'T' :: (y ++ rest) ∧ DateSpells x d ∧ TimeSpells y t := by
  simp only [dateTimeShape?, Option.bind_eq_bind, Option.bind_eq_some_iff, Prod.exists, Option.pure_def,
    Option.some.injEq, Prod.mk.injEq] at read
  obtain ⟨_, left, date, _, letter, _, _, time, ⟨rfl, rfl⟩, rfl⟩ := read
  obtain ⟨x, rfl, dateSpelled⟩ := Date.shape?_sound date
  obtain rfl := after?_eq_some.mp letter
  obtain ⟨y, rfl, timeSpelled⟩ := Time.shape?_sound time
  exact ⟨x, y, rfl, dateSpelled, timeSpelled⟩

/-- A date and a time have a `T` between them. -/
theorem dateTimeShape?_eq_some {cs : List Char} {d : Date} {t : Time} :
    dateTimeShape? cs = some ((d, t), []) ↔ ∃ x y, cs = x ++ 'T' :: y ∧ DateSpells x d ∧ TimeSpells y t := by
  constructor
  · intro read
    simpa using dateTimeShape?_sound read
  · rintro ⟨x, y, rfl, date, time⟩
    have atDate := Date.shape?_complete date ('T' :: y) (by simp)
    have letter : after? 'T' ('T' :: y) = some y := rfl
    simp [dateTimeShape?, atDate, letter, Time.shape?_eq_some.mpr time]

/-- A text that begins with a date and a time has a dash and a colon, and begins with a digit. -/
theorem dateTimeShape?_mem {cs rest : List Char} {both : Date × Time}
    (read : dateTimeShape? cs = some (both, rest)) :
    '-' ∈ cs ∧ ':' ∈ cs ∧ ∃ c ∈ cs.head?, c.isDigit = true := by
  obtain ⟨d, t⟩ := both
  obtain ⟨x, y, rfl, @⟨year, month, day, yearDigits, -, -⟩, @⟨hours, minutes, more, -⟩⟩ :=
    dateTimeShape?_sound read
  rw [List.append_assoc]
  exact ⟨by simp, by simp, yearDigits.begins _⟩

/-- A minus sign may only come first in a word, so a digit in front and a dash, or a colon anywhere,
make a text no word. -/
theorem isWord_of_digit {text : String} (digit : ∃ c ∈ text.toList.head?, c.isDigit = true) {c : Char}
    (other : c = '-' ∨ c = ':') (member : c ∈ text.toList) : isWord text = false := by
  obtain ⟨first, atHead, digit⟩ := digit
  cases chars : text.toList with
  | nil =>
    rw [chars] at member
    cases member
  | cons d ds =>
    rw [chars] at atHead member
    obtain rfl : d = first := Option.some.inj atHead
    have signless : d ≠ '-' := by
      rintro rfl
      cases digit
    have foreign : (isAlphanumeric c || c == '_' || c == '.') = false := by
      rcases other with rfl | rfl <;> decide
    unfold isWord
    rw [chars]
    split
    · rename_i same
      exact absurd (List.cons.inj same).1 signless
    · rw [Bool.and_eq_false_iff]
      exact .inr (List.all_eq_false.mpr ⟨c, member, by rw [foreign]; decide⟩)

end Sift

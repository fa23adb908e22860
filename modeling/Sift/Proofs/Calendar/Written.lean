import Mathlib.Algebra.Group.Nat.Defs
import Sift.Calendar.Reader
import Sift.Text.Numeric

namespace Sift

/-- All digits in front are taken if no more may be, or if there are no more. -/
theorem takeDigits_append {limit : Nat} {ds rest : List Char} (digits : ∀ c ∈ ds, c.isDigit = true)
    (fits : ds.length ≤ limit) (stops : ds.length = limit ∨ ∀ c ∈ rest.head?, c.isDigit = false) :
    takeDigits limit (ds ++ rest) = (ds, rest) := by
  induction ds generalizing limit with
  | nil =>
    cases limit with
    | zero => rfl
    | succ limit =>
      cases rest with
      | nil => rfl
      | cons c rest =>
        have other : c.isDigit = false := stops.resolve_left nofun c rfl
        simp only [List.nil_append, takeDigits, other, Bool.false_eq_true, if_false]
  | cons c ds ih =>
    obtain ⟨digit, digits⟩ := List.forall_mem_cons.mp digits
    cases limit with
    | zero => cases fits
    | succ limit =>
      have further := ih digits (Nat.le_of_succ_le_succ fits) (stops.imp_left Nat.succ.inj)
      simp only [List.cons_append, takeDigits, digit, if_true, further]

/-- Zeros in front make up the width. -/
theorem length_padded {width n : Nat} (positive : 0 < width) (fits : n < 10 ^ width) :
    (padded width n).length = width := by
  have short := (Nat.length_toDigits_le_iff (b := 10) (by decide) positive).mpr fits
  simp only [padded, digits, List.length_append, List.length_replicate]
  omega

theorem isDigit_of_mem_padded {width n : Nat} {c : Char} (member : c ∈ padded width n) :
    c.isDigit = true := by
  rcases List.mem_append.mp member with zero | digit
  · rw [List.eq_of_mem_replicate zero]
    rfl
  · exact isDigit_of_mem_digits digit

/-- Zeros in front do not change a number. -/
theorem numberOf_padded (width n : Nat) : numberOf (padded width n) = n := by
  have plain := numberOf_digits n
  unfold numberOf at plain ⊢
  rw [padded, Nat.ofDigitChars_append, Nat.ofDigitChars_replicate_zero, Nat.mul_zero, plain]

theorem takeDigits_padded (width : Nat) {n : Nat} (positive : 0 < width) (fits : n < 10 ^ width)
    (rest : List Char) : takeDigits width (padded width n ++ rest) = (padded width n, rest) := by
  have length := length_padded positive fits
  exact takeDigits_append (fun _ => isDigit_of_mem_padded) (Nat.le_of_eq length) (.inl length)

/-- A number with zeros in front is read back. -/
theorem numberIn?_padded (least width : Nat) {n : Nat} (positive : 0 < width) (enough : least ≤ width)
    (fits : n < 10 ^ width) (rest : List Char) :
    numberIn? least width (padded width n ++ rest) = some (n, rest) := by
  simp only [numberIn?, takeDigits_padded width positive fits, length_padded positive fits, enough,
    if_true, numberOf_padded]

theorem numberOf_cons (c : Char) (cs : List Char) :
    numberOf (c :: cs) = 10 ^ cs.length * (c.toNat - 48) + numberOf cs := by
  unfold numberOf
  rw [Nat.ofDigitChars_cons, Nat.ofDigitChars_eq_ofDigitChars_zero, Nat.mul_zero, Nat.zero_add]
  rfl

theorem digit_bounds {c : Char} (digit : c.isDigit = true) : 48 ≤ c.toNat ∧ c.toNat ≤ 57 :=
  Char.isDigit_iff_toNat.mp digit

/-- A number has as many digits as it is written with, at most. -/
theorem numberOf_lt {cs : List Char} (digits : ∀ c ∈ cs, c.isDigit = true) : numberOf cs < 10 ^ cs.length := by
  induction cs with
  | nil => decide
  | cons c cs ih =>
    obtain ⟨digit, further⟩ := List.forall_mem_cons.mp digits
    have upper := (digit_bounds digit).2
    have below := ih further
    have most : 10 ^ cs.length * (c.toNat - 48) ≤ 10 ^ cs.length * 9 := Nat.mul_le_mul_left _ (by omega)
    rw [numberOf_cons, List.length_cons, Nat.pow_succ]
    omega

/-- Characters that a bound is written with. -/
def InBound (c : Char) : Prop :=
  isAlphanumeric c = true ∨ c ∈ ['-', ':', '_', '.']

theorem InBound.of_isDigit {c : Char} (digit : c.isDigit = true) : InBound c :=
  .inl (by simp [isAlphanumeric, isNumeric, digit])

/-- A date is written with characters that a bound may have. -/
theorem Date.inBound_written (d : Date) : ∀ c ∈ d.written, InBound c := by
  have padded_ : ∀ {width n c}, c ∈ padded width n → InBound c := fun member =>
    .of_isDigit (isDigit_of_mem_padded member)
  have dash : InBound '-' := .inr (by decide)
  have year : ∀ c ∈ yearText d.year, InBound c := by
    intro c member
    unfold yearText at member
    split at member
    · exact padded_ member
    · rcases List.mem_cons.mp member with rfl | member
      · exact dash
      · exact padded_ member
  intro c member
  simp only [written, List.mem_append, List.mem_cons] at member
  rcases member with (member | rfl | member) | rfl | member
  · exact year c member
  · exact dash
  · exact padded_ member
  · exact dash
  · exact padded_ member

theorem Time.inBound_written (t : Time) : ∀ c ∈ t.written, InBound c := by
  have padded_ : ∀ {width n c}, c ∈ padded width n → InBound c := fun member =>
    .of_isDigit (isDigit_of_mem_padded member)
  have colon : InBound ':' := .inr (by decide)
  intro c member
  simp only [written, List.mem_append, List.mem_cons] at member
  rcases member with ((member | rfl | member) | rfl | member) | member
  · exact padded_ member
  · exact colon
  · exact padded_ member
  · exact colon
  · exact padded_ member
  · split at member
    · cases member
    · rcases List.mem_cons.mp member with rfl | member
      · exact .inr (by decide)
      · exact padded_ member

theorem inBound_dateTime (d : Date) (t : Time) : ∀ c ∈ d.written ++ 'T' :: t.written, InBound c := by
  intro c member
  rw [List.mem_append, List.mem_cons] at member
  rcases member with inDate | rfl | inTime
  · exact d.inBound_written c inDate
  · exact .inl (by decide +kernel)
  · exact t.inBound_written c inTime

/-- A date that exists, in a year of four digits. -/
def Date.IsOrdinary (d : Date) : Prop :=
  0 ≤ d.year ∧ d.year ≤ 9999 ∧ d.fault? = none

theorem Date.daysIn_le (year : Int) (month : Nat) : daysIn year month ≤ 31 := by
  unfold daysIn
  split
  all_goals first | omega | (split <;> omega)

theorem Date.fault?_eq_none {d : Date} (exists_ : d.fault? = none) : d.month ≤ 12 ∧ d.day ≤ 31 := by
  unfold fault? at exists_
  split at exists_
  · cases exists_
  · split at exists_
    · cases exists_
    · have := daysIn_le d.year d.month
      omega

theorem Time.fault?_eq_none {t : Time} (exists_ : t.fault? = none) :
    t.hours < 24 ∧ t.minutes < 60 ∧ t.seconds < 60 ∧ t.milliseconds < 1000 := by
  unfold fault? at exists_
  repeat' split at exists_
  all_goals first | omega | cases exists_

/-- A date of four-digit years has the shape that it is written in. -/
theorem Date.shape?_written {d : Date} (ordinary : d.IsOrdinary) (rest : List Char) :
    shape? (d.written ++ rest) = some (d, rest) := by
  obtain ⟨year, month, day⟩ := d
  obtain ⟨nonneg, small, exists_⟩ := ordinary
  obtain ⟨monthFits, dayFits⟩ := fault?_eq_none exists_
  obtain ⟨n, rfl⟩ := Int.eq_ofNat_of_zero_le nonneg
  simp only at small monthFits dayFits
  have atYear := numberIn?_padded 4 4 (by decide) (by decide) (by omega : n < 10 ^ 4)
  have atMonth := numberIn?_padded 1 2 (by decide) (by decide) (by omega : month < 10 ^ 2)
  have atDay := numberIn?_padded 1 2 (by decide) (by decide) (by omega : day < 10 ^ 2)
  have dash : ∀ cs, after? '-' ('-' :: cs) = some cs := fun cs => rfl
  simp only [written, yearText, List.append_assoc, List.cons_append, shape?, atYear, atMonth, atDay, dash,
    Option.bind_eq_bind, Option.bind_some, Option.pure_def]

/-- A date that exists is read back from what it is written as. -/
theorem Date.read_text {d : Date} (ordinary : d.IsOrdinary) : Date.read d.text = .ok (some d) := by
  have shape := shape?_written ordinary []
  rw [List.append_nil] at shape
  simp only [Date.read, text, String.toList_ofList, shape, checked, ordinary.2.2, Except.map]

theorem Time.shape?_written {t : Time} (exists_ : t.fault? = none) :
    shape? t.written = some (t, []) := by
  obtain ⟨hours, minutes, seconds, milliseconds⟩ := t
  obtain ⟨hoursFit, minutesFit, secondsFit, millisecondsFit⟩ := fault?_eq_none exists_
  simp only at hoursFit minutesFit secondsFit millisecondsFit
  have atHours := numberIn?_padded 1 2 (by decide) (by decide) (by omega : hours < 10 ^ 2)
  have atMinutes := numberIn?_padded 1 2 (by decide) (by decide) (by omega : minutes < 10 ^ 2)
  have atSeconds := numberIn?_padded 1 2 (by decide) (by decide) (by omega : seconds < 10 ^ 2)
  have colon : ∀ cs, after? ':' (':' :: cs) = some cs := fun cs => rfl
  simp only [written, List.append_assoc, List.cons_append, shape?, seconds?, atHours, atMinutes, atSeconds,
    colon, Option.bind_eq_bind, Option.bind_some, Option.pure_def]
  by_cases whole : milliseconds = 0
  · simp only [whole, if_true]
    rfl
  · have taken := takeDigits_padded 3 (by decide) (by omega : milliseconds < 10 ^ 3) []
    have length := length_padded (by decide) (by omega : milliseconds < 10 ^ 3)
    have nonempty : padded 3 milliseconds ≠ [] := by
      rw [← List.length_pos_iff, length]
      decide
    have fraction : fraction? ('.' :: padded 3 milliseconds) = some (milliseconds, []) := by
      rw [List.append_nil] at taken
      simp [fraction?, after?, taken, nonempty, length, numberOf_padded, tenTo]
    simp only [whole, if_false, fraction]

theorem Time.read_text {t : Time} (exists_ : t.fault? = none) : Time.read t.text = .ok (some t) := by
  simp only [Time.read, text, String.toList_ofList, shape?_written exists_, checked, exists_, Except.map]

theorem readDateTime_text {d : Date} {t : Time} (ordinary : d.IsOrdinary) (exists_ : t.fault? = none) :
    readDateTime (dateTimeText d t) = .ok (some (d, t)) := by
  have shape : dateTimeShape? (d.written ++ 'T' :: t.written) = some ((d, t), []) := by
    simp [dateTimeShape?, Date.shape?_written ordinary, after?, Time.shape?_written exists_]
  simp only [readDateTime, dateTimeText, String.toList_ofList, shape, Date.checked, ordinary.2.2,
    Time.checked, exists_]
  rfl

end Sift

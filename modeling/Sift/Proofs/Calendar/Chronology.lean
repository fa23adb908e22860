import Mathlib.Data.List.Lex
import Mathlib.Data.String.Basic
import Sift.Filter.Comparison
import Sift.Proofs.Calendar.Form

namespace Sift

/-- Texts compare as lists of characters do. -/
theorem compareText_eq_lt_iff {as bs : List Char} : compareText as bs = .lt ↔ as < bs := by
  induction as generalizing bs with
  | nil => cases bs <;> simp [compareText]
  | cons a as ih =>
    cases bs with
    | nil => simp [compareText]
    | cons b bs =>
      rw [compareText, List.cons_lt_cons_iff]
      rcases lt_trichotomy a b with before | rfl | behind
      · simp [before]
      · simp [ih]
      · simp [behind, behind.not_gt, behind.ne']

theorem compareText_swap (as bs : List Char) : (compareText as bs).swap = compareText bs as := by
  induction as generalizing bs with
  | nil => cases bs <;> rfl
  | cons a as ih =>
    cases bs with
    | nil => rfl
    | cons b bs =>
      simp only [compareText]
      rcases lt_trichotomy a b with before | rfl | behind
      · simp [before, before.not_gt]
      · simp [ih]
      · simp [behind, behind.not_gt]

theorem compareText_eq_gt_iff {as bs : List Char} : compareText as bs = .gt ↔ bs < as := by
  rw [← compareText_eq_lt_iff, ← compareText_swap bs as]
  cases compareText bs as <;> decide

/-- Of texts of one length, what comes after decides only where they are equal. -/
theorem append_lt_append {α : Type} [LinearOrder α] {front front' : List α} (same : front.length = front'.length)
    (as bs : List α) : front ++ as < front' ++ bs ↔ front < front' ∨ front = front' ∧ as < bs := by
  induction front generalizing front' with
  | nil =>
    obtain rfl := List.length_eq_zero_iff.mp same.symm
    simp
  | cons a front ih =>
    cases front' with
    | nil => cases same
    | cons b front' =>
      rw [List.cons_append, List.cons_append, List.cons_lt_cons_iff, List.cons_lt_cons_iff,
        ih (Nat.succ.inj same), List.cons.injEq, and_or_left, or_assoc, and_assoc]

/-- What is counted in whole units comes first, what is left over decides between equals. -/
theorem units_lt_iff {unit m n : Nat} (below : m < unit) (below' : n < unit) (a b : Nat) :
    unit * a + m < unit * b + n ↔ a < b ∨ a = b ∧ m < n := by
  rcases lt_trichotomy a b with before | rfl | behind
  · have step : unit * (a + 1) ≤ unit * b := Nat.mul_le_mul_left unit before
    rw [Nat.mul_succ] at step
    omega
  · omega
  · have step : unit * (b + 1) ≤ unit * a := Nat.mul_le_mul_left unit behind
    rw [Nat.mul_succ] at step
    omega

/-- Of two numbers with as many digits, the lesser one has the lesser first digit in which they differ. -/
theorem lt_iff_numberOf_lt {cs ds : List Char} (digits : ∀ c ∈ cs, c.isDigit = true)
    (digits' : ∀ d ∈ ds, d.isDigit = true) (same : cs.length = ds.length) :
    cs < ds ↔ numberOf cs < numberOf ds := by
  induction cs generalizing ds with
  | nil =>
    obtain rfl := List.length_eq_zero_iff.mp same.symm
    simp
  | cons c cs ih =>
    cases ds with
    | nil => cases same
    | cons d ds =>
      obtain ⟨digit, further⟩ := List.forall_mem_cons.mp digits
      obtain ⟨digit', further'⟩ := List.forall_mem_cons.mp digits'
      have length : cs.length = ds.length := Nat.succ.inj same
      have below := numberOf_lt further
      have below' := numberOf_lt further'
      have bounds := digit_bounds digit
      have bounds' := digit_bounds digit'
      have order : c < d ↔ c.toNat - 48 < d.toNat - 48 := by
        have onNumbers : c < d ↔ c.toNat < d.toNat := Iff.rfl
        rw [onNumbers]
        omega
      have equal : c = d ↔ c.toNat - 48 = d.toNat - 48 := by
        rw [← Char.toNat_inj]
        omega
      rw [length] at below
      rw [List.cons_lt_cons_iff, ih further further' length, numberOf_cons, numberOf_cons, length,
        units_lt_iff below below', order, equal]

theorem padded_inj {width m n : Nat} : padded width m = padded width n ↔ m = n := by
  refine ⟨fun same => ?_, congrArg _⟩
  rw [← numberOf_padded width m, same, numberOf_padded]

/-- Numbers of equal width at the front of two texts decide which is the lesser one. -/
theorem padded_append_lt (width m n : Nat) (positive : 0 < width) (fits : m < 10 ^ width) (fits' : n < 10 ^ width)
    (as bs : List Char) : padded width m ++ as < padded width n ++ bs ↔ m < n ∨ m = n ∧ as < bs := by
  have length := length_padded positive fits
  have length' := length_padded positive fits'
  have digits : ∀ k, ∀ c ∈ padded width k, c.isDigit = true := fun _ _ => isDigit_of_mem_padded
  rw [append_lt_append (length.trans length'.symm), padded_inj,
    lt_iff_numberOf_lt (digits m) (digits n) (length.trans length'.symm), numberOf_padded, numberOf_padded]

/-- The parts of a date, the greatest first. -/
def Date.parts (d : Date) : List Int :=
  [d.year, d.month, d.day]

/-- The parts of a time, the greatest first. -/
def Time.parts (t : Time) : List Int :=
  [t.hours, t.minutes, t.seconds, t.milliseconds]

/-- Numbers are written with as many digits in every date of four-digit years, so its text has its order. -/
theorem Date.written_append_lt {d e : Date} (ordinary : d.IsOrdinary) (ordinary' : e.IsOrdinary)
    (as bs : List Char) : d.written ++ as < e.written ++ bs ↔ d.parts < e.parts ∨ d.parts = e.parts ∧ as < bs := by
  obtain ⟨year, month, day⟩ := d
  obtain ⟨year', month', day'⟩ := e
  obtain ⟨nonneg, small, exists_⟩ := ordinary
  obtain ⟨nonneg', small', exists_'⟩ := ordinary'
  obtain ⟨monthFits, dayFits⟩ := fault?_eq_none exists_
  obtain ⟨monthFits', dayFits'⟩ := fault?_eq_none exists_'
  simp only at nonneg small monthFits dayFits nonneg' small' monthFits' dayFits'
  obtain ⟨y, rfl⟩ := Int.eq_ofNat_of_zero_le nonneg
  obtain ⟨y', rfl⟩ := Int.eq_ofNat_of_zero_le nonneg'
  have atYear := padded_append_lt 4 y y' (by decide) (by omega) (by omega)
  have atMonth := padded_append_lt 2 month month' (by decide) (by omega) (by omega)
  have atDay := padded_append_lt 2 day day' (by decide) (by omega) (by omega)
  simp only [written, yearText, List.append_assoc, List.cons_append, atYear, atMonth, atDay,
    List.cons_lt_cons_self, parts, List.cons_lt_cons_iff, Int.ofNat_lt, Int.ofNat_inj, List.cons.injEq,
    List.not_lt_nil, and_true, and_false, or_false, and_or_left, or_assoc, and_assoc]

/-- The text of no fraction is a prefix of every other one, and lesser than each of them. -/
theorem fraction_lt {m n : Nat} (fits : m < 1000) (fits' : n < 1000) :
    (if m = 0 then [] else '.' :: padded 3 m) < (if n = 0 then [] else '.' :: padded 3 n) ↔ m < n := by
  have filled := padded_append_lt 3 m n (by decide) fits fits' [] []
  simp only [List.append_nil, List.not_lt_nil, and_false, or_false] at filled
  by_cases whole : m = 0
  · by_cases whole' : n = 0
    · simp [whole, whole']
    · simp [whole, whole', Nat.pos_of_ne_zero whole']
  · by_cases whole' : n = 0
    · simp [whole, whole']
    · rw [if_neg whole, if_neg whole', List.cons_lt_cons_self, filled]

/-- A fraction of a second is at the end of a time, and is left out if there is none. -/
theorem Time.written_lt {t u : Time} (exists_ : t.fault? = none) (exists_' : u.fault? = none) :
    t.written < u.written ↔ t.parts < u.parts := by
  obtain ⟨hours, minutes, seconds, milliseconds⟩ := t
  obtain ⟨hours', minutes', seconds', milliseconds'⟩ := u
  obtain ⟨hoursFit, minutesFit, secondsFit, millisecondsFit⟩ := fault?_eq_none exists_
  obtain ⟨hoursFit', minutesFit', secondsFit', millisecondsFit'⟩ := fault?_eq_none exists_'
  simp only at hoursFit minutesFit secondsFit millisecondsFit hoursFit' minutesFit' secondsFit' millisecondsFit'
  have atHours := padded_append_lt 2 hours hours' (by decide) (by omega) (by omega)
  have atMinutes := padded_append_lt 2 minutes minutes' (by decide) (by omega) (by omega)
  have atSeconds := padded_append_lt 2 seconds seconds' (by decide) (by omega) (by omega)
  have atFraction := fraction_lt (by omega : milliseconds < 1000) (by omega : milliseconds' < 1000)
  simp only [written, List.append_assoc, List.cons_append, atHours, atMinutes, atSeconds, atFraction,
    List.cons_lt_cons_self, parts, List.cons_lt_cons_iff, Int.ofNat_lt, Int.ofNat_inj, List.not_lt_nil, and_false,
    or_false]

namespace CalendarForm

/-- The numbers of a literal, the greatest unit first. Their order is the chronological one. -/
def parts : (form : CalendarForm) → form.Literal → List Int
  | date, d => Date.parts d
  | time, t => Time.parts t
  | dateTime, (d, t) => Date.parts d ++ Time.parts t

/-- A literal is known by its numbers. -/
theorem parts_inj {form : CalendarForm} {a b : form.Literal} : form.parts a = form.parts b ↔ a = b := by
  refine ⟨fun same => ?_, congrArg _⟩
  cases form with
  | date =>
    obtain ⟨year, month, day⟩ := a
    obtain ⟨year', month', day'⟩ := b
    simp only [parts, Date.parts, List.cons.injEq, Int.ofNat_inj, and_true] at same
    obtain ⟨rfl, rfl, rfl⟩ := same
    rfl
  | time =>
    obtain ⟨hours, minutes, seconds, milliseconds⟩ := a
    obtain ⟨hours', minutes', seconds', milliseconds'⟩ := b
    simp only [parts, Time.parts, List.cons.injEq, Int.ofNat_inj, and_true] at same
    obtain ⟨rfl, rfl, rfl, rfl⟩ := same
    rfl
  | dateTime =>
    obtain ⟨⟨year, month, day⟩, hours, minutes, seconds, milliseconds⟩ := a
    obtain ⟨⟨year', month', day'⟩, hours', minutes', seconds', milliseconds'⟩ := b
    simp only [parts, Date.parts, Time.parts, List.cons_append, List.nil_append, List.cons.injEq, Int.ofNat_inj,
      and_true] at same
    obtain ⟨rfl, rfl, rfl, rfl, rfl, rfl, rfl⟩ := same
    rfl

/-- The written forms of ordinary literals are in chronological order. -/
theorem written_lt {form : CalendarForm} {a b : form.Literal} (ordinary : form.IsOrdinary a)
    (ordinary' : form.IsOrdinary b) : form.written a < form.written b ↔ form.parts a < form.parts b := by
  cases form with
  | date =>
    have order := Date.written_append_lt ordinary ordinary' [] []
    simp only [List.append_nil, List.not_lt_nil, and_false, or_false] at order
    exact order
  | time => exact Time.written_lt ordinary ordinary'
  | dateTime =>
    obtain ⟨d, t⟩ := a
    obtain ⟨d', t'⟩ := b
    have sameLength : d.parts.length = d'.parts.length := rfl
    have order := Date.written_append_lt ordinary.1 ordinary'.1 ('T' :: t.written) ('T' :: t'.written)
    rw [List.cons_lt_cons_self, Time.written_lt ordinary.2 ordinary'.2, ← append_lt_append sameLength] at order
    exact order

end CalendarForm

end Sift

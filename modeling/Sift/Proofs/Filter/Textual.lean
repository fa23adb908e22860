import Sift.Proofs.Binary64.Integers
import Sift.Proofs.Calendar.Written
import Sift.Proofs.Filter.Acceptance
import Sift.Proofs.Filter.Wire
import Sift.Proofs.Grammar.Printing

namespace Sift

/-- A text that begins as a number does and breaks off as no number does: after some digits there is a
dash or a colon. No written date or time begins otherwise. -/
def BreaksOff (cs : List Char) : Prop :=
  ∃ negative d ds c rest, takeSign cs = (negative, d :: ds ++ c :: rest) ∧
    (∀ x ∈ d :: ds, x.isDigit = true) ∧ (c = '-' ∨ c = ':')

namespace BreaksOff

theorem of_digits {d : Char} {ds : List Char} (digits : ∀ x ∈ d :: ds, x.isDigit = true) {c : Char}
    (breaks : c = '-' ∨ c = ':') (rest : List Char) : BreaksOff (d :: ds ++ c :: rest) :=
  ⟨false, d, ds, c, rest, takeSign_of_digit (digits d (List.mem_cons_self ..)) (ds ++ c :: rest), digits, breaks⟩

theorem of_dash {d : Char} {ds : List Char} (digits : ∀ x ∈ d :: ds, x.isDigit = true) {c : Char}
    (breaks : c = '-' ∨ c = ':') (rest : List Char) : BreaksOff ('-' :: d :: ds ++ c :: rest) :=
  ⟨true, d, ds, c, rest, rfl, digits, breaks⟩

theorem readUnsigned?_eq_none {ds : List Char} (digits : ∀ x ∈ ds, x.isDigit = true) {c : Char}
    (breaks : c = '-' ∨ c = ':') (rest : List Char) (negative : Bool) :
    Binary64.readUnsigned? negative (ds ++ c :: rest) = none := by
  have whole : (ds ++ c :: rest).takeWhile Char.isDigit = ds := by
    rw [List.takeWhile_append_of_pos digits]
    rcases breaks with rfl | rfl <;> exact List.append_nil ds
  have left : (ds ++ c :: rest).dropWhile Char.isDigit = c :: rest := by
    rw [List.dropWhile_append_of_pos digits]
    rcases breaks with rfl | rfl <;> rfl
  unfold Binary64.readUnsigned?
  rw [whole, left]
  rcases breaks with rfl | rfl <;> simp [takeFraction, exponent?]

variable {cs : List Char} (breaksOff : BreaksOff cs)

include breaksOff

/-- What breaks off spells no number. -/
theorem read?_eq_none : Binary64.read? cs = none := by
  obtain ⟨negative, d, ds, c, rest, signed, digits, breaks⟩ := breaksOff
  rw [Binary64.read?_of_digit signed (digits d (List.mem_cons_self ..))]
  exact readUnsigned?_eq_none digits breaks rest negative

theorem readBool?_eq_none : readBool? (String.ofList cs) = none := by
  obtain ⟨negative, d, ds, c, rest, signed, digits, breaks⟩ := breaksOff
  have noWord : ∀ first others, takeSign (first :: others) = (false, first :: others) →
      first.isDigit = false → String.ofList cs ≠ String.ofList (first :: others) := by
    intro first others unsigned letter same
    rw [String.ofList_injective same, unsigned] at signed
    have heads := List.head_eq_of_cons_eq (Prod.mk.inj signed).2
    rw [heads, digits d (List.mem_cons_self ..)] at letter
    cases letter
  unfold readBool?
  split
  · rename_i true_
    exact absurd true_ (noWord 't' ['r', 'u', 'e'] rfl rfl)
  · rename_i false_
    exact absurd false_ (noWord 'f' ['a', 'l', 's', 'e'] rfl rfl)
  · rfl

end BreaksOff

theorem exists_padded_eq_cons (width n : Nat) :
    ∃ d ds, padded width n = d :: ds ∧ ∀ x ∈ d :: ds, x.isDigit = true := by
  have nonempty : padded width n ≠ [] := List.append_ne_nil_of_right_ne_nil _ Nat.toDigits_ne_nil
  obtain ⟨d, ds, split⟩ := List.exists_cons_of_ne_nil nonempty
  exact ⟨d, ds, split, fun x member => isDigit_of_mem_padded (split ▸ member)⟩

/-- What a date is written as breaks off behind its year. -/
theorem Date.breaksOff_written (d : Date) (rest : List Char) : BreaksOff (d.written ++ rest) := by
  simp only [written, List.append_assoc, List.cons_append]
  unfold yearText
  split
  · rename_i n _
    obtain ⟨y, ys, year, digits⟩ := exists_padded_eq_cons 4 n
    rw [year]
    exact .of_digits digits (.inl rfl) _
  · rename_i n _
    obtain ⟨y, ys, year, digits⟩ := exists_padded_eq_cons 3 (n + 1)
    rw [year]
    exact .of_dash digits (.inl rfl) _

theorem Time.breaksOff_written (t : Time) : BreaksOff t.written := by
  obtain ⟨h, hs, hours, digits⟩ := exists_padded_eq_cons 2 t.hours
  simp only [written, List.append_assoc, List.cons_append]
  rw [hours]
  exact .of_digits digits (.inr rfl) _

theorem InBound.not_blank {c : Char} (inBound : InBound c) : isBlank c = false := by
  rcases inBound with word | symbol
  · exact Kind.isBlank_of_isAlphanumeric word
  · have each : ['-', ':', '_', '.'].all (!isBlank ·) = true := by decide
    simpa using List.all_eq_true.mp each c symbol

theorem numberOfText?_eq_none {cs : List Char} (inBound : ∀ c ∈ cs, InBound c) (breaksOff : BreaksOff cs) :
    numberOfText? (String.ofList cs) = none := by
  rw [numberOfText?, String.toList_ofList, trim_of_solid fun c member => (inBound c member).not_blank]
  exact breaksOff.read?_eq_none

namespace Operand

/-- A date or time is neither a number nor a truth value, and so is its written form. -/
theorem untyped_textual (operand : Operand) :
    operand.textual.number? = operand.number? ∧ operand.textual.bool? = operand.bool? := by
  cases operand with
  | date d =>
    have breaksOff := d.breaksOff_written []
    rw [List.append_nil] at breaksOff
    exact ⟨numberOfText?_eq_none d.inBound_written breaksOff, breaksOff.readBool?_eq_none⟩
  | time t =>
    exact ⟨numberOfText?_eq_none t.inBound_written t.breaksOff_written, t.breaksOff_written.readBool?_eq_none⟩
  | dateTime d t =>
    have breaksOff := d.breaksOff_written ('T' :: t.written)
    exact ⟨numberOfText?_eq_none (inBound_dateTime d t) breaksOff, breaksOff.readBool?_eq_none⟩
  | _ => exact ⟨rfl, rfl⟩

theorem text_textual (operand : Operand) : operand.textual.text = operand.text := by
  cases operand <;> rfl

end Operand

theorem Json.compareString?_textual (text : String) (operand : Operand) :
    compareString? text operand.textual = compareString? text operand := by
  cases operand <;>
    simp only [compareString?, Operand.textual, Operand.isNumber, Operand.text, Bool.false_eq_true, if_false]

/-- A value compares with a date or a time as with its text. -/
theorem Json.compare?_textual (json : Json) (operand : Operand) :
    json.compare? operand.textual = json.compare? operand := by
  obtain ⟨sameNumber, sameBool⟩ := operand.untyped_textual
  cases json with
  | bool b => simp only [compare?, sameBool]
  | number n => simp only [compare?, sameNumber]
  | string text => exact compareString?_textual text operand
  | _ => rfl

theorem Operator.holds_textual (operator : Operator) (json : Json) (operand : Operand) :
    operator.holds json operand.textual = operator.holds json operand := by
  have sameText : ∀ condition, holdsText condition json operand.textual = holdsText condition json operand := by
    intro condition
    simp only [holdsText, operand.text_textual]
  cases operator <;> simp only [holds, json.compare?_textual, sameText]

/-- A test is passed by the same documents once its dates and times are text. -/
theorem Test.accepts_textual (t : Test) (document : Json) : t.textual.accepts document = t.accepts document := by
  obtain ⟨field, operator, operand⟩ := t
  cases operand with
  | none => rfl
  | some operand => simp only [Test.textual, Test.accepts, Option.map_some, operator.positive.holds_textual]

namespace Filter

theorem textuals_eq_map (fs : List Filter) : textuals fs = fs.map textual := by
  induction fs with
  | nil => rfl
  | cons f fs ih => simp only [textuals, ih, List.map_cons]

/-- A filter is met by the same documents once its dates and times are text. -/
theorem accepts_textual (f : Filter) (document : Json) :
    f.textual.accepts document = f.accepts document := by
  induction f with
  | always => rfl
  | test t => exact t.accepts_textual document
  | join logic parts ih =>
    rw [textual, textuals_eq_map]
    cases logic with
    | and =>
      rw [accepts_join_and, accepts_join_and, List.all_map, Bool.eq_iff_iff, List.all_eq_true, List.all_eq_true]
      exact forall₂_congr fun part member => by rw [Function.comp_apply, ih part member]
    | or =>
      rw [accepts_join_or, accepts_join_or, List.any_map, Bool.eq_iff_iff, List.any_eq_true, List.any_eq_true]
      exact exists_congr fun part => and_congr_right fun member => by
        rw [Function.comp_apply, ih part member]
  | not inner ih => simp only [textual, accepts, ih]

/-- Every query compiles to a filter that the wire can hold. -/
theorem isWireValid_of_compile {resolver : Resolver} {text : String} {f : Filter}
    (compiled : Resolver.compile resolver text = .ok f) : f.WellFormed Test.IsWireValid :=
  (isExact_of_compile compiled).mono fun _ => Test.IsExact.isWireValid

/-- A filter that is sent over the wire arrives with its dates and times as text, and is met by the
documents by which it was met. Every filter that the wire can hold may be sent, so every compiled query
may. -/
theorem wire_keeps_selection :
    (∀ f : Filter, f.WellFormed Test.IsWireValid →
      ofJson f.toJson = .ok f.textual ∧ ∀ document, f.textual.accepts document = f.accepts document) ∧
    ∀ (resolver : Resolver) text f, Resolver.compile resolver text = .ok f →
      f.WellFormed Test.IsWireValid := by
  refine ⟨fun f valid => ?_, fun resolver text f compiled => isWireValid_of_compile compiled⟩
  obtain ⟨w, shape, stands⟩ := valid.shape .ascending
  exact ⟨ofJson_eq_ok.mpr ⟨w, shape, stands⟩, f.accepts_textual⟩

/-- A date that comes back as text selects what it selected before. -/
theorem wire_keeps_selection_since :
    Resolver.compile Target.anything.resolve? "born=[1987-11-06 TO *]" =
      .ok (.test ⟨"born", .greaterOrEqual, some (.date ⟨1987, 11, 6⟩)⟩) ∧
    ofJson (toJson (.test ⟨"born", .greaterOrEqual, some (.date ⟨1987, 11, 6⟩)⟩)) =
      .ok (.test ⟨"born", .greaterOrEqual, some (.string "1987-11-06")⟩) ∧
    ∀ document, accepts document (.test ⟨"born", .greaterOrEqual, some (.string "1987-11-06")⟩) =
      accepts document (.test ⟨"born", .greaterOrEqual, some (.date ⟨1987, 11, 6⟩)⟩) := by
  have named : ∀ name ∈ ["born"], IsName name := by
    intro name member
    rw [List.mem_singleton.mp member]
    have letters : ∀ c ∈ ['o', 'r', 'n'], isAlphabetic c = true := by
      refine List.forall_mem_cons.mpr ⟨by decide, List.forall_mem_cons.mpr ⟨by decide, ?_⟩⟩
      exact List.forall_mem_singleton.mpr (by decide)
    exact ⟨'b', ['o', 'r', 'n'], rfl, .inl (by decide), fun c inside => .inl (letters c inside)⟩
  have ordinary : Date.IsOrdinary ⟨1987, 11, 6⟩ := ⟨by decide, by decide, rfl⟩
  obtain ⟨c, text, criterion⟩ : ∃ c : CanonicalCriterion, c.text = "born=[1987-11-06 TO *]" ∧
      c.criterion = ⟨⟨["born"]⟩, .interval (.date ⟨1987, 11, 6⟩) .unbounded⟩ :=
    ⟨⟨⟨["born"]⟩, List.cons_ne_nil _ _, named,
      .first (.first (.interval (.date ⟨1987, 11, 6⟩) .unbounded ordinary trivial))⟩, rfl, rfl⟩
  obtain ⟨spelled, clear⟩ := c.scans.scan
  rw [text, criterion] at spelled
  rw [text] at clear
  have read : Criterion.readList "born=[1987-11-06 TO *]" =
      .ok [⟨⟨["born"]⟩, .interval (.date ⟨1987, 11, 6⟩) .unbounded⟩] :=
    readText_eq_ok.mpr ⟨clear, (CriteriaSpell.last spelled).read⟩
  have compiled : Resolver.compile Target.anything.resolve? "born=[1987-11-06 TO *]" =
      .ok (.test ⟨"born", .greaterOrEqual, some (.date ⟨1987, 11, 6⟩)⟩) := by
    have filled : isBlankText "born=[1987-11-06 TO *]" = false := by decide
    rw [Resolver.compile, filled, read]
    rfl
  exact ⟨compiled, wire_keeps_selection.1 _ (wire_keeps_selection.2 _ _ _ compiled)⟩

end Filter

end Sift

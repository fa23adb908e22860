import Sift.Proofs.Filter.Collections
import Sift.Proofs.Filter.Textual
import Sift.Proofs.Sorting.Piece
import Sift.Proofs.Target.Resolution
import Sift.Proofs.Text.Decimals

namespace Sift

namespace Resolver

variable {resolver : Resolver} {name : String}

/-- A query that is one interval is compiled to its filter, if the property goes by its own name. -/
theorem compile_interval (isName : IsName name) (kept : resolver ⟨[name]⟩ = some name) {min max : Boundary}
    (lower : min.IsPrintable) (upper : max.IsPrintable) :
    ∃ f, compile resolver
        (name ++ "=[" ++ String.ofList min.written ++ " TO " ++ String.ofList max.written ++ "]") = .ok f ∧
      ∀ document, f.accepts document = ((Expression.interval min max).filter name).accepts document := by
  obtain ⟨c, text, criterion⟩ : ∃ c : CanonicalCriterion,
      c.text = name ++ "=[" ++ String.ofList min.written ++ " TO " ++ String.ofList max.written ++ "]" ∧
        c.criterion = ⟨⟨[name]⟩, .interval min max⟩ := by
    refine ⟨⟨⟨[name]⟩, List.cons_ne_nil _ _, List.forall_mem_singleton.mpr isName,
      .first (.first (.interval min max lower upper))⟩, String.toList_injective ?_, rfl⟩
    simp [CanonicalCriterion.text, PropertyPath.dotted, joinTexts, joinWith, Canonical.written]
  have read := c.readList_text
  rw [text, criterion] at read
  have renamed : resolveCriteria resolver [⟨⟨[name]⟩, .interval min max⟩] =
      .ok [⟨.ofDotted name, .interval min max⟩] := by
    refine resolveCriteria_eq_ok.mpr (.cons ⟨.ofDotted name, ?_, rfl⟩ .nil)
    rw [resolve, kept]
  refine ⟨Criterion.filterAll [⟨.ofDotted name, .interval min max⟩], ?_, fun document => ?_⟩
  · rw [compile_of_read read, renamed]
    rfl
  rw [Criterion.filterAll, Filter.accepts_joined_and, List.map_singleton, List.all_cons, List.all_nil,
    Bool.and_true, Criterion.filter, PropertyPath.dotted_ofDotted]

end Resolver

/-- Integers are words, so a bound that is one is text. -/
theorem isWord_decimalText (n : Int) : isWord (decimalText n) = true := by
  have body : ∀ m, (!(digits m).isEmpty && (digits m).all fun c => isAlphanumeric c || c == '_' || c == '.') =
      true := by
    intro m
    have filled : digits m ≠ [] := Nat.toDigits_ne_nil
    have inWord : ∀ c ∈ digits m, isAlphanumeric c = true := fun c member => by
      simp [isAlphanumeric, isNumeric, isDigit_of_mem_digits member]
    simp +contextual [filled, inWord]
  rw [isWord, toList_decimalText]
  cases n with
  | ofNat n =>
    obtain ⟨d, ds, split, digit, -⟩ := exists_digits_eq_cons n
    have noDash : d ≠ '-' := by
      rintro rfl
      cases digit
    have whole := body n
    rw [split] at whole
    rw [integerText, split]
    split
    · rename_i dash
      exact absurd (List.head_eq_of_cons_eq dash) noDash
    · exact whole
  | negSucc n => exact body (n + 1)

theorem Operand.number?_decimalText {n : Int} (fits : n.natAbs < 2 ^ 53) :
    number? (.string (decimalText n)) = some (.ofInt n) := by
  have inBound := (inBound_of_isWord (isWord_decimalText n)).2
  have short : (digits n.natAbs).length ≤ 16 :=
    (Nat.length_toDigits_le_iff (by decide) (by decide)).mpr (fits.trans (by decide))
  rw [number?, numberOfText?, trim_of_solid fun c member => (inBound c member).not_blank, toList_decimalText]
  exact Binary64.read?_integerText (short.trans (by decide))

namespace Json

/-- An integer of 53 bits is the same number in JSON. -/
theorem ofInt_of_fits {n : Int} (fits : n.natAbs < 2 ^ 53) : ∃ inRange, ofInt n = number (.int n inRange) :=
  ⟨by omega, dif_pos (by omega)⟩

/-- A number compares with the text of one by number. -/
theorem compare?_ofInt {a b : Int} (fits : a.natAbs < 2 ^ 53) (fits' : b.natAbs < 2 ^ 53) :
    (ofInt a).compare? (.string (decimalText b)) = some (Ord.compare a b) := by
  obtain ⟨inRange, isNumber⟩ := ofInt_of_fits fits
  rw [isNumber, compare?, Operand.number?_decimalText fits', Option.bind_some, JsonNumber.toBinary64,
    Binary64.compare?_ofInt fits fits']

/-- The text of a number compares with that of another as text. -/
theorem compare?_decimalText (a b : Int) :
    (string (decimalText a)).compare? (.string (decimalText b)) =
      some (compareText (integerText a) (integerText b)) := by
  simp [compare?, compareString?, Operand.isNumber, Operand.text, toList_decimalText]

end Json

/-- Orders that agree on what is equal are on the same side of a bound only if they are the same. -/
theorem same_side_iff {x y : Ordering} (equal : x = .eq ↔ y = .eq) :
    ((x ∈ [.gt, .eq] ↔ y ∈ [.gt, .eq]) ↔ x = y) ∧ ((x ∈ [.lt, .eq] ↔ y ∈ [.lt, .eq]) ↔ x = y) := by
  revert x y
  decide

namespace Boundary

/-- A bound that is text is met by a single value in one of the orders it takes. -/
theorem met_constant {text : String} {json : Json} {order : Ordering} (scalar : json.isScalar = true)
    (compared : json.compare? (.string text) = some order) (orders : List Ordering) :
    (constant text).Met orders json.elements ↔ order ∈ orders := by
  rw [Json.elements_of_isScalar scalar]
  simp [Met, Operand.MetBy, compared]

variable {a b : Int}

theorem met_number (fits : a.natAbs < 2 ^ 53) (fits' : b.natAbs < 2 ^ 53) (orders : List Ordering) :
    (constant (decimalText b)).Met orders (Json.ofInt a).elements ↔ compare a b ∈ orders := by
  obtain ⟨inRange, isNumber⟩ := Json.ofInt_of_fits fits
  exact met_constant (by rw [isNumber]; rfl) (Json.compare?_ofInt fits fits') orders

theorem met_text (a b : Int) (orders : List Ordering) :
    (constant (decimalText b)).Met orders (Json.string (decimalText a)).elements ↔
      compareText (integerText a) (integerText b) ∈ orders :=
  met_constant rfl (Json.compare?_decimalText a b) orders

end Boundary

namespace Resolver

variable {resolver : Resolver} {name : String}

/-- An integer as a bound selects numbers by their order. Their texts it selects by the order of texts, so that
a number and its text are answered alike just if the number and the bound stand in the order of their texts. -/
theorem compile_bound_selects (isName : IsName name) (kept : resolver ⟨[name]⟩ = some name) {a b : Int}
    (fits : a.natAbs < 2 ^ 53) (fits' : b.natAbs < 2 ^ 53) :
    ∃ atLeast atMost,
      compile resolver (name ++ "=[" ++ decimalText b ++ " TO *]") = .ok atLeast ∧
      compile resolver (name ++ "=[* TO " ++ decimalText b ++ "]") = .ok atMost ∧
      (atLeast.accepts (.object [(name, .ofInt a)]) = true ↔ b ≤ a) ∧
      (atMost.accepts (.object [(name, .ofInt a)]) = true ↔ a ≤ b) ∧
      (atLeast.accepts (.object [(name, .string (decimalText a))]) =
        atLeast.accepts (.object [(name, .ofInt a)]) ↔ KeepsOrder a b) ∧
      (atMost.accepts (.object [(name, .string (decimalText a))]) =
        atMost.accepts (.object [(name, .ofInt a)]) ↔ KeepsOrder a b) := by
  have plain : '.' ∉ name.toList := isName.not_mem (by decide) (by decide) (by decide)
  have word : (Boundary.constant (decimalText b)).IsPrintable := isWord_decimalText b
  have star : Boundary.unbounded.IsPrintable := trivial
  have textLeast : name ++ "=[" ++ String.ofList (Boundary.constant (decimalText b)).written ++ " TO " ++
      String.ofList Boundary.unbounded.written ++ "]" = name ++ "=[" ++ decimalText b ++ " TO *]" :=
    String.toList_injective (by simp [Boundary.written])
  have textMost : name ++ "=[" ++ String.ofList Boundary.unbounded.written ++ " TO " ++
      String.ofList (Boundary.constant (decimalText b)).written ++ "]" = name ++ "=[* TO " ++ decimalText b ++ "]" :=
    String.toList_injective (by simp [Boundary.written])
  obtain ⟨atLeast, compiled, sameLeast⟩ := compile_interval isName kept word star
  obtain ⟨atMost, compiled', sameMost⟩ := compile_interval isName kept star word
  have lowest : ∀ value, atLeast.accepts (.object [(name, value)]) = true ↔
      (Boundary.constant (decimalText b)).Met [.gt, .eq] value.elements := fun value => by
    rw [sameLeast, Expression.accepts_from_field plain]
  have highest : ∀ value, atMost.accepts (.object [(name, value)]) = true ↔
      (Boundary.constant (decimalText b)).Met [.lt, .eq] value.elements := fun value => by
    rw [sameMost, Expression.accepts_upTo_field plain]
  -- No two numbers have the same text, so that only which of the two is the greater can differ.
  obtain ⟨agreeLeast, agreeMost⟩ := same_side_iff (compareText_integerText_eq_eq (a := a) (b := b))
  refine ⟨atLeast, atMost, textLeast ▸ compiled, textMost ▸ compiled', ?_, ?_, ?_, ?_⟩
  · have notLess : ∀ o : Ordering, o ∈ [.gt, .eq] ↔ o ≠ .lt := by decide
    rw [lowest, Boundary.met_number fits fits', notLess, compare_ge_iff_ge]
  · have notGreater : ∀ o : Ordering, o ∈ [.lt, .eq] ↔ o ≠ .gt := by decide
    rw [highest, Boundary.met_number fits fits', notGreater, compare_le_iff_le]
  · rw [Bool.eq_iff_iff, lowest, lowest, Boundary.met_text, Boundary.met_number fits fits', agreeLeast,
      compareText_integerText]
  · rw [Bool.eq_iff_iff, highest, highest, Boundary.met_text, Boundary.met_number fits fits', agreeMost,
      compareText_integerText]

theorem compile_bound_selects_ten :
    IsName "f" ∧ Target.anything.resolve? ⟨["f"]⟩ = some "f" ∧
    (95 : Int).natAbs < 2 ^ 53 ∧ (10 : Int).natAbs < 2 ^ 53 ∧
    ∃ atLeast, compile Target.anything.resolve? "f=[10 TO *]" = .ok atLeast ∧
      atLeast.accepts (.object [("f", .string "95")]) = true := by
  have isName : IsName "f" := ⟨'f', [], rfl, .inl (by decide), nofun⟩
  have kept : Target.anything.resolve? ⟨["f"]⟩ = some "f" := by decide
  have ordered : KeepsOrder 95 10 := by decide
  obtain ⟨atLeast, -, compiled, -, byNumber, -, byText, -⟩ :=
    compile_bound_selects (a := 95) (b := 10) isName kept (by decide) (by decide)
  have selected := (byText.mpr ordered).trans (byNumber.mpr (by decide))
  exact ⟨isName, kept, by decide, by decide, atLeast, compiled, selected⟩

/-- Nine is less than ten, but its text is the greater one. -/
theorem compile_bound_selects_nine :
    ∃ atLeast, compile Target.anything.resolve? "f=[10 TO *]" = .ok atLeast ∧
      atLeast.accepts (.object [("f", .ofInt 9)]) = false ∧
      atLeast.accepts (.object [("f", .string "9")]) = true := by
  have isName : IsName "f" := ⟨'f', [], rfl, .inl (by decide), nofun⟩
  have kept : Target.anything.resolve? ⟨["f"]⟩ = some "f" := by decide
  have word : (Boundary.constant "10").IsPrintable := show isWord "10" = true by decide
  have star : Boundary.unbounded.IsPrintable := trivial
  obtain ⟨atLeast, compiled, same⟩ := compile_interval isName kept word star
  exact ⟨atLeast, compiled, (same _).trans (by decide +kernel), (same _).trans (by decide +kernel)⟩

end Resolver

end Sift

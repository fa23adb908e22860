import Sift.Json.Printer
import Sift.Json.Reader

namespace Sift

/-- A hexadecimal digit stands for its value. -/
theorem hexValue?_hexDigit (n : Nat) : hexValue? (hexDigit n) = some (n % 16) := by
  have each : ∀ k < 16, hexValue? (Nat.digitChar k) = some k := by decide
  exact each (n % 16) (Nat.mod_lt n (by decide))

theorem escapedUnits?_control {c : Char} (control : c.toNat < 0x20) (rest : List Char) :
    escapedUnits? ('0' :: '0' :: hexDigit (c.toNat / 16) :: hexDigit c.toNat :: rest) =
      some (c, rest) := by
  have zero : hexValue? '0' = some 0 := rfl
  have unit : ((0 * 16 + 0) * 16 + c.toNat / 16 % 16) * 16 + c.toNat % 16 = c.toNat := by omega
  have notLow : ¬(0xDC00 ≤ c.toNat ∧ c.toNat ≤ 0xDFFF) := by omega
  have notHigh : ¬(0xD800 ≤ c.toNat ∧ c.toNat ≤ 0xDBFF) := by omega
  simp only [escapedUnits?, hexUnit?, zero, hexValue?_hexDigit, bind, Option.bind_some, pure, unit,
    if_neg notLow, if_neg notHigh, Char.ofNat_toNat]

/-- A character between quotes stands for itself or is spelled by a backslash and what that
escapes. -/
theorem escapedChar_cases (c : Char) :
    (∃ spelled, escapedChar c = '\\' :: spelled ∧ ∀ rest, escape? (spelled ++ rest) = some (c, rest)) ∨
      escapedChar c = [c] ∧ c ≠ '"' ∧ c ≠ '\\' ∧ ¬c.toNat < 0x20 := by
  by_cases named : c ∈ ['"', '\\', '\x08', '\x0c', '\n', '\r', '\t']
  · left
    simp only [List.mem_cons, List.not_mem_nil, or_false] at named
    rcases named with rfl | rfl | rfl | rfl | rfl | rfl | rfl <;> exact ⟨_, rfl, fun _ => rfl⟩
  · simp only [List.mem_cons, List.not_mem_nil, or_false, not_or] at named
    obtain ⟨quote, backslash, backspace, feed, line, return_, tab⟩ := named
    simp only [escapedChar, if_neg quote, if_neg backslash, if_neg backspace, if_neg feed, if_neg line,
      if_neg return_, if_neg tab]
    by_cases control : c.toNat < 0x20
    · rw [if_pos control]
      exact .inl ⟨_, rfl, fun rest => escapedUnits?_control control rest⟩
    · rw [if_neg control]
      exact .inr ⟨rfl, quote, backslash, control⟩

/-- A character is read back from what it is escaped as. -/
theorem stringBody?_escapedChar (c : Char) (cs : List Char) :
    stringBody? (escapedChar c ++ cs) =
      (stringBody? cs).map fun (text, rest) => (c :: text, rest) := by
  rcases escapedChar_cases c with ⟨spelled, escaped, read⟩ | ⟨itself, quote, backslash, printable⟩
  · rw [escaped, List.cons_append, stringBody?]
    have notQuote : '\\' ≠ '"' := by decide
    simp only [if_neg notQuote, if_true]
    split
    · rename_i none_
      rw [read cs] at none_
      cases none_
    · rename_i some_
      rw [read cs] at some_
      cases some_
      rfl
  · rw [itself, List.singleton_append, stringBody?, if_neg quote, if_neg backslash, if_neg printable]

/-- What is written between quotes is read back. -/
theorem stringBody?_escaped (text rest : List Char) :
    stringBody? (text.flatMap escapedChar ++ '"' :: rest) = some (text, rest) := by
  induction text with
  | nil => rw [List.flatMap_nil, List.nil_append, stringBody?, if_pos rfl]
  | cons c text ih =>
    rw [List.flatMap_cons, List.append_assoc, stringBody?_escapedChar, ih]
    rfl

theorem quotedText_append (text : String) (rest : List Char) :
    quotedText text ++ rest = '"' :: (text.toList.flatMap escapedChar ++ '"' :: rest) := by
  simp only [quotedText, List.cons_append, List.append_assoc, List.nil_append]

/-- A number is written without zeros in front. -/
theorem exists_digits_eq_cons (n : Nat) :
    ∃ d ds, digits n = d :: ds ∧ d.isDigit = true ∧ (d = '0' → ds = []) := by
  induction n using Nat.strongRecOn with
  | ind n ih =>
    by_cases small : n < 10
    · have single : digits n = [Nat.digitChar n] := Nat.toDigits_of_lt_base small
      have digit : (Nat.digitChar n).isDigit = true :=
        isDigit_of_mem_digits (single ▸ List.mem_singleton_self _)
      exact ⟨_, [], single, digit, fun _ => rfl⟩
    · have large : 10 ≤ n := Nat.le_of_not_lt small
      have split : digits n = digits (n / 10) ++ [Nat.digitChar (n % 10)] :=
        Nat.toDigits_of_base_le (by decide) large
      obtain ⟨d, ds, front, digit, alone⟩ := ih (n / 10) (by omega)
      refine ⟨d, ds ++ [Nat.digitChar (n % 10)], by rw [split, front, List.cons_append], digit, ?_⟩
      -- a zero in front would be all of the front, which is the number without its last digit
      intro zero
      have number := numberOf_digits (n / 10)
      rw [front, zero, alone zero] at number
      have : numberOf ['0'] = 0 := rfl
      omega

namespace Json

/-- What may follow a value in the text of another: nothing, a comma or a closing bracket. -/
inductive Follows : List Char → Prop
  | nothing : Follows []
  | comma (cs : List Char) : Follows (',' :: cs)
  | bracket (cs : List Char) : Follows (']' :: cs)
  | brace (cs : List Char) : Follows ('\x7d' :: cs)

end Json

namespace NumberText

/-- Digits are taken as far as they go. -/
theorem scanUnsigned?_digits (negative : Bool) (n : Nat) {rest : List Char} (follows : Json.Follows rest) :
    scanUnsigned? negative (digits n ++ rest) = some (⟨negative, digits n, [], none⟩, rest) := by
  have allDigits : ∀ c ∈ digits n, c.isDigit = true := fun _ => isDigit_of_mem_digits
  have whole : (digits n ++ rest).takeWhile Char.isDigit = digits n := by
    rw [List.takeWhile_append_of_pos allDigits]
    cases follows <;> exact List.append_nil _
  have left : (digits n ++ rest).dropWhile Char.isDigit = rest := by
    rw [List.dropWhile_append_of_pos allDigits]
    cases follows <;> rfl
  have noFraction : fraction? rest = some ([], rest) := by
    cases follows <;> rfl
  have noExponent : exponent? rest = some (none, rest) := by
    cases follows <;> rfl
  obtain ⟨d, ds, split, -, alone⟩ := exists_digits_eq_cons n
  have wellStarted : ¬((digits n).isEmpty = true ∨ (digits n).head? = some '0' ∧ 1 < (digits n).length) := by
    rw [split]
    rintro (empty | ⟨zero, long⟩)
    · cases empty
    · rw [alone (Option.some.inj zero)] at long
      exact absurd long (Nat.lt_irrefl 1)
  simp only [scanUnsigned?, whole, left, if_neg wellStarted, noFraction, noExponent, bind, Option.bind_some,
    pure]

/-- A number without fraction and exponent is an integer of 64 bits if it fits. -/
theorem value?_plain {t : NumberText} {n : Int}
    (fits : -9223372036854775808 ≤ n ∧ n < 18446744073709551616) (noFraction : t.fraction = [])
    (noExponent : t.exponent = none) (signed : ¬(t.negative = true ∧ n = 0))
    (integer : (if t.negative then -(numberOf t.whole : Int) else numberOf t.whole) = n) :
    t.value? = some (.int n fits) := by
  subst n
  exact dif_pos ⟨noFraction, noExponent, signed, fits⟩

end NumberText

namespace Json

theorem numberValue?_of_scan? {cs rest : List Char} {t : NumberText} {value : JsonNumber}
    (scanned : NumberText.scan? cs = some (t, rest)) (read : t.value? = some value) :
    (numberValue? cs).map Parsed.out = some (number value, rest) := by
  unfold numberValue?
  split
  · rename_i none_
    rw [scanned] at none_
    cases none_
  · rename_i some_
    rw [scanned] at some_
    cases some_
    rw [read]
    rfl

/-- An integer of 64 bits is read back from its text. -/
theorem numberValue?_integerText {n : Int}
    (fits : -9223372036854775808 ≤ n ∧ n < 18446744073709551616) {rest : List Char}
    (follows : Follows rest) :
    (numberValue? (integerText n ++ rest)).map Parsed.out = some (number (.int n fits), rest) := by
  cases n with
  | ofNat n =>
    obtain ⟨d, ds, split, digit, -⟩ := exists_digits_eq_cons n
    have unsigned : NumberText.scan? (digits n ++ rest) = NumberText.scanUnsigned? false (digits n ++ rest) := by
      rw [split, List.cons_append]
      unfold NumberText.scan?
      split
      · rename_i dash
        rw [(List.cons.inj dash).1] at digit
        cases digit
      · rfl
    refine numberValue?_of_scan? (unsigned.trans (NumberText.scanUnsigned?_digits false n follows)) ?_
    refine NumberText.value?_plain fits rfl rfl (by simp) ?_
    simp [numberOf_digits]
  | negSucc n =>
    refine numberValue?_of_scan? (NumberText.scanUnsigned?_digits true (n + 1) follows) ?_
    refine NumberText.value?_plain fits rfl rfl (by omega) ?_
    simp only [if_true, numberOf_digits]
    omega

end Json

end Sift

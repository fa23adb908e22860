import Sift.Json.Number
import Sift.Parsed

namespace Sift

def hexValue? (c : Char) : Option Nat :=
  if c.isDigit then some (c.toNat - '0'.toNat)
  else if 'a' ≤ c ∧ c ≤ 'f' then some (c.toNat - 'a'.toNat + 10)
  else if 'A' ≤ c ∧ c ≤ 'F' then some (c.toNat - 'A'.toNat + 10)
  else none

/-- The number that four hexadecimal digits at the front of a text spell. -/
def hexUnit? : List Char → Option (Nat × List Char)
  | a :: b :: c :: d :: rest => do
    let a ← hexValue? a
    let b ← hexValue? b
    let c ← hexValue? c
    let d ← hexValue? d
    return (((a * 16 + b) * 16 + c) * 16 + d, rest)
  | _ => none

/-- The character beyond the first 65536 that two units stand for. -/
def pairChar (high low : Nat) : Char :=
  Char.ofNat (0x10000 + (high - 0xD800) * 0x400 + (low - 0xDC00))

/-- The character that one or two escaped units spell, the first of which has been announced. The
two halves of a pair must stand together. -/
def escapedUnits? (cs : List Char) : Option (Char × List Char) := do
  let (unit, rest) ← hexUnit? cs
  if 0xDC00 ≤ unit ∧ unit ≤ 0xDFFF then none
  else if 0xD800 ≤ unit ∧ unit ≤ 0xDBFF then
    match rest with
    | '\\' :: 'u' :: cs => do
      let (low, rest) ← hexUnit? cs
      if 0xDC00 ≤ low ∧ low ≤ 0xDFFF then
        return (pairChar unit low, rest)
      else none
    | _ => none
  else return (Char.ofNat unit, rest)

/-- The character that a letter after a backslash stands for. -/
def escapedLetter? : Char → Option Char
  | '"' => some '"'
  | '\\' => some '\\'
  | '/' => some '/'
  | 'b' => some '\x08'
  | 'f' => some '\x0c'
  | 'n' => some '\n'
  | 'r' => some '\r'
  | 't' => some '\t'
  | _ => none

/-- The character that a backslash and what follows it stand for. -/
def escape? : List Char → Option (Char × List Char)
  | [] => none
  | c :: cs =>
    if c = 'u' then escapedUnits? cs
    else (escapedLetter? c).map fun meant => (meant, cs)

theorem hexUnit?_shorter {cs rest : List Char} {unit : Nat}
    (read : hexUnit? cs = some (unit, rest)) : rest.length < cs.length := by
  unfold hexUnit? at read
  split at read
  · simp only [bind, Option.bind_eq_some_iff, pure, Option.some.injEq, Prod.mk.injEq] at read
    obtain ⟨_, _, _, _, _, _, _, _, _, rfl⟩ := read
    simp only [List.length_cons]
    omega
  · cases read

theorem escapedUnits?_shorter {cs rest : List Char} {c : Char}
    (read : escapedUnits? cs = some (c, rest)) : rest.length < cs.length := by
  simp only [escapedUnits?, bind, Option.bind_eq_some_iff, pure] at read
  obtain ⟨⟨unit, after⟩, first, read⟩ := read
  have := hexUnit?_shorter first
  split at read
  · cases read
  · split at read
    · split at read
      · rename_i left equal
        simp only [Option.bind_eq_some_iff] at equal read
        obtain ⟨⟨low, last⟩, second, read⟩ := read
        have := hexUnit?_shorter second
        split at read
        · simp only [Option.some.injEq, Prod.mk.injEq] at read
          obtain ⟨-, rfl⟩ := read
          simp only [equal, List.length_cons] at *
          omega
        · cases read
      · cases read
    · cases read
      assumption

theorem escape?_shorter {cs rest : List Char} {c : Char} (read : escape? cs = some (c, rest)) :
    rest.length < cs.length := by
  cases cs with
  | nil => cases read
  | cons d cs =>
    simp only [escape?] at read
    split at read
    · exact Nat.lt_succ_of_lt (escapedUnits?_shorter read)
    · obtain ⟨_, _, read⟩ := Option.map_eq_some_iff.mp read
      cases read
      exact Nat.lt_succ_self _

/-- The text up to the closing quote. Control characters must be escaped. -/
def stringBody? : List Char → Option (List Char × List Char)
  | [] => none
  | c :: cs =>
    if c = '"' then some ([], cs)
    else if c = '\\' then
      match _read : escape? cs with
      | none => none
      | some (meant, rest) => (stringBody? rest).map fun (text, rest) => (meant :: text, rest)
    else if c.toNat < 0x20 then none
    else (stringBody? cs).map fun (text, rest) => (c :: text, rest)
termination_by cs => cs.length
decreasing_by
  · exact Nat.lt_succ_of_lt (escape?_shorter ‹_›)
  · exact Nat.lt_succ_self _

/-- The rest of a string takes at least its closing quote. -/
theorem stringBody?_shorter {cs text rest : List Char} (read : stringBody? cs = some (text, rest)) :
    rest.length < cs.length := by
  fun_induction stringBody? cs generalizing text rest with
  | case1 => cases read
  | case2 =>
    cases read
    exact Nat.lt_succ_self _
  | case3 => cases read
  | case4 cs _ _ escaped _ ih =>
    obtain ⟨⟨others, after⟩, inner, read⟩ := Option.map_eq_some_iff.mp read
    cases read
    have := ih inner
    have := escape?_shorter escaped
    simp only [List.length_cons]
    omega
  | case5 => cases read
  | case6 c cs _ _ _ ih =>
    obtain ⟨⟨others, after⟩, inner, read⟩ := Option.map_eq_some_iff.mp read
    cases read
    exact Nat.lt_succ_of_lt (ih inner)

/-- The text without the white space that it begins with. -/
def skipSpace (cs : List Char) : List Char :=
  cs.dropWhile fun c => c == ' ' || c == '\n' || c == '\r' || c == '\t'

theorem length_skipSpace_le (cs : List Char) : (skipSpace cs).length ≤ cs.length :=
  (List.dropWhile_sublist _).length_le

theorem shorter_of_skipSpace {cs rest : List Char} {c : Char} (space : skipSpace cs = c :: rest) :
    rest.length < cs.length := by
  have := length_skipSpace_le cs
  simp only [space, List.length_cons] at this
  omega

def afterWord? : List Char → List Char → Option (List Char)
  | [], cs => some cs
  | _ :: _, [] => none
  | w :: word, c :: cs => if w = c then afterWord? word cs else none

/-- A word takes as many characters as it has. -/
theorem afterWord?_length {word cs rest : List Char} (read : afterWord? word cs = some rest) :
    rest.length + word.length = cs.length := by
  induction word generalizing cs with
  | nil =>
    cases read
    rfl
  | cons w word ih =>
    cases cs with
    | nil => cases read
    | cons c cs =>
      simp only [afterWord?] at read
      split at read
      · have := ih read
        simp only [List.length_cons]
        omega
      · cases read

namespace NumberText

theorem fraction?_length {cs ds rest : List Char} (read : fraction? cs = some (ds, rest)) :
    rest.length ≤ cs.length := by
  unfold fraction? at read
  split at read
  · simp only at read
    split at read
    · cases read
    · cases read
      exact Nat.le_succ_of_le (List.dropWhile_sublist _).length_le
  · cases read
    exact Nat.le_refl _

theorem exponentDigits?_length {negative : Bool} {cs rest : List Char} {exponent : Option Int}
    (read : exponentDigits? negative cs = some (exponent, rest)) : rest.length ≤ cs.length := by
  simp only [exponentDigits?] at read
  split at read
  · cases read
  · cases read
    exact (List.dropWhile_sublist _).length_le

theorem exponent?_length {cs rest : List Char} {exponent : Option Int}
    (read : exponent? cs = some (exponent, rest)) : rest.length ≤ cs.length := by
  unfold exponent? at read
  split at read
  · split at read
    · split at read
      all_goals
        have := exponentDigits?_length read
        simp only [List.length_cons] at *
        omega
    · cases read
      exact Nat.le_refl _
  · cases read
    exact Nat.le_refl _

theorem scanUnsigned?_shorter {negative : Bool} {cs rest : List Char} {t : NumberText}
    (read : scanUnsigned? negative cs = some (t, rest)) : rest.length < cs.length := by
  simp only [scanUnsigned?] at read
  split at read
  · cases read
  · rename_i started
    simp only [bind, Option.bind_eq_some_iff, pure] at read
    obtain ⟨⟨ds, afterFraction⟩, first, ⟨exponent, afterExponent⟩, second, read⟩ := read
    cases read
    have : afterFraction.length ≤ (cs.dropWhile Char.isDigit).length := fraction?_length first
    have : afterExponent.length ≤ afterFraction.length := exponent?_length second
    have whole :=
      congrArg List.length (List.takeWhile_append_dropWhile (p := Char.isDigit) (l := cs))
    simp only [List.length_append] at whole
    have : 0 < (cs.takeWhile Char.isDigit).length := by
      cases digits : cs.takeWhile Char.isDigit with
      | nil => simp [digits] at started
      | cons => exact Nat.succ_pos _
    show afterExponent.length < cs.length
    omega

theorem scan?_shorter {cs rest : List Char} {t : NumberText} (read : scan? cs = some (t, rest)) :
    rest.length < cs.length := by
  unfold scan? at read
  split at read
  · exact Nat.lt_succ_of_lt (scanUnsigned?_shorter read)
  · exact scanUnsigned?_shorter read

end NumberText

namespace Json

abbrev ValueReader :=
  (cs : List Char) → Option (Parsed Json cs)

/-- What follows the items of an array that have been read: its end, or further items. -/
def itemsAfter? (read : ValueReader) (items : List Json) (cs : List Char) :
    Option (Parsed Json cs) :=
  match space : skipSpace cs with
  | ']' :: rest => some ⟨array items.reverse, rest, shorter_of_skipSpace space⟩
  | ',' :: next =>
    match read next with
    | none => none
    | some item =>
      have fewer : item.rest.length < cs.length :=
        Nat.lt_trans item.shorter (shorter_of_skipSpace space)
      (itemsAfter? read (item.value :: items) item.rest).map (·.widen (Nat.le_of_lt fewer))
  | _ => none
termination_by cs.length

def arrayBody? (read : ValueReader) (cs : List Char) : Option (Parsed Json cs) :=
  match space : skipSpace cs with
  | ']' :: rest => some ⟨array [], rest, shorter_of_skipSpace space⟩
  | _ =>
    match read cs with
    | none => none
    | some item =>
      (itemsAfter? read [item.value] item.rest).map (·.widen (Nat.le_of_lt item.shorter))

def pair? (read : ValueReader) (cs : List Char) : Option (Parsed (String × Json) cs) :=
  match space : skipSpace cs with
  | '"' :: opened =>
    match body : stringBody? opened with
    | none => none
    | some (key, closed) =>
      match colon : skipSpace closed with
      | ':' :: next =>
        have fewer : next.length ≤ cs.length :=
          Nat.le_of_lt (Nat.lt_trans (shorter_of_skipSpace colon)
            (Nat.lt_trans (stringBody?_shorter body) (shorter_of_skipSpace space)))
        (read next).map fun value => (value.map fun v => (String.ofList key, v)).widen fewer
      | _ => none
  | _ => none

/-- What follows the fields of an object that have been read: its end, or further fields. -/
def fieldsAfter? (read : ValueReader) (fields : List (String × Json)) (cs : List Char) :
    Option (Parsed Json cs) :=
  match space : skipSpace cs with
  | '\x7d' :: rest => some ⟨ofFields fields.reverse, rest, shorter_of_skipSpace space⟩
  | ',' :: next =>
    match pair? read next with
    | none => none
    | some field =>
      have fewer : field.rest.length < cs.length :=
        Nat.lt_trans field.shorter (shorter_of_skipSpace space)
      (fieldsAfter? read (field.value :: fields) field.rest).map (·.widen (Nat.le_of_lt fewer))
  | _ => none
termination_by cs.length

def objectBody? (read : ValueReader) (cs : List Char) : Option (Parsed Json cs) :=
  match space : skipSpace cs with
  | '\x7d' :: rest => some ⟨object [], rest, shorter_of_skipSpace space⟩
  | _ =>
    match pair? read cs with
    | none => none
    | some field =>
      (fieldsAfter? read [field.value] field.rest).map (·.widen (Nat.le_of_lt field.shorter))

def word? (word : List Char) (value : Json) (cs : List Char) : Option (Parsed Json cs) :=
  match taken : afterWord? word cs with
  | none => none
  | some rest =>
    if some_ : 0 < word.length then
      some ⟨value, rest, by have := afterWord?_length taken; omega⟩
    else none

def numberValue? (cs : List Char) : Option (Parsed Json cs) :=
  match taken : NumberText.scan? cs with
  | none => none
  | some (t, rest) =>
    t.value?.map fun value => ⟨number value, rest, NumberText.scan?_shorter taken⟩

/-- A value in which so many arrays and objects may be nested. -/
def value? (depth : Nat) (cs : List Char) : Option (Parsed Json cs) :=
  match space : skipSpace cs with
  | [] => none
  | c :: rest =>
    have inside : rest.length ≤ cs.length := Nat.le_of_lt (shorter_of_skipSpace space)
    have whole : (c :: rest).length ≤ cs.length := space ▸ length_skipSpace_le cs
    match c, depth with
    | '"', _ =>
      match body : stringBody? rest with
      | none => none
      | some (text, after) =>
        some ⟨string (String.ofList text), after,
          Nat.lt_of_lt_of_le (stringBody?_shorter body) inside⟩
    | '[', depth + 1 => (arrayBody? (value? depth) rest).map (·.widen inside)
    | '\x7b', depth + 1 => (objectBody? (value? depth) rest).map (·.widen inside)
    | 'n', _ => (word? ['n', 'u', 'l', 'l'] null (c :: rest)).map (·.widen whole)
    | 't', _ => (word? ['t', 'r', 'u', 'e'] (bool true) (c :: rest)).map (·.widen whole)
    | 'f', _ => (word? ['f', 'a', 'l', 's', 'e'] (bool false) (c :: rest)).map (·.widen whole)
    | _, _ => (numberValue? (c :: rest)).map (·.widen whole)

/-- How deep arrays and objects may be nested in one another. -/
def depthLimit : Nat := 127

/-- The value that a text spells as a whole. -/
def read? (text : String) : Option Json :=
  match value? depthLimit text.toList with
  | none => none
  | some p => if (skipSpace p.rest).isEmpty then some p.value else none

end Json

end Sift

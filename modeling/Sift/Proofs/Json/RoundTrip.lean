import Mathlib.Data.Nat.Init
import Sift.Proofs.Json.Text

namespace Sift

namespace Json

mutual

/-- How deeply arrays and objects are nested in a value. -/
def depth : Json → Nat
  | array items => depthAll items + 1
  | object fields => depthFields fields + 1
  | _ => 0

/-- The depth of the deepest item. -/
def depthAll : List Json → Nat
  | [] => 0
  | item :: items => max item.depth (depthAll items)

/-- The depth of the deepest value of a field. -/
def depthFields : List (String × Json) → Nat
  | [] => 0
  | (_, value) :: fields => max value.depth (depthFields fields)

end

mutual

/-- The value with the fields of every object as objects hold them. -/
def settled : Json → Json
  | array items => array (settledAll items)
  | object fields => ofFields (settledFields fields)
  | json => json

/-- Items with the fields of every object as objects hold them. -/
def settledAll : List Json → List Json
  | [] => []
  | item :: items => item.settled :: settledAll items

/-- Fields with the fields of every object in them as objects hold them. -/
def settledFields : List (String × Json) → List (String × Json)
  | [] => []
  | (key, value) :: fields => (key, value.settled) :: settledFields fields

end

@[simp] theorem depth_array (items : List Json) : (array items).depth = depthAll items + 1 :=
  rfl

@[simp] theorem depth_object (fields : List (String × Json)) : (object fields).depth = depthFields fields + 1 :=
  rfl

@[simp] theorem depthAll_nil : depthAll [] = 0 :=
  rfl

@[simp] theorem depthAll_cons (item : Json) (items : List Json) :
    depthAll (item :: items) = max item.depth (depthAll items) :=
  rfl

@[simp] theorem depthFields_nil : depthFields [] = 0 :=
  rfl

@[simp] theorem depthFields_cons (field : String × Json) (fields : List (String × Json)) :
    depthFields (field :: fields) = max field.2.depth (depthFields fields) :=
  rfl

@[simp] theorem settled_array (items : List Json) : (array items).settled = array (settledAll items) :=
  rfl

@[simp] theorem settled_object (fields : List (String × Json)) :
    (object fields).settled = ofFields (settledFields fields) :=
  rfl

@[simp] theorem settledAll_nil : settledAll [] = [] :=
  rfl

@[simp] theorem settledAll_cons (item : Json) (items : List Json) :
    settledAll (item :: items) = item.settled :: settledAll items :=
  rfl

@[simp] theorem settledFields_nil : settledFields [] = [] :=
  rfl

@[simp] theorem settledFields_cons (field : String × Json) (fields : List (String × Json)) :
    settledFields (field :: fields) = (field.1, field.2.settled) :: settledFields fields :=
  rfl

/-- A value of which all numbers are integers. -/
inductive IsWhole : Json → Prop
  | null : IsWhole null
  | bool (b : Bool) : IsWhole (bool b)
  | integer {n : Int} (fits : -9223372036854775808 ≤ n ∧ n < 18446744073709551616) :
      IsWhole (number (.int n fits))
  | string (text : String) : IsWhole (string text)
  | array {items : List Json} : (∀ item ∈ items, IsWhole item) → IsWhole (array items)
  | object {fields : List (String × Json)} : (∀ field ∈ fields, IsWhole field.2) →
      IsWhole (object fields)

/-- A key that comes after all others is put at the end. -/
theorem setField_of_greater {key : String} {fields : List (String × Json)}
    (greater : ∀ field ∈ fields, field.1 < key) (value : Json) :
    setField key value fields = fields ++ [(key, value)] := by
  induction fields with
  | nil => rfl
  | cons field fields ih =>
    obtain ⟨first, others⟩ := List.forall_mem_cons.mp greater
    have different : key ≠ field.1 := (String.ne_of_lt first).symm
    rw [setField, if_neg (String.lt_asymm first), if_neg different, ih others]
    rfl

theorem foldl_setField {fields done : List (String × Json)}
    (ascending : ((done ++ fields).map Prod.fst).Pairwise (· < ·)) :
    fields.foldl (fun set (key, value) => setField key value set) done = done ++ fields := by
  induction fields generalizing done with
  | nil => exact (List.append_nil done).symm
  | cons field fields ih =>
    obtain ⟨key, value⟩ := field
    have greater : ∀ earlier ∈ done, earlier.1 < key := by
      intro earlier member
      have across := (List.pairwise_append.mp (List.pairwise_map.mp ascending)).2.2
      exact across earlier member (key, value) (List.mem_cons_self ..)
    rw [List.append_cons] at ascending ⊢
    rw [List.foldl_cons]
    simp only [setField_of_greater greater]
    exact ih ascending

/-- An object of which the keys ascend is as objects hold their fields. -/
theorem ofFields_of_ascending {fields : List (String × Json)}
    (ascending : (fields.map Prod.fst).Pairwise (· < ·)) : ofFields fields = object fields :=
  congrArg object (foldl_setField ascending)

section
variable {limit : Nat} {cs rest : List Char}

theorem value?_string {text : List Char} (body : stringBody? cs = some (text, rest)) :
    (value? limit ('"' :: cs)).map Parsed.out = some (string (String.ofList text), rest) := by
  unfold value?
  split
  · rename_i space
    cases space
  · rename_i space
    cases space
    split
    · rename_i none_
      rw [body] at none_
      cases none_
    · rename_i some_
      rw [body] at some_
      cases some_
      rfl

theorem value?_null :
    (value? limit ('n' :: 'u' :: 'l' :: 'l' :: rest)).map Parsed.out = some (null, rest) := by
  cases limit <;> rfl

theorem value?_true :
    (value? limit ('t' :: 'r' :: 'u' :: 'e' :: rest)).map Parsed.out = some (bool true, rest) := by
  cases limit <;> rfl

theorem value?_false :
    (value? limit ('f' :: 'a' :: 'l' :: 's' :: 'e' :: rest)).map Parsed.out = some (bool false, rest) := by
  cases limit <;> rfl

/-- A bracket begins an array, for which the limit is one less. -/
theorem value?_array :
    (value? (limit + 1) ('[' :: cs)).map Parsed.out = (arrayBody? (value? limit) cs).map Parsed.out :=
  Option.map_map ..

theorem value?_object :
    (value? (limit + 1) ('\x7b' :: cs)).map Parsed.out = (objectBody? (value? limit) cs).map Parsed.out :=
  Option.map_map ..

/-- At the limit no array is read. -/
theorem value?_zero_bracket : value? 0 ('[' :: cs) = none :=
  rfl

theorem value?_zero_brace : value? 0 ('\x7b' :: cs) = none :=
  rfl

theorem skipSpace_number {c : Char} (starts : c = '-' ∨ c.isDigit = true) :
    skipSpace (c :: cs) = c :: cs := by
  have solid : ¬(c == ' ' || c == '\n' || c == '\r' || c == '\t') = true := by
    simp only [Bool.or_eq_true, beq_iff_eq]
    rintro (((rfl | rfl) | rfl) | rfl) <;> exact absurd starts (by decide)
  exact List.dropWhile_cons_of_neg solid

theorem value?_number {c : Char} (starts : c = '-' ∨ c.isDigit = true) :
    (value? limit (c :: cs)).map Parsed.out = (numberValue? (c :: cs)).map Parsed.out := by
  unfold value?
  split
  · rename_i space
    rw [skipSpace_number starts] at space
    cases space
  · rename_i space
    rw [skipSpace_number starts] at space
    cases space
    dsimp only
    -- no other value begins like a number
    split
    case h_7 => exact Option.map_map ..
    all_goals exact absurd starts (by decide)

end

section
variable {read : ValueReader} {cs rest : List Char}

theorem itemsAfter?_bracket (done : List Json) :
    (itemsAfter? read done (']' :: rest)).map Parsed.out = some (array done.reverse, rest) := by
  rw [itemsAfter?]
  rfl

theorem itemsAfter?_comma (done : List Json) :
    (itemsAfter? read done (',' :: cs)).map Parsed.out =
      ((read cs).map Parsed.out).bind fun (item, rest) =>
        (itemsAfter? read (item :: done) rest).map Parsed.out := by
  rw [itemsAfter?]
  split
  · rename_i space
    cases space
  · rename_i space
    cases space
    cases read cs with
    | none => rfl
    | some item => exact Option.map_map ..
  · rename_i space
    exact absurd rfl (space cs)

/-- An array that is not closed at once has a first item. -/
theorem arrayBody?_of_ne (filled : ∀ after, skipSpace cs ≠ ']' :: after) :
    (arrayBody? read cs).map Parsed.out =
      ((read cs).map Parsed.out).bind fun (item, rest) => (itemsAfter? read [item] rest).map Parsed.out := by
  unfold arrayBody?
  split
  · rename_i space
    exact absurd space (filled _)
  · cases read cs with
    | none => rfl
    | some item => exact Option.map_map ..

/-- A key in quotes and a colon come before a value. -/
theorem pair?_quotedText (key : String) :
    (pair? read (quotedText key ++ ':' :: cs)).map Parsed.out =
      ((read cs).map Parsed.out).map fun (value, rest) => ((key, value), rest) := by
  have body := stringBody?_escaped key.toList (':' :: cs)
  rw [quotedText_append]
  -- of the text between the quotes only what is read from it matters
  generalize key.toList.flatMap escapedChar ++ '"' :: ':' :: cs = opened at body
  unfold pair?
  split
  · rename_i space
    cases space
    split
    · rename_i none_
      rw [body] at none_
      cases none_
    · rename_i some_
      rw [body] at some_
      cases some_
      rw [String.ofList_toList]
      split
      · rename_i colon
        cases colon
        cases read cs <;> rfl
      · rename_i colon
        exact absurd rfl (colon cs)
  · rename_i space
    exact absurd rfl (space _)

theorem fieldsAfter?_brace (done : List (String × Json)) :
    (fieldsAfter? read done ('\x7d' :: rest)).map Parsed.out = some (ofFields done.reverse, rest) := by
  rw [fieldsAfter?]
  rfl

theorem fieldsAfter?_comma (done : List (String × Json)) :
    (fieldsAfter? read done (',' :: cs)).map Parsed.out =
      ((pair? read cs).map Parsed.out).bind fun (field, rest) =>
        (fieldsAfter? read (field :: done) rest).map Parsed.out := by
  rw [fieldsAfter?]
  split
  · rename_i space
    cases space
  · rename_i space
    cases space
    cases pair? read cs with
    | none => rfl
    | some field => exact Option.map_map ..
  · rename_i space
    exact absurd rfl (space cs)

theorem objectBody?_quotedText (key : String) :
    (objectBody? read (quotedText key ++ cs)).map Parsed.out =
      ((pair? read (quotedText key ++ cs)).map Parsed.out).bind fun (field, rest) =>
        (fieldsAfter? read [field] rest).map Parsed.out := by
  rw [quotedText_append]
  unfold objectBody?
  split
  · rename_i space
    cases space
  · cases pair? read _ with
    | none => rfl
    | some field => exact Option.map_map ..

end

theorem follows_writtenItems (items : List Json) (rest : List Char) :
    Follows (writtenItems items ++ rest) := by
  cases items with
  | nil => exact .bracket rest
  | cons item items => exact .comma _

theorem follows_writtenFields (fields : List (String × Json)) (rest : List Char) :
    Follows (writtenFields fields ++ rest) := by
  cases fields with
  | nil => exact .brace rest
  | cons field fields => exact .comma _

/-- Read at the front of a text, up to a limit of nesting, the value comes back settled and the rest
of the text is left. It is refused exactly if it is nested more deeply. -/
def ReadsBack (json : Json) : Prop :=
  ∀ (limit : Nat) (rest : List Char), Follows rest →
    (value? limit (json.written ++ rest)).map Parsed.out =
      if json.depth ≤ limit then some (json.settled, rest) else none

/-- Of two things read one after the other each is refused if it is too deep, and so both are if one
of them is. -/
theorem bind_of_le {α β : Type} {a b limit : Nat} {x : α} {y : β} {next : α → Option β}
    (second : next x = if b ≤ limit then some y else none) :
    (if a ≤ limit then some x else none).bind next = if max a b ≤ limit then some y else none := by
  by_cases shallow : a ≤ limit
  · simp only [shallow, if_true, Option.bind_some, second, Nat.max_le, true_and]
  · have deep : ¬max a b ≤ limit := fun both => shallow (Nat.le_trans (Nat.le_max_left a b) both)
    rw [if_neg shallow, if_neg deep, Option.bind_none]

/-- Items are read back one after the other, if none of them is too deep. -/
theorem itemsAfter?_writtenItems {items : List Json} (each : ∀ item ∈ items, item.ReadsBack)
    (limit : Nat) (done : List Json) (rest : List Char) :
    (itemsAfter? (value? limit) done (writtenItems items ++ rest)).map Parsed.out =
      if depthAll items ≤ limit then some (array (done.reverse ++ settledAll items), rest) else none := by
  induction items generalizing done with
  | nil =>
    rw [depthAll_nil, if_pos (Nat.zero_le _), settledAll_nil, List.append_nil]
    exact itemsAfter?_bracket done
  | cons item items ih =>
    obtain ⟨first, others⟩ := List.forall_mem_cons.mp each
    have spelled : writtenItems (item :: items) ++ rest =
        ',' :: (item.written ++ (writtenItems items ++ rest)) :=
      congrArg (List.cons ',') (List.append_assoc ..)
    rw [spelled, itemsAfter?_comma, first limit _ (follows_writtenItems items rest)]
    refine bind_of_le ((ih others (item.settled :: done)).trans ?_)
    rw [List.reverse_cons, List.append_assoc, List.singleton_append, settledAll_cons]

/-- Fields are read back one after the other, if no value of theirs is too deep. -/
theorem fieldsAfter?_writtenFields {fields : List (String × Json)}
    (each : ∀ field ∈ fields, field.2.ReadsBack) (limit : Nat) (done : List (String × Json))
    (rest : List Char) :
    (fieldsAfter? (value? limit) done (writtenFields fields ++ rest)).map Parsed.out =
      if depthFields fields ≤ limit then some (ofFields (done.reverse ++ settledFields fields), rest)
      else none := by
  induction fields generalizing done with
  | nil =>
    rw [depthFields_nil, if_pos (Nat.zero_le _), settledFields_nil, List.append_nil]
    exact fieldsAfter?_brace done
  | cons field fields ih =>
    obtain ⟨key, value⟩ := field
    obtain ⟨first, others⟩ := List.forall_mem_cons.mp each
    have spelled : writtenFields ((key, value) :: fields) ++ rest =
        ',' :: (quotedText key ++ ':' :: (value.written ++ (writtenFields fields ++ rest))) := by
      simp only [writtenFields, List.cons_append, List.append_assoc]
    rw [spelled, fieldsAfter?_comma, pair?_quotedText, first limit _ (follows_writtenFields fields rest),
      Option.bind_map]
    refine bind_of_le ((ih others ((key, value.settled) :: done)).trans ?_)
    rw [List.reverse_cons, List.append_assoc, List.singleton_append, settledFields_cons]

theorem exists_integerText_eq_cons (n : Int) :
    ∃ c cs, integerText n = c :: cs ∧ (c = '-' ∨ c.isDigit = true) := by
  cases n with
  | ofNat n =>
    obtain ⟨d, ds, split, digit, -⟩ := exists_digits_eq_cons n
    exact ⟨d, ds, split, .inr digit⟩
  | negSucc n => exact ⟨'-', _, rfl, .inl rfl⟩

theorem written_integer_append {n : Int} {c : Char} {cs : List Char} (split : integerText n = c :: cs)
    (fits : -9223372036854775808 ≤ n ∧ n < 18446744073709551616) (rest : List Char) :
    (number (.int n fits)).written ++ rest = c :: (cs ++ rest) :=
  congrArg (· ++ rest) split

/-- An integer of 64 bits is read back. -/
theorem readsBack_integer {n : Int} (fits : -9223372036854775808 ≤ n ∧ n < 18446744073709551616) :
    (number (.int n fits)).ReadsBack := by
  intro limit rest follows
  have read := numberValue?_integerText fits follows
  obtain ⟨c, cs, split, starts⟩ := exists_integerText_eq_cons n
  rw [split, List.cons_append] at read
  rw [written_integer_append split, value?_number starts, read]
  exact (if_pos (Nat.zero_le limit)).symm

theorem readsBack_string (text : String) : (string text).ReadsBack := by
  intro limit rest _
  have spelled : (string text).written ++ rest = '"' :: (text.toList.flatMap escapedChar ++ '"' :: rest) :=
    quotedText_append text rest
  rw [spelled, value?_string (stringBody?_escaped text.toList rest), String.ofList_toList]
  exact (if_pos (Nat.zero_le limit)).symm

/-- No value begins with a space, or with the end of an array. -/
theorem written_ne_bracket {json : Json} (whole : json.IsWhole) (rest after : List Char) :
    skipSpace (json.written ++ rest) ≠ ']' :: after := by
  intro closed
  cases whole with
  | null => cases closed
  | bool b => cases b <;> cases closed
  | @integer n fits =>
    obtain ⟨c, cs, split, starts⟩ := exists_integerText_eq_cons n
    rw [written_integer_append split, skipSpace_number starts] at closed
    rw [(List.cons.inj closed).1] at starts
    exact absurd starts (by decide)
  | string text => cases closed
  | @array items _ => cases items <;> cases closed
  | @object fields _ => cases fields <;> cases closed

theorem readsBack_array {items : List Json} (whole : ∀ item ∈ items, item.IsWhole)
    (each : ∀ item ∈ items, item.ReadsBack) : (array items).ReadsBack := by
  intro limit rest _
  cases limit with
  | zero =>
    have deep : ¬(array items).depth ≤ 0 := by
      rw [depth_array]
      exact Nat.not_succ_le_zero _
    rw [if_neg deep]
    obtain ⟨cs, opened⟩ : ∃ cs, (array items).written ++ rest = '[' :: cs := by
      cases items <;> exact ⟨_, rfl⟩
    rw [opened, value?_zero_bracket]
    rfl
  | succ limit =>
    have shallower : (array items).depth ≤ limit + 1 ↔ depthAll items ≤ limit := by
      rw [depth_array]
      exact Nat.succ_le_succ_iff
    simp only [shallower, settled_array]
    cases items with
    | nil => exact value?_array.trans (if_pos (Nat.zero_le _)).symm
    | cons item items =>
      obtain ⟨first, others⟩ := List.forall_mem_cons.mp each
      have spelled : (array (item :: items)).written ++ rest =
          '[' :: (item.written ++ (writtenItems items ++ rest)) :=
        congrArg (List.cons '[') (List.append_assoc ..)
      have filled := written_ne_bracket (whole item (List.mem_cons_self ..)) (writtenItems items ++ rest)
      rw [spelled, value?_array, arrayBody?_of_ne filled, first limit _ (follows_writtenItems items rest)]
      exact bind_of_le (itemsAfter?_writtenItems others limit [item.settled] rest)

/-- An object is read back with its keys in order if its values are. -/
theorem readsBack_object {fields : List (String × Json)} (each : ∀ field ∈ fields, field.2.ReadsBack) :
    (object fields).ReadsBack := by
  intro limit rest _
  cases limit with
  | zero =>
    have deep : ¬(object fields).depth ≤ 0 := by
      rw [depth_object]
      exact Nat.not_succ_le_zero _
    rw [if_neg deep]
    obtain ⟨cs, opened⟩ : ∃ cs, (object fields).written ++ rest = '\x7b' :: cs := by
      cases fields <;> exact ⟨_, rfl⟩
    rw [opened, value?_zero_brace]
    rfl
  | succ limit =>
    have shallower : (object fields).depth ≤ limit + 1 ↔ depthFields fields ≤ limit := by
      rw [depth_object]
      exact Nat.succ_le_succ_iff
    simp only [shallower, settled_object]
    cases fields with
    | nil => exact value?_object.trans (if_pos (Nat.zero_le _)).symm
    | cons field fields =>
      obtain ⟨key, value⟩ := field
      obtain ⟨first, others⟩ := List.forall_mem_cons.mp each
      have spelled : (object ((key, value) :: fields)).written ++ rest =
          '\x7b' :: (quotedText key ++ ':' :: (value.written ++ (writtenFields fields ++ rest))) := by
        simp only [written, List.cons_append, List.append_assoc]
      rw [spelled, value?_object, objectBody?_quotedText, pair?_quotedText,
        first limit _ (follows_writtenFields fields rest), Option.bind_map]
      exact bind_of_le (fieldsAfter?_writtenFields others limit [(key, value.settled)] rest)

/-- A value of which all numbers are integers is read back. -/
theorem IsWhole.readsBack {json : Json} (whole : json.IsWhole) : json.ReadsBack := by
  induction whole with
  | null =>
    intro limit rest _
    exact value?_null.trans (if_pos (Nat.zero_le _)).symm
  | bool b =>
    intro limit rest _
    cases b with
    | true => exact value?_true.trans (if_pos (Nat.zero_le _)).symm
    | false => exact value?_false.trans (if_pos (Nat.zero_le _)).symm
  | integer fits => exact readsBack_integer fits
  | string text => exact readsBack_string text
  | array whole each => exact readsBack_array whole each
  | object _ each => exact readsBack_object each

theorem read?_eq (text : String) :
    read? text = ((value? depthLimit text.toList).map Parsed.out).bind fun (value, rest) =>
      if (skipSpace rest).isEmpty then some value else none := by
  unfold read?
  cases value? depthLimit text.toList <;> rfl

/-- The text of a value is read back exactly if the value is not nested too deeply. -/
theorem read?_text {json : Json} (whole : json.IsWhole) :
    read? json.text = if json.depth ≤ depthLimit then some json.settled else none := by
  have read := whole.readsBack depthLimit [] .nothing
  rw [List.append_nil] at read
  rw [read?_eq, text, String.toList_ofList, read]
  by_cases shallow : json.depth ≤ depthLimit
  · rw [if_pos shallow, if_pos shallow]
    rfl
  · rw [if_neg shallow, if_neg shallow]
    rfl

end Json

end Sift

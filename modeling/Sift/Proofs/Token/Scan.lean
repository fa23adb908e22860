import Sift.Text.Numeric
import Sift.Token.Scan

namespace Sift

/-- A property of the characters in some ranges is decided on their numbers. -/
theorem forall_char_of_ranges {ranges : List (Nat × Nat)} {p : Char → Bool}
    (each : ∀ r ∈ ranges, ∀ k < r.2 + 1 - r.1, p (Char.ofNat (r.1 + k)) = true) {c : Char}
    (inside : ∃ r ∈ ranges, r.1 ≤ c.toNat ∧ c.toNat ≤ r.2) : p c = true := by
  obtain ⟨r, member, lower, upper⟩ := inside
  have found := each r member (c.toNat - r.1) (by omega)
  rwa [Nat.add_sub_cancel' lower, Char.ofNat_toNat] at found

/-- White space is no part of a word. -/
theorem isAlphanumeric_of_isBlank {c : Char} (blank : isBlank c = true) : isAlphanumeric c = false := by
  have ascending : blankRanges.Pairwise fun a b => a.1 ≤ b.1 := by decide
  have apart : ∀ r ∈ blankRanges, ∀ k < r.2 + 1 - r.1,
      (!isAlphanumeric (Char.ofNat (r.1 + k))) = true := by decide +kernel
  have inside := (inRanges_iff ascending).mp blank
  simpa using forall_char_of_ranges (p := fun c => !isAlphanumeric c) apart inside

theorem isAlphabetic_of_isDigit {c : Char} (digit : c.isDigit = true) : isAlphabetic c = false := by
  have apart : ∀ r ∈ [(48, 57)], ∀ k < r.2 + 1 - r.1,
      (!isAlphabetic (Char.ofNat (r.1 + k))) = true := by decide +kernel
  obtain ⟨lower, upper⟩ := Char.isDigit_iff_toNat.mp digit
  simpa using forall_char_of_ranges (p := fun c => !isAlphabetic c) apart
    ⟨(48, 57), List.mem_cons_self .., lower, upper⟩

namespace Kind

/-- The characters that are tokens of their own kind. -/
def symbols : List Char :=
  ['*', '!', '|', ',', '[', ']', '(', ')', '"', '=', '&', '-', ':', '_', '.']

/-- Characters without a meaning of their own go by their Unicode properties. -/
theorem ofChar_of_not_mem_symbols {c : Char} (plain : c ∉ symbols) :
    ofChar c = if isBlank c then whitespace else if c.isDigit then digit
      else if isAlphabetic c then letter else other := by
  unfold ofChar
  split
  all_goals first | rfl | exact absurd (by decide) plain

theorem not_mem_symbols {c : Char} (word : isAlphanumeric c = true) : c ∉ symbols := by
  have apart : symbols.all (!isAlphanumeric ·) = true := by decide +kernel
  intro member
  have noWord := List.all_eq_true.mp apart c member
  rw [word] at noWord
  cases noWord

theorem isBlank_of_isAlphanumeric {c : Char} (word : isAlphanumeric c = true) : isBlank c = false := by
  cases blank : isBlank c with
  | false => rfl
  | true =>
    rw [isAlphanumeric_of_isBlank blank] at word
    cases word

theorem ofChar_of_isDigit {c : Char} (isDigit : c.isDigit = true) : ofChar c = digit := by
  have word : isAlphanumeric c = true := by simp [isAlphanumeric, isNumeric, isDigit]
  simp [ofChar_of_not_mem_symbols (not_mem_symbols word), isBlank_of_isAlphanumeric word, isDigit]

theorem ofChar_of_isAlphabetic {c : Char} (alphabetic : isAlphabetic c = true) : ofChar c = letter := by
  have word : isAlphanumeric c = true := by simp [isAlphanumeric, alphabetic]
  have notDigit : ¬c.isDigit = true := fun isDigit => by
    rw [isAlphabetic_of_isDigit isDigit] at alphabetic
    cases alphabetic
  simp [ofChar_of_not_mem_symbols (not_mem_symbols word), isBlank_of_isAlphanumeric word, notDigit,
    alphabetic]

/-- What can be told of a character by its kind. -/
theorem ofChar_cases (c : Char) :
    c ∈ symbols ∨ (ofChar c = digit ∧ c.isDigit = true) ∨ (ofChar c = letter ∧ isAlphabetic c = true) ∨
      ofChar c = whitespace ∨ ofChar c = other := by
  by_cases symbol : c ∈ symbols
  · exact .inl symbol
  · rw [ofChar_of_not_mem_symbols symbol]
    cases isBlank c <;> cases c.isDigit <;> cases isAlphabetic c <;> simp

/-- A name begins with a letter or an underscore. -/
theorem beginsName_ofChar_iff {c : Char} :
    (ofChar c).beginsName = true ↔ isAlphabetic c = true ∨ c = '_' := by
  constructor
  · intro begins
    rcases ofChar_cases c with symbol | ⟨kind, -⟩ | ⟨-, letter⟩ | kind | kind
    · have each : symbols.all (fun s => s == '_' || !(ofChar s).beginsName) = true := by decide
      exact .inr (by simpa [begins] using List.all_eq_true.mp each c symbol)
    · simp [kind, beginsName] at begins
    · exact .inl letter
    · simp [kind, beginsName] at begins
    · simp [kind, beginsName] at begins
  · rintro (letter | rfl)
    · rw [ofChar_of_isAlphabetic letter]
      rfl
    · rfl

theorem inName_ofChar_iff {c : Char} :
    (ofChar c).inName = true ↔ isAlphabetic c = true ∨ c.isDigit = true ∨ c = '_' := by
  constructor
  · intro inside
    rcases ofChar_cases c with symbol | ⟨-, isDigit⟩ | ⟨-, letter⟩ | kind | kind
    · have each : symbols.all (fun s => s == '_' || !(ofChar s).inName) = true := by decide
      exact .inr (.inr (by simpa [inside] using List.all_eq_true.mp each c symbol))
    · exact .inr (.inl isDigit)
    · exact .inl letter
    · simp [kind, inName] at inside
    · simp [kind, inName] at inside
  · rintro (letter | isDigit | rfl)
    · rw [ofChar_of_isAlphabetic letter]
      rfl
    · rw [ofChar_of_isDigit isDigit]
      rfl
    · rfl

theorem isMember_ofChar {c : Char} (word : isAlphanumeric c = true) : (ofChar c).isMember = true := by
  rw [ofChar_of_not_mem_symbols (not_mem_symbols word), isBlank_of_isAlphanumeric word]
  cases c.isDigit <;> cases isAlphabetic c <;> rfl

/-- What is not reserved, `=` and `&` apart, stands for itself. -/
theorem isLiteral_ofChar {c : Char} (free : c ∉ reserved) (notEqual : c ≠ '=') (notAmpersand : c ≠ '&') :
    (ofChar c).isLiteral = true := by
  by_cases symbol : c ∈ symbols
  · have each : symbols.all (fun s => reserved.contains s || s == '=' || s == '&' || (ofChar s).isLiteral) =
        true := by decide
    simpa [free, notEqual, notAmpersand] using List.all_eq_true.mp each c symbol
  · rw [ofChar_of_not_mem_symbols symbol]
    cases isBlank c <;> cases c.isDigit <;> cases isAlphabetic c <;> rfl

theorem ofChar_ne_doubleQuote {c : Char} (other : c ≠ '"') : ofChar c ≠ doubleQuote := by
  by_cases symbol : c ∈ symbols
  · have each : symbols.all (fun s => s == '"' || ofChar s != doubleQuote) = true := by decide
    simpa [other] using List.all_eq_true.mp each c symbol
  · rw [ofChar_of_not_mem_symbols symbol]
    cases isBlank c <;> cases c.isDigit <;> cases isAlphabetic c <;> nofun

theorem classify_ne_doubleQuote {c : Char} (other : c ≠ '"') (quoted : Bool) :
    classify quoted c ≠ doubleQuote := by
  simp only [classify]
  split
  · nofun
  · exact ofChar_ne_doubleQuote other

end Kind

namespace Token

/-- A character that is no backslash is a token of its own. -/
theorem scanFrom_cons (position : Position) (quoted : Bool) {c : Char} (plain : c ≠ '\\') :
    ∃ t, t.char = c ∧ t.kind = Kind.classify quoted c ∧ ∀ cs, scanFrom position quoted (c :: cs) =
      t :: scanFrom t.after (quoted != (t.kind == .doubleQuote)) cs := by
  refine ⟨⟨.classify quoted c, c, false, position⟩, rfl, rfl, fun cs => ?_⟩
  rw [scanFrom]
  exact fun _ _ backslash => absurd backslash plain

/-- A backslash and a reserved character are a token together. -/
theorem scanFrom_escape (position : Position) (quoted : Bool) {c : Char} (special : c ∈ reserved) :
    ∃ t, t.char = c ∧ t.kind = .escaped ∧ ∀ cs,
      scanFrom position quoted ('\\' :: c :: cs) = t :: scanFrom t.after quoted cs := by
  refine ⟨⟨.escaped, c, true, position⟩, rfl, rfl, fun cs => ?_⟩
  rw [scanFrom, if_pos special]

/-- Tokens that open no quote that they do not close, with every backslash among them escaped. -/
structure Closed (ts : List Token) : Prop where
  balanced : ∀ rest, openQuote? none (ts ++ rest) = openQuote? none rest
  escaped : ∀ t ∈ ts, t.char = '\\' → t.kind = .escaped

namespace Closed

theorem nil : Closed [] :=
  ⟨fun _ => rfl, nofun⟩

theorem append {ts us : List Token} (first : Closed ts) (second : Closed us) : Closed (ts ++ us) := by
  refine ⟨fun rest => ?_, fun t member => ?_⟩
  · rw [List.append_assoc, first.balanced, second.balanced]
  · rcases List.mem_append.mp member with inFirst | inSecond
    · exact first.escaped t inFirst
    · exact second.escaped t inSecond

theorem single {t : Token} (noQuote : t.kind ≠ .doubleQuote) (escaped : t.char = '\\' → t.kind = .escaped) :
    Closed [t] := by
  refine ⟨fun rest => ?_, fun u member => ?_⟩
  · rw [List.singleton_append, openQuote?, if_neg noQuote]
  · rw [List.mem_singleton.mp member]
    exact escaped

/-- Closed tokens can be read in one way only. -/
theorem ambiguity?_eq_none {ts : List Token} (closed : Closed ts) : ambiguity? ts = none := by
  have balanced := closed.balanced []
  rw [List.append_nil] at balanced
  rw [ambiguity?, balanced]
  cases found : ts.getLast? with
  | none => rfl
  | some last =>
    have escaped := closed.escaped last (List.mem_of_getLast? found)
    have settled : ¬(last.kind = .other ∧ last.char = '\\') := by
      rintro ⟨other, backslash⟩
      rw [escaped backslash] at other
      cases other
    simp only [openQuote?, if_neg settled]

end Closed

/-- Characters that are cut into closed tokens with a property, wherever they stand and whatever
comes after them. -/
def Scans (cs : List Char) (spells : List Token → Prop) : Prop :=
  ∀ position, ∃ ts position', Closed ts ∧ spells ts ∧
    ∀ more, scanFrom position false (cs ++ more) = ts ++ scanFrom position' false more

namespace Scans

theorem nil {spells : List Token → Prop} (empty : spells []) : Scans [] spells :=
  fun position => ⟨[], position, Closed.nil, empty, fun _ => rfl⟩

theorem imp {cs : List Char} {spells spells' : List Token → Prop} (scans : Scans cs spells)
    (weaker : ∀ ts, spells ts → spells' ts) : Scans cs spells' := by
  intro position
  obtain ⟨ts, position', closed, spelled, cut⟩ := scans position
  exact ⟨ts, position', closed, weaker ts spelled, cut⟩

theorem append {cs ds : List Char} {spells spells' whole : List Token → Prop} (first : Scans cs spells)
    (second : Scans ds spells') (both : ∀ ts us, spells ts → spells' us → whole (ts ++ us)) :
    Scans (cs ++ ds) whole := by
  intro position
  obtain ⟨ts, between, closed, spelled, cut⟩ := first position
  obtain ⟨us, after, closed', spelled', cut'⟩ := second between
  refine ⟨ts ++ us, after, closed.append closed', both ts us spelled spelled', fun more => ?_⟩
  rw [List.append_assoc, cut, cut', List.append_assoc]

theorem both {cs ds : List Char} {spells spells' : List Token → Prop} (first : Scans cs spells)
    (second : Scans ds spells') :
    Scans (cs ++ ds) fun ts => ∃ us vs, ts = us ++ vs ∧ spells us ∧ spells' vs :=
  first.append second fun us vs spelled spelled' => ⟨us, vs, rfl, spelled, spelled'⟩

/-- A character that is no quote and no backslash is a token by itself. -/
theorem char {c : Char} (noQuote : c ≠ '"') (noBackslash : c ≠ '\\') :
    Scans [c] fun ts => ∃ t, ts = [t] ∧ t.char = c ∧ t.kind = Kind.ofChar c := by
  intro position
  obtain ⟨t, rfl, kind, cut⟩ := scanFrom_cons position false noBackslash
  have kind : t.kind = Kind.ofChar t.char := kind
  have notQuote : t.kind ≠ .doubleQuote := by
    rw [kind]
    exact Kind.ofChar_ne_doubleQuote noQuote
  refine ⟨[t], t.after, .single notQuote fun same => absurd same noBackslash, ⟨t, rfl, rfl, kind⟩, fun more => ?_⟩
  rw [List.singleton_append, cut, beq_eq_false_iff_ne.mpr notQuote]
  rfl

/-- Text without quotes and backslashes is cut into its characters. -/
theorem chars {cs : List Char} (clear : ∀ c ∈ cs, c ≠ '"' ∧ c ≠ '\\') :
    Scans cs fun ts => ts.map Token.char = cs ∧ ∀ t ∈ ts, t.kind = Kind.ofChar t.char := by
  induction cs with
  | nil => exact nil ⟨rfl, nofun⟩
  | cons c cs ih =>
    obtain ⟨⟨noQuote, noBackslash⟩, clear⟩ := List.forall_mem_cons.mp clear
    refine (char noQuote noBackslash).append (ih clear) ?_
    rintro _ us ⟨t, rfl, rfl, kind⟩ ⟨rfl, kinds⟩
    exact ⟨rfl, List.forall_mem_cons.mpr ⟨kind, kinds⟩⟩

/-- An escaped character stands for itself. -/
theorem escape {c : Char} (special : c ∈ reserved) :
    Scans ['\\', c] fun ts => ∃ t, ts = [t] ∧ t.char = c ∧ t.kind = .escaped := by
  intro position
  obtain ⟨t, rfl, kind, cut⟩ := scanFrom_escape position false special
  exact ⟨[t], t.after, .single (by simp [kind]) fun _ => kind, ⟨t, rfl, rfl, kind⟩, cut⟩

end Scans

/-- A character, with a backslash before it if it is special. -/
def escaping (special : List Char) (c : Char) : List Char :=
  if c ∈ special then ['\\', c] else [c]

/-- Outside quotes an escaped character only stands for itself. -/
theorem Scans.literal {c : Char} (notEqual : c ≠ '=') (notAmpersand : c ≠ '&') :
    Scans (escaping reserved c) fun ts => ∃ t, ts = [t] ∧ t.char = c ∧ t.kind.isLiteral = true := by
  by_cases special : c ∈ reserved
  · rw [escaping, if_pos special]
    refine (escape special).imp ?_
    rintro _ ⟨t, rfl, rfl, kind⟩
    exact ⟨t, rfl, rfl, by rw [kind]; rfl⟩
  · have noQuote : c ≠ '"' := by
      rintro rfl
      exact special (by decide)
    have noBackslash : c ≠ '\\' := by
      rintro rfl
      exact special (by decide)
    rw [escaping, if_neg special]
    refine (char noQuote noBackslash).imp ?_
    rintro _ ⟨t, rfl, rfl, kind⟩
    exact ⟨t, rfl, rfl, by rw [kind]; exact Kind.isLiteral_ofChar special notEqual notAmpersand⟩

/-- A text with backslashes before its reserved characters stands for itself. -/
theorem Scans.literals {cs : List Char} (clear : ∀ c ∈ cs, c ≠ '=' ∧ c ≠ '&') :
    Scans (cs.flatMap (escaping reserved)) fun ts =>
      ts.map Token.char = cs ∧ ∀ t ∈ ts, t.kind.isLiteral = true := by
  induction cs with
  | nil => exact nil ⟨rfl, nofun⟩
  | cons c cs ih =>
    obtain ⟨⟨notEqual, notAmpersand⟩, clear⟩ := List.forall_mem_cons.mp clear
    rw [List.flatMap_cons]
    refine (literal notEqual notAmpersand).append (ih clear) ?_
    rintro _ us ⟨t, rfl, rfl, literal⟩ ⟨rfl, literals⟩
    exact ⟨rfl, List.forall_mem_cons.mpr ⟨literal, literals⟩⟩

theorem scanFrom_escaping (position : Position) (c : Char) :
    ∃ t, t.char = c ∧ t.kind ≠ .doubleQuote ∧ (c = '\\' → t.kind = .escaped) ∧ ∀ more,
      scanFrom position true (escaping ['"', '\\'] c ++ more) = t :: scanFrom t.after true more := by
  by_cases special : c ∈ ['"', '\\']
  · have each : ['"', '\\'].all (reserved.contains ·) = true := by decide
    have isReserved : c ∈ reserved := List.contains_iff_mem.mp (List.all_eq_true.mp each c special)
    obtain ⟨t, char, kind, cut⟩ := scanFrom_escape position true isReserved
    rw [escaping, if_pos special]
    exact ⟨t, char, by simp [kind], fun _ => kind, cut⟩
  · have noQuote : c ≠ '"' := by
      rintro rfl
      exact special (by decide)
    have noBackslash : c ≠ '\\' := by
      rintro rfl
      exact special (by decide)
    obtain ⟨t, char, kind, cut⟩ := scanFrom_cons position true noBackslash
    have notQuote : t.kind ≠ .doubleQuote := kind ▸ Kind.classify_ne_doubleQuote noQuote true
    rw [escaping, if_neg special]
    refine ⟨t, char, notQuote, fun backslash => absurd backslash noBackslash, fun more => ?_⟩
    have next := cut more
    rw [beq_eq_false_iff_ne.mpr notQuote] at next
    exact next

/-- Between quotes no character ends the text but a quote without a backslash before it. -/
theorem scanFrom_body (cs : List Char) (position : Position) :
    ∃ ts closing position', ts.map Token.char = cs ∧ (∀ t ∈ ts, t.kind ≠ .doubleQuote) ∧
      (∀ t ∈ ts, t.char = '\\' → t.kind = .escaped) ∧ closing.char = '"' ∧ closing.kind = .doubleQuote ∧
      ∀ more, scanFrom position true (cs.flatMap (escaping ['"', '\\']) ++ '"' :: more) =
        ts ++ closing :: scanFrom position' false more := by
  induction cs generalizing position with
  | nil =>
    obtain ⟨closing, char, kind, cut⟩ := scanFrom_cons position true (by decide : '"' ≠ '\\')
    have kind : closing.kind = .doubleQuote := kind
    refine ⟨[], closing, closing.after, rfl, nofun, nofun, char, kind, fun more => ?_⟩
    have ends := cut more
    rw [kind] at ends
    exact ends
  | cons c cs ih =>
    obtain ⟨t, rfl, notQuote, escaped, cut⟩ := scanFrom_escaping position c
    obtain ⟨ts, closing, position', rfl, clear, escapes, char, kind, cut'⟩ := ih t.after
    refine ⟨t :: ts, closing, position', rfl, List.forall_mem_cons.mpr ⟨notQuote, clear⟩,
      List.forall_mem_cons.mpr ⟨escaped, escapes⟩, char, kind, fun more => ?_⟩
    rw [List.flatMap_cons, List.append_assoc, cut, cut', List.cons_append]

/-- Tokens without quotes open none and close none. -/
theorem openQuote?_clear {ts : List Token} (clear : ∀ t ∈ ts, t.kind ≠ .doubleQuote)
    (opening : Option Token) (rest : List Token) :
    openQuote? opening (ts ++ rest) = openQuote? opening rest := by
  induction ts with
  | nil => rfl
  | cons t ts ih =>
    obtain ⟨notQuote, clear⟩ := List.forall_mem_cons.mp clear
    rw [List.cons_append, openQuote?, if_neg notQuote, ih clear]

/-- A text in quotes: quotes and backslashes in it are escaped. -/
def quoting (cs : List Char) : List Char :=
  '"' :: cs.flatMap (escaping ['"', '\\']) ++ ['"']

/-- A text in quotes, with backslashes where they are needed, stands for itself. -/
theorem Scans.quoted (cs : List Char) :
    Scans (quoting cs) fun ts => ∃ opening inside closing, ts = opening :: inside ++ [closing] ∧
      opening.kind = .doubleQuote ∧ closing.kind = .doubleQuote ∧
      (∀ t ∈ inside, t.kind ≠ .doubleQuote) ∧ inside.map Token.char = cs := by
  intro position
  obtain ⟨opening, char, kind, cut⟩ := scanFrom_cons position false (by decide : '"' ≠ '\\')
  have kind : opening.kind = .doubleQuote := kind
  obtain ⟨inside, closing, position', chars, clear, escapes, char', kind', cut'⟩ := scanFrom_body cs opening.after
  refine ⟨opening :: inside ++ [closing], position', ⟨fun rest => ?_, ?_⟩,
    ⟨opening, inside, closing, rfl, kind, kind', clear, chars⟩, fun more => ?_⟩
  · simp only [List.cons_append, List.append_assoc, List.nil_append]
    rw [openQuote?, if_pos kind, openQuote?_clear clear, openQuote?, if_pos kind']
    rfl
  · intro t member backslash
    rcases List.mem_append.mp member with member | last
    · rcases List.mem_cons.mp member with rfl | within
      · rw [char] at backslash
        cases backslash
      · exact escapes t within backslash
    · rw [List.mem_singleton.mp last, char'] at backslash
      cases backslash
  · have opened := cut (cs.flatMap (escaping ['"', '\\']) ++ '"' :: more)
    rw [kind] at opened
    simp only [quoting, List.cons_append, List.append_assoc, List.nil_append]
    rw [opened, ← cut']
    rfl

end Token

open Token (Scans)

/-- One token of a certain kind. -/
def IsMark (kind : Kind) (ts : List Token) : Prop :=
  ∃ t, ts = [t] ∧ t.kind = kind

/-- A mark is a token of its kind. -/
theorem scans_mark {c : Char} {kind : Kind} (marks : Kind.ofChar c = kind) (noQuote : kind ≠ .doubleQuote)
    (noOther : kind ≠ .other) : Scans [c] (IsMark kind) := by
  subst marks
  have notQuote : c ≠ '"' := by
    rintro rfl
    exact noQuote rfl
  have notBackslash : c ≠ '\\' := by
    rintro rfl
    exact noOther rfl
  refine (Scans.char notQuote notBackslash).imp ?_
  rintro _ ⟨t, rfl, -, isKind⟩
  exact ⟨t, rfl, isKind⟩

end Sift

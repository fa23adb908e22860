import Sift.Proofs.Calendar.Written
import Sift.Proofs.Grammar.Criteria
import Sift.Proofs.Token.Placement

namespace Sift

open Token (Scans quoting escaping)

/-- A text as it may be written: in quotes, or without if it is not empty and holds no `=` and no `&`,
which cannot be escaped. -/
inductive Spelling where
  | quoted (text : String)
  | plain (text : String) (filled : text ≠ "") (free : ∀ c ∈ text.toList, c ≠ '=' ∧ c ≠ '&')

namespace Spelling

/-- The text that a spelling is for. -/
def text : Spelling → String
  | quoted text => text
  | plain text _ _ => text

/-- The characters of a spelling: in quotes, or with backslashes where they are needed. -/
def written : Spelling → List Char
  | quoted text => quoting text.toList
  | plain text _ _ => text.toList.flatMap (escaping reserved)

end Spelling

/-- The conditions on a text that are written with stars. -/
inductive Pattern where
  | anything
  | constant (text : Spelling)
  | startsWith (text : Spelling)
  | endsWith (text : Spelling)
  | contains (text : Spelling)
  | around (before after : Spelling)

namespace Pattern

/-- The condition that a pattern is for. -/
def expression : Pattern → Expression
  | anything => .anything
  | constant text => .constant text.text
  | startsWith text => .startsWith text.text
  | endsWith text => .endsWith text.text
  | contains text => .contains text.text
  | around before after => .and (.startsWith before.text) (.endsWith after.text)

/-- A pattern with its stars. -/
def written : Pattern → List Char
  | anything => ['*']
  | constant text => text.written
  | startsWith text => text.written ++ ['*']
  | endsWith text => '*' :: text.written
  | contains text => '*' :: text.written ++ ['*']
  | around before after => before.written ++ '*' :: after.written

end Pattern

namespace Boundary

/-- The bounds that have a written form: words, and dates and times that exist. -/
def IsPrintable : Boundary → Prop
  | unbounded => True
  | constant text => isWord text
  | date d => d.IsOrdinary
  | time t => t.fault? = none
  | dateTime d t => d.IsOrdinary ∧ t.fault? = none

/-- A bound as it is written in an interval. -/
def written : Boundary → List Char
  | unbounded => ['*']
  | constant text => text.toList
  | date d => d.text.toList
  | time t => t.text.toList
  | dateTime d t => (dateTimeText d t).toList

end Boundary

/-- The character that stands between two operands. -/
def Chain.mark : Chain → Char
  | alternatives => '|'
  | conditions => ','

/-- The ways to write an expression on a layer, without classes. -/
inductive Canonical : Layer → Type
  | pattern (pattern : Pattern) : Canonical .unary
  | interval (min max : Boundary) (lower : min.IsPrintable) (upper : max.IsPrintable) : Canonical .unary
  | group (inner : Canonical (.chain .alternatives)) : Canonical .unary
  | not (inner : Canonical .unary) : Canonical .unary
  | first {chain : Chain} (operand : Canonical chain.operands) : Canonical (.chain chain)
  | next {chain : Chain} (before : Canonical (.chain chain)) (operand : Canonical chain.operands) :
      Canonical (.chain chain)

namespace Canonical

/-- The expression that is written. -/
def expression {layer : Layer} : Canonical layer → Expression
  | pattern p => p.expression
  | interval min max _ _ => .interval min max
  | group inner => .group inner.expression
  | not inner => .not inner.expression
  | first operand => operand.expression
  | @next chain before operand => chain.join before.expression operand.expression

/-- The written form of an expression. Bounds have `TO` between them, and groups their parentheses. -/
def written {layer : Layer} : Canonical layer → List Char
  | pattern p => p.written
  | interval min max _ _ => '[' :: (min.written ++ (" TO ".toList ++ (max.written ++ [']'])))
  | group inner => '(' :: (inner.written ++ [')'])
  | not inner => '!' :: inner.written
  | first operand => operand.written
  | @next chain before operand => before.written ++ chain.mark :: operand.written

end Canonical

/-- A name that a property path may hold. -/
def IsName (name : String) : Prop :=
  ∃ first others, name.toList = first :: others ∧ (isAlphabetic first = true ∨ first = '_') ∧
    ∀ c ∈ others, isAlphabetic c = true ∨ c.isDigit = true ∨ c = '_'

/-- A criterion with a way to write it. -/
structure CanonicalCriterion where
  property : PropertyPath
  nonempty : property.segments ≠ []
  named : ∀ name ∈ property.segments, IsName name
  value : Canonical (.chain .alternatives)

namespace CanonicalCriterion

/-- The criterion that is written. -/
def criterion (c : CanonicalCriterion) : Criterion :=
  ⟨c.property, c.value.expression⟩

/-- A path, `=` and the written form of an expression. -/
def text (c : CanonicalCriterion) : String :=
  c.property.dotted ++ "=" ++ String.ofList c.value.written

end CanonicalCriterion

theorem textSpells_literals {ts : List Token} (nonempty : ts ≠ [])
    (literals : ∀ t ∈ ts, t.kind.isLiteral = true) :
    TextSpells ts (ts.map fun t => .literal [t.char]) := by
  induction ts with
  | nil => exact absurd rfl nonempty
  | cons t ts ih =>
    obtain ⟨literal, literals⟩ := List.forall_mem_cons.mp literals
    cases ts with
    | nil => exact .last (.plain literal)
    | cons u us => exact .next (.plain literal) (ih (List.cons_ne_nil u us) literals)

/-- Tokens of a text without choices. -/
def SpellsText (text : String) (ts : List Token) : Prop :=
  ∃ segments, TextSpells ts segments ∧ ∀ build, TextMeans build segments (build text)

/-- A text in pieces without classes is the condition on the text as a whole. -/
theorem textMeans_pieces {pieces : List (List Char)} {text : String} (written : text.toList = pieces.flatten)
    (build : String → Expression) : TextMeans build (pieces.map .literal) (build text) := by
  have whole : TextMeans build (pieces.map .literal) (build (String.ofList pieces.flatten)) := .whole
  rwa [← written, String.ofList_toList] at whole

/-- Both spellings of a text are read as that text. -/
theorem Spelling.scans (s : Spelling) : Scans s.written (SpellsText s.text) := by
  cases s with
  | quoted text =>
    refine (Scans.quoted text.toList).imp ?_
    rintro _ ⟨opening, inside, closing, rfl, opens, closes, clear, chars⟩
    have means := @textMeans_pieces [inside.map Token.char] text (by rw [List.flatten_singleton, chars])
    exact ⟨_, .last (.quoted opens clear closes), means⟩
  | plain text filled free =>
    refine (Scans.literals free).imp ?_
    rintro ts ⟨chars, literals⟩
    have nonempty : ts ≠ [] := by
      rintro rfl
      exact filled (String.toList_eq_nil_iff.mp chars.symm)
    have means := @textMeans_pieces (ts.map ([Token.char ·])) text
      (by rw [← chars, List.map_eq_flatMap, List.flatMap_def])
    rw [List.map_map] at means
    exact ⟨_, textSpells_literals nonempty literals, means⟩

theorem scans_star : Scans ['*'] (IsMark .asterisk) :=
  scans_mark rfl nofun nofun

/-- A pattern is a term for its condition. -/
theorem Pattern.scans (p : Pattern) : Scans p.written (TermSpells · p.expression) := by
  cases p with
  | anything =>
    refine scans_star.imp ?_
    rintro _ ⟨star, rfl, isStar⟩
    exact .anything isStar
  | constant text =>
    refine text.scans.imp ?_
    rintro ts ⟨segments, spelled, means⟩
    exact .constant spelled (means _)
  | startsWith text =>
    refine text.scans.append scans_star ?_
    rintro ts _ ⟨segments, spelled, means⟩ ⟨star, rfl, isStar⟩
    exact .startsWith spelled isStar (means _)
  | endsWith text =>
    refine scans_star.append text.scans ?_
    rintro _ ts ⟨star, rfl, isStar⟩ ⟨segments, spelled, means⟩
    exact .endsWith isStar spelled (means _)
  | contains text =>
    refine (scans_star.both text.scans).append scans_star ?_
    rintro _ _ ⟨_, ts, rfl, ⟨star, rfl, isStar⟩, segments, spelled, means⟩ ⟨star', rfl, isStar'⟩
    exact .contains isStar spelled isStar' (means _)
  | around before after =>
    refine before.scans.append (scans_star.both after.scans) ?_
    rintro ts _ ⟨segments, spelled, begins⟩ ⟨_, us, rfl, ⟨star, rfl, isStar⟩, segments', spelled', ends⟩
    exact .around spelled isStar spelled' (begins _) (ends _)

theorem InBound.spec {c : Char} (inBound : InBound c) :
    c ≠ '"' ∧ c ≠ '\\' ∧ (Kind.ofChar c).isMember = true := by
  rcases inBound with word | symbol
  · refine ⟨?_, ?_, Kind.isMember_ofChar word⟩
    all_goals
      rintro rfl
      exact absurd word (by decide +kernel)
  · have each : ['-', ':', '_', '.'].all (fun s => s != '"' && s != '\\' && (Kind.ofChar s).isMember) = true := by
      decide
    simpa [and_assoc] using List.all_eq_true.mp each c symbol

/-- Words have only characters that a bound may have. -/
theorem inBound_of_isWord {text : String} (word : isWord text = true) :
    text ≠ "" ∧ ∀ c ∈ text.toList, InBound c := by
  have body : ∀ cs : List Char, (!cs.isEmpty && cs.all fun c => isAlphanumeric c || c == '_' || c == '.') = true →
      cs ≠ [] ∧ ∀ c ∈ cs, InBound c := by
    intro cs holds
    simp only [Bool.and_eq_true, Bool.not_eq_true', List.isEmpty_eq_false_iff, List.all_eq_true, Bool.or_eq_true,
      beq_iff_eq] at holds
    refine ⟨holds.1, fun c member => ?_⟩
    rcases holds.2 c member with (word | rfl) | rfl
    · exact .inl word
    · exact .inr (by decide)
    · exact .inr (by decide)
  have filled : text.toList ≠ [] → text ≠ "" := fun nonempty empty => nonempty (by rw [empty]; rfl)
  simp only [isWord] at word
  split at word
  · rename_i cs whole
    obtain ⟨-, inBound⟩ := body cs word
    rw [whole] at filled ⊢
    exact ⟨filled (List.cons_ne_nil _ _), List.forall_mem_cons.mpr ⟨.inr (by decide), inBound⟩⟩
  · obtain ⟨nonempty, inBound⟩ := body _ word
    exact ⟨filled nonempty, inBound⟩

theorem scans_run {text : String} (filled : text ≠ "") (inBound : ∀ c ∈ text.toList, InBound c) :
    Scans text.toList (RunSpells · text) := by
  refine (Scans.chars fun c member => ⟨(inBound c member).spec.1, (inBound c member).spec.2.1⟩).imp ?_
  rintro ts ⟨chars, kinds⟩
  refine ⟨?_, fun t member => ?_, by rw [chars, String.ofList_toList]⟩
  · rintro rfl
    exact filled (String.toList_eq_nil_iff.mp chars.symm)
  · rw [kinds t member]
    exact (inBound t.char (chars ▸ List.mem_map_of_mem member)).spec.2.2

/-- A bound that can be written is spelled by what it is written as. -/
theorem Boundary.scans {b : Boundary} (printable : b.IsPrintable) : Scans b.written (BoundSpells · b) := by
  cases b with
  | unbounded =>
    refine scans_star.imp ?_
    rintro _ ⟨star, rfl, isStar⟩
    exact .unbounded isStar
  | constant text =>
    obtain ⟨filled, inBound⟩ := inBound_of_isWord printable
    exact (scans_run filled inBound).imp fun ts run => .constant run printable
  | date d =>
    have filled : d.text ≠ "" := by simp [Date.text, Date.written]
    have inBound : ∀ c ∈ d.text.toList, InBound c := by
      rw [Date.text, String.toList_ofList]
      exact d.inBound_written
    exact (scans_run filled inBound).imp fun ts run => .date run (Date.read_text printable)
  | time t =>
    have filled : t.text ≠ "" := by simp [Time.text, Time.written]
    have inBound : ∀ c ∈ t.text.toList, InBound c := by
      rw [Time.text, String.toList_ofList]
      exact t.inBound_written
    exact (scans_run filled inBound).imp fun ts run => .time run (Time.read_text printable)
  | dateTime d t =>
    have filled : dateTimeText d t ≠ "" := by simp [dateTimeText]
    have inBound : ∀ c ∈ (dateTimeText d t).toList, InBound c := by
      rw [dateTimeText, String.toList_ofList]
      exact inBound_dateTime d t
    exact (scans_run filled inBound).imp fun ts run =>
      .dateTime run (readDateTime_text printable.1 printable.2)

theorem scans_to : Scans " TO ".toList fun ts => ∃ before t o after, ts = [before, t, o, after] ∧
    IsGap [before] ∧ t.IsLetter 'T' ∧ o.IsLetter 'O' ∧ IsGap [after] := by
  have clear : ∀ c ∈ " TO ".toList, c ≠ '"' ∧ c ≠ '\\' := by simp
  refine (Scans.chars clear).imp ?_
  rintro ts ⟨chars, kinds⟩
  have four : ts.map Token.char = [' ', 'T', 'O', ' '] := chars
  obtain ⟨before, rest, rfl, isBlank, others⟩ := List.map_eq_cons_iff.mp four
  obtain ⟨t, rest, rfl, isT, others⟩ := List.map_eq_cons_iff.mp others
  obtain ⟨o, rest, rfl, isO, others⟩ := List.map_eq_cons_iff.mp others
  obtain ⟨after, rfl, isBlank'⟩ := List.map_eq_singleton_iff.mp others
  have kind : ∀ u ∈ [before, t, o, after], u.kind = Kind.ofChar u.char := kinds
  simp only [List.forall_mem_cons, isBlank, isT, isO, isBlank'] at kind
  obtain ⟨beforeKind, tKind, oKind, afterKind, -⟩ := kind
  have gap : ∀ u : Token, u.kind = .whitespace → IsGap [u] := fun u blank =>
    ⟨List.cons_ne_nil _ _, fun v member => List.mem_singleton.mp member ▸ blank⟩
  exact ⟨before, t, o, after, rfl, gap before beforeKind, ⟨tKind, isT⟩, ⟨oKind, isO⟩, gap after afterKind⟩

theorem scans_interval {min max : Boundary} (lower : min.IsPrintable) (upper : max.IsPrintable) :
    Scans ('[' :: (min.written ++ (" TO ".toList ++ (max.written ++ [']']))))
      (IntervalSpells · (.interval min max)) := by
  have opening : Scans ['['] (IsMark .leftBracket) := scans_mark rfl nofun nofun
  have closing : Scans [']'] (IsMark .rightBracket) := scans_mark rfl nofun nofun
  refine opening.append ((Boundary.scans lower).both (scans_to.both ((Boundary.scans upper).both closing))) ?_
  rintro _ _ ⟨opening, rfl, opens⟩ ⟨front, _, rfl, spelled, _, _, rfl,
    ⟨before, t, o, after, rfl, gap, isT, isO, gap'⟩, back, _, rfl, spelled', closing, rfl, closes⟩
  have whole := IntervalSpells.mk opens spelled gap isT isO gap' spelled' closes
  simpa using whole

theorem Chain.scans_mark (c : Chain) : Scans [c.mark] (IsMark c.separator) := by
  cases c <;> exact Sift.scans_mark rfl nofun nofun

/-- The written form of an expression derives it on its layer. -/
theorem Canonical.scans {layer : Layer} (c : Canonical layer) : Scans c.written (Derives layer · c.expression) := by
  induction c with
  | pattern p => exact p.scans.imp fun ts => .term
  | interval min max lower upper => exact (scans_interval lower upper).imp fun ts => .interval
  | group inner ih =>
    have opening : Scans ['('] (IsMark .leftParenthesis) := scans_mark rfl nofun nofun
    have closing : Scans [')'] (IsMark .rightParenthesis) := scans_mark rfl nofun nofun
    refine opening.append (ih.both closing) ?_
    rintro _ _ ⟨opening, rfl, opens⟩ ⟨ts, _, rfl, derived, closing, rfl, closes⟩
    exact .group opens derived closes
  | not inner ih =>
    have bang : Scans ['!'] (IsMark .bang) := scans_mark rfl nofun nofun
    refine bang.append ih ?_
    rintro _ ts ⟨bang, rfl, isBang⟩ derived
    exact .not isBang derived
  | first operand ih => exact ih.imp fun ts => .first
  | @next chain before operand ihBefore ihOperand =>
    refine ihBefore.append (chain.scans_mark.both ihOperand) ?_
    rintro ts _ derived ⟨_, us, rfl, ⟨separator, rfl, separates⟩, derived'⟩
    exact .next derived separates derived'

theorem IsName.scans {name : String} (isName : IsName name) : Scans name.toList (NameSpells · name) := by
  obtain ⟨first, others, spelled, begins, inside⟩ := isName
  have beginsName : (Kind.ofChar first).beginsName = true := Kind.beginsName_ofChar_iff.mpr begins
  have inName : ∀ c ∈ others, (Kind.ofChar c).inName = true := fun c member =>
    Kind.inName_ofChar_iff.mpr (inside c member)
  have clear : ∀ c ∈ name.toList, c ≠ '"' ∧ c ≠ '\\' := by
    rw [spelled]
    refine List.forall_mem_cons.mpr ⟨?_, fun c member => ?_⟩
    · constructor <;> rintro rfl <;> exact absurd beginsName (by decide)
    · have := inName c member
      constructor <;> rintro rfl <;> exact absurd this (by decide)
  refine (Scans.chars clear).imp ?_
  rintro ts ⟨chars, kinds⟩
  rw [spelled] at chars
  obtain ⟨t, us, rfl, rfl, rfl⟩ := List.map_eq_cons_iff.mp chars
  have whole : name = String.ofList ((t :: us).map Token.char) := by rw [chars, ← spelled, String.ofList_toList]
  rw [whole]
  refine .mk ?_ fun u member => ?_
  · rwa [kinds t (List.mem_cons_self ..)]
  · rw [kinds u (List.mem_cons_of_mem _ member)]
    exact inName u.char (List.mem_map_of_mem member)

/-- Names with dots between them are a path. -/
theorem scans_path {names : List String} (nonempty : names ≠ []) (named : ∀ name ∈ names, IsName name) :
    Scans (joinWith ['.'] (names.map String.toList)) (NamesSpell · names) := by
  induction names with
  | nil => exact absurd rfl nonempty
  | cons name names ih =>
    obtain ⟨isName, named⟩ := List.forall_mem_cons.mp named
    cases names with
    | nil => exact isName.scans.imp fun ts => .last
    | cons next names =>
      have dot : Scans ['.'] (IsMark .dot) := scans_mark rfl nofun nofun
      refine (isName.scans.both dot).append (ih (List.cons_ne_nil _ _) named) ?_
      rintro _ us ⟨ts, _, rfl, spelled, dot, rfl, isDot⟩ further
      have whole := NamesSpell.next spelled isDot further
      simpa using whole

namespace CanonicalCriterion

theorem scans (c : CanonicalCriterion) : Scans c.text.toList (CriterionSpells · c.criterion) := by
  have equal : Scans ['='] (IsMark .equal) := scans_mark rfl nofun nofun
  have split : c.text.toList =
      joinWith ['.'] (c.property.segments.map String.toList) ++ (['='] ++ c.value.written) := by
    simp [text, PropertyPath.dotted, joinTexts]
  rw [split]
  refine (scans_path c.nonempty c.named).append (equal.both c.value.scans) ?_
  rintro ts _ spelled ⟨_, us, rfl, ⟨equal, rfl, isEqual⟩, derived⟩
  exact .mk spelled isEqual derived

theorem scans_all {cs : List CanonicalCriterion} (nonempty : cs ≠ []) :
    Scans (joinWith ['&'] (cs.map (·.text.toList))) (CriteriaSpell · (cs.map criterion)) := by
  induction cs with
  | nil => exact absurd rfl nonempty
  | cons c cs ih =>
    cases cs with
    | nil => exact c.scans.imp fun ts => .last
    | cons next cs =>
      have ampersand : Scans ['&'] (IsMark .ampersand) := scans_mark rfl nofun nofun
      refine (c.scans.both ampersand).append (ih (List.cons_ne_nil _ _)) ?_
      rintro _ us ⟨ts, _, rfl, spelled, ampersand, rfl, isAmpersand⟩ further
      have whole := CriteriaSpell.next spelled isAmpersand further
      simpa using whole

end CanonicalCriterion

/-- What a text is cut into can be read in one way only. -/
theorem Token.Scans.scan {text : String} {spells : List Token → Prop} (scans : Scans text.toList spells) :
    spells (scan text) ∧ ambiguity? (scan text) = none :=
  (scans.stands .start).symm

/-- Criteria are read back from their written form. -/
theorem Criterion.readList_written (cs : List CanonicalCriterion) (nonempty : cs ≠ []) :
    readList (joinTexts "&" (cs.map CanonicalCriterion.text)) = .ok (cs.map CanonicalCriterion.criterion) := by
  have scans := CanonicalCriterion.scans_all nonempty
  have same : joinWith ['&'] (cs.map (·.text.toList)) =
      (joinTexts "&" (cs.map CanonicalCriterion.text)).toList := by
    rw [joinTexts, String.toList_ofList, List.map_map]
    rfl
  rw [same] at scans
  obtain ⟨spelled, clear⟩ := scans.scan
  exact readText_eq_ok.mpr ⟨clear, spelled.read⟩

/-- A criterion alone is read back from its written form. -/
theorem CanonicalCriterion.readList_text (c : CanonicalCriterion) :
    Criterion.readList c.text = .ok [c.criterion] := by
  have read := Criterion.readList_written [c] (List.cons_ne_nil _ _)
  simpa [joinTexts, joinWith] using read

/-- Quotes, backslashes and marks in quotes stand for themselves. -/
theorem Criterion.readList_quote :
    readList "a=!\"\\\"|=\"*" = .ok [⟨⟨["a"]⟩, .not (.startsWith "\"|=")⟩] := by
  have named : ∀ name ∈ ["a"], IsName name := by
    intro name member
    rw [List.mem_singleton.mp member]
    exact ⟨'a', [], rfl, .inl (by decide), nofun⟩
  obtain ⟨c, text, criterion⟩ : ∃ c : CanonicalCriterion, c.text = "a=!\"\\\"|=\"*" ∧
      c.criterion = ⟨⟨["a"]⟩, .not (.startsWith "\"|=")⟩ :=
    ⟨⟨⟨["a"]⟩, List.cons_ne_nil _ _, named,
      .first (.first (.not (.pattern (.startsWith (.quoted "\"|=")))))⟩, rfl, rfl⟩
  have read := readList_written [c] (List.cons_ne_nil _ _)
  rw [List.map_singleton, List.map_singleton, text, criterion] at read
  exact read

/-- An expression is read back from its written form. -/
theorem Expression.read_written (c : Canonical (.chain .alternatives)) :
    Expression.read (String.ofList c.written) = .ok c.expression := by
  have scans := c.scans
  rw [← String.toList_ofList (l := c.written)] at scans
  exact read_eq_ok_iff_derives.mpr (scans.stands .start)

end Sift

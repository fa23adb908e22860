import Sift.Proofs.Grammar.Completeness
import Sift.Proofs.Grammar.Soundness

namespace Sift

/-- What is read as a name spells it. -/
theorem identifier_sound {ts : List Token} {name : String} {rest : List Token}
    (read : identifier ts = .ok (name, rest)) : ∃ front, ts = front ++ rest ∧ NameSpells front name := by
  cases ts with
  | nil => cases read
  | cons t ts =>
    simp only [identifier] at read
    split at read
    · rename_i begins
      cases read
      refine ⟨(t :: ts).takeWhile (·.kind.inName), List.takeWhile_append_dropWhile.symm, ?_⟩
      rw [List.takeWhile_cons, if_pos (Kind.inName_of_beginsName begins)]
      exact .mk begins fun u member => List.all_eq_true.mp List.all_takeWhile u member
    · cases read

theorem takeWhile_stop {front rest : List Token} {goesOn : Kind → Bool}
    (inside : ∀ t ∈ front, goesOn t.kind = true) (stops : Stops goesOn rest) :
    (front ++ rest).takeWhile (goesOn ·.kind) = front ∧
      (front ++ rest).dropWhile (goesOn ·.kind) = rest := by
  rw [List.takeWhile_append_of_pos inside, List.dropWhile_append_of_pos inside]
  cases rest with
  | nil => simp
  | cons t ts =>
    have out := stops_cons.mp stops
    simp [out]

/-- A name is read to its end if what comes next is not part of a name. -/
theorem identifier_complete {front : List Token} {name : String} (spelled : NameSpells front name)
    {rest : List Token} (stops : Stops Kind.inName rest) :
    identifier (front ++ rest) = .ok (name, rest) := by
  obtain @⟨first, ts, begins, inside⟩ := spelled
  have within : ∀ t ∈ first :: ts, t.kind.inName = true :=
    List.forall_mem_cons.mpr ⟨Kind.inName_of_beginsName begins, inside⟩
  obtain ⟨taken, left⟩ := takeWhile_stop within stops
  rw [List.cons_append] at taken left ⊢
  rw [identifier, if_pos begins, taken, left]

/-- Names behind dots are names of the path. -/
theorem furtherNames_sound {ts : List Token} {names : List String} {rest : List Token}
    (read : furtherNames ts = .ok (names, rest)) {before : List Token} {name : String}
    (first : NameSpells before name) :
    ∃ front, ts = front ++ rest ∧ NamesSpell (before ++ front) (name :: names) := by
  fun_induction furtherNames ts generalizing names rest before name with
  | case1 =>
    cases read
    exact ⟨[], rfl, by rw [List.append_nil]; exact .last first⟩
  | case2 => cases read
  | case3 t ts dot next left atNext ih =>
    obtain ⟨others, inner, rfl⟩ := Step.cons_eq_ok.mp read
    obtain ⟨us, rfl, spelled⟩ := identifier_sound atNext
    obtain ⟨front, rfl, further⟩ := ih inner spelled
    exact ⟨t :: (us ++ front), by simp, .next first dot further⟩
  | case4 =>
    cases read
    exact ⟨[], rfl, by rw [List.append_nil]; exact .last first⟩

theorem propertyPath_sound {ts : List Token} {path : PropertyPath} {rest : List Token}
    (read : propertyPath ts = .ok (path, rest)) :
    ∃ front names, ts = front ++ rest ∧ NamesSpell front names ∧ path = ⟨names⟩ := by
  obtain ⟨first, others, between, name, names, rfl⟩ := propertyPath_eq_ok.mp read
  obtain ⟨before, rfl, spelled⟩ := identifier_sound name
  obtain ⟨front, rfl, further⟩ := furtherNames_sound names spelled
  exact ⟨before ++ front, _, by simp, further, rfl⟩

/-- Kinds of tokens that go on with a property path. -/
def Kind.inPath (kind : Kind) : Bool :=
  kind.inName || kind == dot

/-- The names of a path are read one after the other. -/
theorem NamesSpell.read {front : List Token} {names : List String} (spelled : NamesSpell front names)
    {rest : List Token} (stops : Stops Kind.inPath rest) :
    ∃ first others between, names = first :: others ∧
      identifier (front ++ rest) = .ok (first, between) ∧ furtherNames between = .ok (others, rest) := by
  induction spelled with
  | last name =>
    cases rest with
    | nil => exact ⟨_, [], [], rfl, identifier_complete name (stops_nil _), by rw [furtherNames]⟩
    | cons t ts =>
      rw [stops_cons, Kind.inPath, Bool.or_eq_false_iff] at stops
      have noDot : t.kind ≠ .dot := beq_eq_false_iff_ne.mp stops.2
      refine ⟨_, [], t :: ts, rfl, identifier_complete name (stops_cons.mpr stops.1), ?_⟩
      rw [furtherNames, if_neg noDot]
  | @next ts name dot us names spelled isDot _ ih =>
    obtain ⟨next, others, between, rfl, atNext, further⟩ := ih
    have ends : Stops Kind.inName (dot :: (us ++ rest)) := by
      rw [stops_cons, isDot]
      rfl
    refine ⟨name, next :: others, dot :: (us ++ rest), rfl, ?_, ?_⟩
    · rw [List.append_assoc]
      exact identifier_complete spelled ends
    · rw [furtherNames, if_pos isDot]
      split
      · rename_i failed
        cases atNext.symm.trans failed
      · rename_i found
        cases atNext.symm.trans found
        exact Step.cons_eq_ok.mpr ⟨others, further, rfl⟩

theorem propertyPath_complete {front : List Token} {names : List String}
    (spelled : NamesSpell front names) {rest : List Token} (stops : Stops Kind.inPath rest) :
    propertyPath (front ++ rest) = .ok (⟨names⟩, rest) := by
  obtain ⟨first, others, between, rfl, atFirst, further⟩ := spelled.read stops
  exact propertyPath_eq_ok.mpr ⟨first, others, between, atFirst, further, rfl⟩

theorem criterion_sound {ts : List Token} {found : Criterion} {rest : List Token}
    (read : criterion ts = .ok (found, rest)) :
    ∃ front, ts = front ++ rest ∧ CriterionSpells front found := by
  unfold criterion at read
  split at read
  · cases read
  · cases read
  · rename_i path t after inner
    obtain ⟨front, names, rfl, named, rfl⟩ := propertyPath_sound inner
    split at read
    · rename_i equal
      cases value : expression after with
      | error failure => simp [value, Except.map] at read
      | ok result =>
        rw [value] at read
        cases read
        obtain ⟨us, rfl, derived⟩ := Layer.sound after (.chain .alternatives) _ _ value
        exact ⟨front ++ t :: us, by simp, .mk named equal derived⟩
    · cases read

/-- A criterion is read to its end if nothing comes next that goes on with its expression. -/
theorem criterion_complete {front : List Token} {found : Criterion} (spelled : CriterionSpells front found)
    {rest : List Token} (stops : Stops (Layer.chain .alternatives).goesOn rest) :
    criterion (front ++ rest) = .ok (found, rest) := by
  obtain @⟨ts, names, equal, us, e, named, isEqual, derived⟩ := spelled
  have ends : Stops Kind.inPath (equal :: (us ++ rest)) := by
    rw [stops_cons, isEqual]
    rfl
  have value : expression (us ++ rest) = .ok (e, rest) := derived.reads.whole stops
  rw [List.append_assoc, List.cons_append, criterion, propertyPath_complete named ends]
  simp only [if_pos isEqual, value]
  rfl

theorem furtherCriteria_sound {ts : List Token} {others : List Criterion} {rest : List Token}
    (read : furtherCriteria ts = .ok (others, rest)) {before : List Token} {found : Criterion}
    (first : CriterionSpells before found) :
    ∃ front, ts = front ++ rest ∧ CriteriaSpell (before ++ front) (found :: others) := by
  fun_induction furtherCriteria ts generalizing others rest before found with
  | case1 =>
    cases read
    exact ⟨[], rfl, by rw [List.append_nil]; exact .last first⟩
  | case2 => cases read
  | case3 t ts ampersand next left atNext ih =>
    obtain ⟨further, inner, rfl⟩ := Step.cons_eq_ok.mp read
    obtain ⟨us, rfl, spelled⟩ := criterion_sound atNext
    obtain ⟨front, rfl, whole⟩ := ih inner spelled
    exact ⟨t :: (us ++ front), by simp, .next first ampersand whole⟩
  | case4 =>
    cases read
    exact ⟨[], rfl, by rw [List.append_nil]; exact .last first⟩

theorem criteria_eq_ok {ts : List Token} {found : List Criterion} {rest : List Token} :
    criteria ts = .ok (found, rest) ↔
      ∃ first others between, criterion ts = .ok (first, between) ∧
        furtherCriteria between = .ok (others, rest) ∧ found = first :: others := by
  unfold criteria
  cases criterion ts with
  | error failure => simp
  | ok result =>
    obtain ⟨first, between⟩ := result
    simp only [Step.cons_eq_ok, Except.ok.injEq, Prod.mk.injEq]
    constructor
    · rintro ⟨others, further, rfl⟩
      exact ⟨first, others, between, ⟨rfl, rfl⟩, further, rfl⟩
    · rintro ⟨_, others, _, ⟨rfl, rfl⟩, further, rfl⟩
      exact ⟨others, further, rfl⟩

theorem criteria_sound {ts : List Token} {found : List Criterion} {rest : List Token}
    (read : criteria ts = .ok (found, rest)) :
    ∃ front, ts = front ++ rest ∧ CriteriaSpell front found := by
  obtain ⟨first, others, between, atFirst, further, rfl⟩ := criteria_eq_ok.mp read
  obtain ⟨before, rfl, spelled⟩ := criterion_sound atFirst
  obtain ⟨front, rfl, whole⟩ := furtherCriteria_sound further spelled
  exact ⟨before ++ front, by simp, whole⟩

/-- What derives criteria is read as them by a reader that comes to its end. -/
theorem CriteriaSpell.read {ts : List Token} {found : List Criterion} (spelled : CriteriaSpell ts found) :
    criteria ts = .ok (found, []) := by
  induction spelled with
  | last first =>
    have read := criterion_complete first (stops_nil _)
    rw [List.append_nil] at read
    exact criteria_eq_ok.mpr ⟨_, [], [], read, by rw [furtherCriteria], rfl⟩
  | @next ts first ampersand us found spelled isAmpersand _ ih =>
    obtain ⟨second, others, between, atSecond, further, rfl⟩ := criteria_eq_ok.mp ih
    have ends : Stops (Layer.chain .alternatives).goesOn (ampersand :: us) := by
      rw [stops_cons, isAmpersand]
      rfl
    refine criteria_eq_ok.mpr ⟨first, second :: others, _, criterion_complete spelled ends, ?_, rfl⟩
    rw [furtherCriteria, if_pos isAmpersand]
    split
    · rename_i failed
      cases atSecond.symm.trans failed
    · rename_i found
      cases atSecond.symm.trans found
      exact Step.cons_eq_ok.mpr ⟨others, further, rfl⟩

/-- The grammar derives no two lists of criteria from the same tokens. -/
theorem CriteriaSpell.unique {ts : List Token} {found other : List Criterion}
    (spelled : CriteriaSpell ts found) (again : CriteriaSpell ts other) : found = other := by
  have same := spelled.read.symm.trans again.read
  simpa using same

theorem readAll_eq_ok {α : Type} {rule : List Token → Step α} {trailing : Expected}
    {tokens : List Token} {value : α} :
    readAll rule trailing tokens = .ok value ↔ rule tokens = .ok (value, []) := by
  unfold readAll
  split
  · rename_i read
    simp [read]
  · rename_i read
    simp [read]
  · rename_i read
    simp [read]

/-- A text is read if its tokens can be read in one way only and a rule reads all of them. -/
theorem readText_eq_ok {α : Type} {rule : List Token → Step α} {trailing : Expected} {text : String}
    {value : α} :
    readText rule trailing text = .ok value ↔
      Token.ambiguity? (Token.scan text) = none ∧ rule (Token.scan text) = .ok (value, []) := by
  unfold readText
  cases clear : Token.ambiguity? (Token.scan text) with
  | some ambiguity => simp [clear]
  | none => simp [clear, readAll_eq_ok]

/-- An expression is read from a text exactly if the grammar derives it from the tokens. -/
theorem Expression.read_eq_ok_iff_derives {text : String} {e : Expression} :
    read text = .ok e ↔ Token.ambiguity? (Token.scan text) = none ∧
      Derives (.chain .alternatives) (Token.scan text) e := by
  refine readText_eq_ok.trans (and_congr_right fun _ => ⟨fun read => ?_, fun derived => ?_⟩)
  · obtain ⟨front, whole, derived⟩ := Layer.sound _ (.chain .alternatives) _ _ read
    rwa [whole, List.append_nil]
  · have read := derived.reads.whole (stops_nil _)
    rwa [List.append_nil] at read

/-- The criteria of a text are those that the grammar derives from its tokens, and there are no
others that it derives from them. -/
theorem Criterion.readList_eq_ok_iff_derived (text : String) (found : List Criterion) :
    (readList text = .ok found ↔
      Token.ambiguity? (Token.scan text) = none ∧ CriteriaSpell (Token.scan text) found) ∧
    (CriteriaSpell (Token.scan text) found →
      ∀ other, CriteriaSpell (Token.scan text) other → other = found) := by
  refine ⟨readText_eq_ok.trans (and_congr_right fun _ => ⟨fun read => ?_, CriteriaSpell.read⟩),
    fun spelled other again => again.unique spelled⟩
  obtain ⟨front, split, spelled⟩ := criteria_sound read
  rwa [split, List.append_nil]

/-- A class with a range and a quoted part before a star, a negated group, and a bound of each kind. -/
theorem Criterion.readList_starred_class :
    let text := "a_1.b=[xp-r]\"s\"*|!(u,*v)&n=[1 TO *],[2010-6-5 TO 9:30]|[* TO 2010-6-5T7:05]"
    let found : List Criterion := [
      ⟨⟨["a_1", "b"]⟩, .or (.oneOf [.startsWith "xs", .startsWith "ps", .startsWith "qs", .startsWith "rs"])
        (.not (.group (.and (.constant "u") (.endsWith "v"))))⟩,
      ⟨⟨["n"]⟩, .or (.and (.interval (.constant "1") .unbounded)
        (.interval (.date ⟨2010, 6, 5⟩) (.time ⟨9, 30, 0, 0⟩)))
        (.interval .unbounded (.dateTime ⟨2010, 6, 5⟩ ⟨7, 5, 0, 0⟩))⟩]
    readList text = .ok found ∧ CriteriaSpell (Token.scan text) found ∧
      ∀ other, CriteriaSpell (Token.scan text) other → other = found := by
  intro text found
  have read : readList text = .ok found := by
    unfold text found
    with_unfolding_all rfl
  have derived := readList_eq_ok_iff_derived text found
  have spelled := (derived.1.mp read).2
  exact ⟨read, spelled, derived.2 spelled⟩

end Sift

import Sift.Grammar.Criteria
import Sift.Proofs.Grammar.Interval
import Sift.Proofs.Grammar.Layers

namespace Sift

/-- What may be told of the tokens that are left. -/
inductive Found.Tells : Found → List Expected → List Token → Prop
  | token {t ts expected} : Tells (.token t) expected (t :: ts)
  | endOfInput {expected} : Tells .endOfInput expected []
  | range {first dash last ts} : first.kind.isMember → dash.kind = .dash → last.kind.isMember →
      last.char < first.char →
      Tells (.range first.char last.char) [.ascendingRange] (first :: dash :: last :: ts)
  | calendar {form run text fault ts} : RunSpells run text → CalendarForm.read form text = .error fault →
      Tells (.calendar fault) [form.expected] (run ++ ts)

/-- A failure that tells the truth in its own words, if it has any. -/
def Failure.IsTrue (failure : Failure) : Prop :=
  ∀ found ∈ failure.found, found.Tells failure.expected failure.rest

/-- A failure that does not say what it found says nothing wrong. -/
theorem Failure.isTrue_missing (expected : Expected) (rest : List Token) : (missing expected rest).IsTrue := by
  rintro found ⟨⟩

/-- A failure that says what it found is true if that stands there. -/
theorem Failure.isTrue_final {expected : Expected} {found : Found} {rest : List Token}
    (tells : found.Tells [expected] rest) : (final expected found rest).IsTrue := by
  rintro found ⟨⟩
  exact tells

/-- Of two failures the one that got further is kept. -/
theorem Failure.furthest_rest (first second : Failure) :
    (first.furthest second).rest = first.rest ∨ (first.furthest second).rest = second.rest := by
  unfold furthest
  split
  · exact .inl rfl
  · split
    · exact .inr rfl
    · exact .inl rfl

/-- Failures are joined only if neither has words of its own. -/
theorem Failure.furthest_found {first second : Failure} (plain : first.found = none) (plain' : second.found = none) :
    (first.furthest second).found = none := by
  unfold furthest
  split
  · exact plain
  · split
    · exact plain'
    · exact plain

/-- A step stays within the tokens that it is given: the last ones of them are left. -/
def Step.Within {α : Type} (ts : List Token) : Step α → Prop
  | .ok (_, rest) => rest <:+ ts
  | .error failure => failure.rest <:+ ts ∧ failure.IsTrue

namespace Step

variable {α β : Type} {ts us : List Token}

/-- A rule that stays within fewer tokens stays within more. -/
theorem Within.mono {step : Step α} (within : Within us step) (suffix : us <:+ ts) : Within ts step := by
  cases step with
  | ok result => exact within.trans suffix
  | error failure =>
    obtain ⟨place, honest⟩ := within
    exact ⟨place.trans suffix, honest⟩

/-- What is left by a rule that matches are the last tokens. -/
theorem Within.suffix {step : Step α} (within : Within ts step) {value : α} {rest : List Token}
    (read : step = .ok (value, rest)) : rest <:+ ts := by
  rw [read] at within
  exact within

theorem Within.error {step : Step α} (within : Within ts step) {failure : Failure}
    (refused : step = .error failure) : Within ts (.error failure : Step β) := by
  rw [refused] at within
  exact within

/-- A rule that fails where it stands leaves the last tokens. -/
theorem within_missing (expected : Expected) (suffix : us <:+ ts) : Within ts (missing expected us : Step α) :=
  ⟨suffix, Failure.isTrue_missing expected us⟩

/-- Two rules in a row stay within the tokens if the second one stays within what the first one leaves. -/
theorem Within.bind {step : Step α} {next : α × List Token → Step β} (within : Within ts step)
    (further : ∀ value rest, step = .ok (value, rest) → rest <:+ ts → Within ts (next (value, rest))) :
    Within ts (step.bind next) := by
  cases step with
  | ok result => exact further result.1 result.2 rfl within
  | error failure => exact within

theorem Within.map {step : Step α} {f : α × List Token → β × List Token} (within : Within ts step)
    (same : ∀ result, (f result).2 = result.2) : Within ts (step.map f) := by
  cases step with
  | ok result =>
    have suffix : (f result).2 <:+ ts := same result ▸ within
    exact suffix
  | error failure => exact within

theorem Within.cons {step : Step (List α)} (within : Within ts step) (item : α) : Within ts (cons item step) :=
  within.map fun _ => rfl

/-- Two attempts stay within the tokens if each of them does. -/
theorem Within.orElse {first : Step α} {second : Unit → Step α} (within : Within ts first)
    (within' : Within ts (second ())) : Within ts (orElse first second) := by
  unfold Step.orElse
  cases first with
  | ok result => exact within
  | error failure =>
    by_cases final : failure.isFinal = true
    · simp only [final, if_true]
      exact within
    simp only [final, Bool.false_eq_true, if_false]
    cases other : second () with
    | ok result =>
      rw [other] at within'
      exact within'
    | error failure' =>
      rw [other] at within'
      by_cases final' : failure'.isFinal = true
      · simp only [final', if_true]
        exact within'
      · simp only [final', Bool.false_eq_true, if_false]
        have plain : failure.found = none := Option.not_isSome_iff_eq_none.mp final
        have plain' : failure'.found = none := Option.not_isSome_iff_eq_none.mp final'
        have joined := Failure.furthest_found plain plain'
        refine ⟨?_, fun found own => ?_⟩
        · rcases failure.furthest_rest failure' with place | place
          · exact place ▸ within.1
          · exact place ▸ within'.1
        · rw [joined] at own
          cases own

end Step

open Step

/-- A range that descends is told of where it stands. -/
theorem classMembers_within (seen : List Char) (ts : List Token) : Within ts (classMembers seen ts) := by
  fun_induction classMembers seen ts with
  | case1 => exact within_missing _ (List.suffix_refl _)
  | case2 => exact within_missing _ (List.suffix_refl _)
  | case3 => exact List.suffix_cons ..
  | case4 seen t ts _ member last rest range descends =>
    obtain ⟨dash, stop, rfl, isDash, member', rfl⟩ := rangeEnd?_sound range
    exact ⟨List.suffix_refl _, Failure.isTrue_final (.range member isDash member' descends)⟩
  | case5 seen t ts _ _ last rest range _ ih =>
    obtain ⟨dash, stop, rfl, -⟩ := rangeEnd?_sound range
    exact ih.mono ⟨[t, dash, stop], rfl⟩
  | case6 seen t ts _ _ _ ih => exact ih.mono (List.suffix_cons ..)
  | case7 => exact within_missing _ (List.suffix_refl _)

theorem quoted_within (ts : List Token) : Within ts (quoted ts) := by
  induction ts with
  | nil => exact within_missing _ (List.suffix_refl _)
  | cons t ts ih =>
    unfold quoted
    split
    · exact List.suffix_cons ..
    · exact (ih.mono (List.suffix_cons ..)).cons _

theorem atoms_within (ts : List Token) : Within ts (atoms ts) := by
  fun_induction atoms ts with
  | case1 => exact List.suffix_refl _
  | case2 t ts _ ih => exact (ih.mono (List.suffix_cons ..)).cons _
  | case3 t ts _ _ failure refused =>
    exact ((classMembers_within [] ts).error refused).mono (List.suffix_cons ..)
  | case4 t ts _ _ members after closed ih =>
    have inner := (classMembers_within [] ts).suffix closed
    exact (ih.mono (inner.trans (List.suffix_cons ..))).cons _
  | case5 t ts _ _ _ failure refused =>
    exact ((quoted_within ts).error refused).mono (List.suffix_cons ..)
  | case6 t ts _ _ _ cs after closed ih =>
    have inner := (quoted_within ts).suffix closed
    exact (ih.mono (inner.trans (List.suffix_cons ..))).cons _
  | case7 t ts _ _ _ _ ih => exact (ih.mono (List.suffix_cons ..)).cons _
  | case8 => exact List.suffix_refl _

/-- A term leaves the last tokens, and tells only of a class in it. -/
theorem term_within (ts : List Token) : Within ts (term ts) := by
  unfold term
  split
  · exact (atoms_within ts).error ‹_›
  · exact within_missing _ (List.suffix_refl _)
  · rename_i read
    split
    · exact (atoms_within ts).suffix read
    · exact within_missing _ (List.suffix_refl _)

theorem boundTokens_within (ts : List Token) : Within ts (boundTokens ts) := by
  induction ts with
  | nil => exact List.suffix_refl _
  | cons t ts ih =>
    unfold boundTokens
    split
    · exact List.suffix_refl _
    · split
      · exact (ih.mono (List.suffix_cons ..)).cons _
      · exact within_missing _ (List.suffix_refl _)

theorem boundText_within (ts : List Token) : Within ts (boundText ts) := by
  unfold boundText
  split
  · split
    · split
      · exact List.suffix_cons ..
      · exact within_missing _ (List.suffix_cons ..)
    · exact within_missing _ (List.suffix_cons ..)
  · split
    · exact (boundTokens_within ts).error ‹_›
    · exact within_missing _ (List.suffix_refl _)
    · exact (boundTokens_within ts).suffix ‹_›

theorem whitespace_within (ts : List Token) : Within ts (whitespace ts) := by
  simp only [whitespace]
  split
  · exact List.dropWhile_suffix _
  · exact within_missing _ (List.suffix_refl _)

theorem keywordTo_within (ts : List Token) : Within ts (keywordTo ts) := by
  unfold keywordTo
  split
  · exact ⟨[_, _], rfl⟩
  · exact within_missing _ (List.suffix_refl _)

theorem closingBracket_within (ts : List Token) : Within ts (closingBracket ts) := by
  unfold closingBracket
  split
  · exact List.suffix_cons ..
  · exact within_missing _ (List.suffix_refl _)

/-- A bound is refused at its first token, in words of its own if it has the form of a date or a time. -/
theorem typedBound_error {start rest : List Token} {text : Option String} (read : boundText start = .ok (text, rest))
    {failure : Failure} (refused : typedBound start text = .error failure) :
    failure.rest = start ∧ failure.IsTrue := by
  obtain ⟨run, rfl, ⟨rfl, -⟩ | ⟨text, rfl, spelled⟩⟩ := boundText_sound read
  · cases refused
  rcases CalendarForm.exists_trial (run ++ rest) text with ⟨way, settles⟩ | missing
  · rw [refused] at settles
    obtain ⟨form, fault, told, rfl⟩ := CalendarForm.trial_eq_error settles
    exact ⟨rfl, Failure.isTrue_final (.calendar spelled told)⟩
  · obtain rfl := Except.error.inj (refused.symm.trans missing)
    exact ⟨rfl, Failure.isTrue_missing _ _⟩

/-- An interval leaves the last tokens. Its bounds are refused where they begin, though only after all of it. -/
theorem interval_within (ts : List Token) : Within ts (interval ts) := by
  unfold interval
  refine (boundText_within ts).bind fun min afterMin atMin suffix => ?_
  refine ((whitespace_within afterMin).mono suffix).bind fun _ beforeTo _ suffix => ?_
  refine ((keywordTo_within beforeTo).mono suffix).bind fun _ afterTo _ suffix => ?_
  refine ((whitespace_within afterTo).mono suffix).bind fun _ maxStart _ fromMax => ?_
  refine ((boundText_within maxStart).mono fromMax).bind fun max afterMax atMax suffix => ?_
  refine ((closingBracket_within afterMax).mono suffix).bind fun _ rest _ suffix => ?_
  -- The bounds get their types when all is read, so a failure goes back to where one begins.
  cases lower : typedBound ts min with
  | error failure =>
    obtain ⟨place, honest⟩ := typedBound_error atMin lower
    exact ⟨place ▸ List.suffix_refl _, honest⟩
  | ok lower =>
    cases upper : typedBound maxStart max with
    | error failure =>
      obtain ⟨place, honest⟩ := typedBound_error atMax upper
      exact ⟨place ▸ fromMax, honest⟩
    | ok upper => exact suffix

theorem bracketed_within (bracket : Token) (ts : List Token) : Within (bracket :: ts) (bracketed bracket ts) :=
  ((interval_within ts).mono (List.suffix_cons ..)).orElse (term_within _)

/-- A chain stays within its tokens if its operands do, each from where it begins. The induction is on what is
left to go on with. -/
theorem Chain.resume_within (c : Chain) {ts : List Token}
    (operands : ∀ us, us.length < ts.length → Within us (c.operands.read us)) (left : Expression) :
    Within ts (c.resume left ts) := by
  induction left, ts using c.resume_induction with
  | stop left ts stopped =>
    rw [stopped]
    exact List.suffix_refl _
  | next left t ts separates ih =>
    rw [c.resume_separator left separates]
    have next := operands ts (Nat.lt_succ_self _)
    refine (next.bind fun value rest read suffix => ?_).mono (List.suffix_cons t ts)
    have shorter := Layer.read_shorter read
    have later : ∀ us : List Token, us.length < rest.length → Within us (c.operands.read us) := fun us within =>
      operands us (Nat.lt_succ_of_lt (Nat.lt_trans within shorter))
    exact (ih value rest read later).mono suffix

theorem Chain.within (c : Chain) {ts : List Token}
    (operands : ∀ us, us.length ≤ ts.length → Within us (c.operands.read us)) :
    Within ts ((Layer.chain c).read ts) := by
  rw [Layer.read_chain]
  refine (operands ts (Nat.le_refl _)).bind fun first rest _ suffix => ?_
  have shorter := suffix.length_le
  exact (c.resume_within (fun us within => operands us (by omega)) first).mono suffix

namespace Layer

/-- A condition stays within its tokens if all layers do on fewer tokens. -/
theorem unary_within {ts : List Token}
    (shorter : ∀ us, us.length < ts.length → ∀ layer : Layer, Within us (layer.read us)) :
    Within ts (unary.read ts) := by
  cases ts with
  | nil =>
    rw [read_nil]
    exact within_missing _ (List.suffix_refl _)
  | cons t ts =>
    have inner := shorter ts (Nat.lt_succ_self _)
    by_cases bang : t.kind = .bang
    · rw [read_bang bang]
      refine Within.mono ((inner unary).map fun _ => ?_) (List.suffix_cons ..)
      rfl
    by_cases opens : t.kind = .leftParenthesis
    · rw [read_group opens]
      refine ((inner (.chain .alternatives)).bind fun e rest _ suffix => ?_).mono (List.suffix_cons ..)
      cases rest with
      | nil => exact within_missing _ suffix
      | cons closing rest =>
        simp only
        split
        · exact (List.suffix_cons ..).trans suffix
        · exact within_missing _ suffix
    by_cases bracket : t.kind = .leftBracket
    · rw [read_bracket bracket]
      exact bracketed_within t ts
    · rw [read_term bang opens bracket]
      exact term_within _

/-- Every layer stays within its tokens. The induction is on their number. -/
theorem within (ts : List Token) (layer : Layer) : Within ts (layer.read ts) :=
  strong_induction (fun _ => unary_within) (fun c _ => c.within) layer ts

end Layer

theorem expression_within (ts : List Token) : Within ts (expression ts) :=
  Layer.within ts (.chain .alternatives)

theorem identifier_within (ts : List Token) : Within ts (identifier ts) := by
  unfold identifier
  split
  · exact within_missing _ (List.suffix_refl _)
  · split
    · exact List.dropWhile_suffix _
    · exact within_missing _ (List.suffix_refl _)

theorem furtherNames_within (ts : List Token) : Within ts (furtherNames ts) := by
  fun_induction furtherNames ts with
  | case1 => exact List.suffix_refl _
  | case2 t ts _ failure refused =>
    exact ((identifier_within ts).error refused).mono (List.suffix_cons ..)
  | case3 t ts _ name rest read ih =>
    have inner := (identifier_within ts).suffix read
    exact (ih.mono (inner.trans (List.suffix_cons ..))).cons _
  | case4 => exact List.suffix_refl _

theorem propertyPath_within (ts : List Token) : Within ts (propertyPath ts) := by
  unfold propertyPath
  split
  · exact (identifier_within ts).error ‹_›
  · have first := (identifier_within ts).suffix ‹_›
    exact ((furtherNames_within _).mono first).map fun _ => rfl

theorem criterion_within (ts : List Token) : Within ts (criterion ts) := by
  unfold criterion
  split
  · exact (propertyPath_within ts).error ‹_›
  · exact within_missing _ ((propertyPath_within ts).suffix ‹_›)
  · rename_i t rest read
    have path := (propertyPath_within ts).suffix read
    split
    · exact ((expression_within rest).mono ((List.suffix_cons ..).trans path)).map fun _ => rfl
    · exact within_missing _ path

theorem furtherCriteria_within (ts : List Token) : Within ts (furtherCriteria ts) := by
  fun_induction furtherCriteria ts with
  | case1 => exact List.suffix_refl _
  | case2 t ts _ failure refused =>
    exact ((criterion_within ts).error refused).mono (List.suffix_cons ..)
  | case3 t ts _ next rest read ih =>
    have inner := (criterion_within ts).suffix read
    exact (ih.mono (inner.trans (List.suffix_cons ..))).cons _
  | case4 => exact List.suffix_refl _

/-- Criteria leave the last tokens, whether they match or fail. -/
theorem criteria_within (ts : List Token) : Within ts (criteria ts) := by
  unfold criteria
  split
  · exact (criterion_within ts).error ‹_›
  · have first := (criterion_within ts).suffix ‹_›
    exact ((furtherCriteria_within _).mono first).cons _

end Sift

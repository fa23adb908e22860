import Mathlib.Logic.Relation
import Sift.Proofs.Grammar.Interval
import Sift.Proofs.Grammar.Layers

namespace Sift

/-- The rules of the grammar, and those that go on behind a first part. Chains and conditions are rules of their
layers. -/
inductive Rule where
  | criteria
  | furtherCriteria
  | criterion
  | propertyPath
  | furtherNames
  | identifier
  | layer (layer : Layer)
  | resume (chain : Chain)
  | interval
  | term
  | atoms
  | bracketClass
  | quoted

/-- Expressions are alternatives. -/
abbrev Rule.expression : Rule :=
  layer (.chain .alternatives)

/-- A rule that is tried, with the tokens from there on. -/
structure Call where
  rule : Rule
  rest : List Token

namespace Call

/-- The calls that a rule makes itself. A rule for a class or a quoted part is called at the token that opens it. What
an interval is read by makes no calls of other rules than its own, and those look at single tokens. -/
inductive Makes : Call → Call → Prop
  | firstCriterion {ts} : Makes ⟨.criteria, ts⟩ ⟨.criterion, ts⟩
  | afterFirstCriterion {ts first rest} : criterion ts = .ok (first, rest) →
      Makes ⟨.criteria, ts⟩ ⟨.furtherCriteria, rest⟩
  | nextCriterion {t ts} : t.kind = .ampersand → Makes ⟨.furtherCriteria, t :: ts⟩ ⟨.criterion, ts⟩
  | afterNextCriterion {t ts next rest} : t.kind = .ampersand → criterion ts = .ok (next, rest) →
      Makes ⟨.furtherCriteria, t :: ts⟩ ⟨.furtherCriteria, rest⟩
  | path {ts} : Makes ⟨.criterion, ts⟩ ⟨.propertyPath, ts⟩
  | value {ts path t rest} : propertyPath ts = .ok (path, t :: rest) → t.kind = .equal →
      Makes ⟨.criterion, ts⟩ ⟨.expression, rest⟩
  | firstName {ts} : Makes ⟨.propertyPath, ts⟩ ⟨.identifier, ts⟩
  | afterFirstName {ts name rest} : identifier ts = .ok (name, rest) →
      Makes ⟨.propertyPath, ts⟩ ⟨.furtherNames, rest⟩
  | nextName {t ts} : t.kind = .dot → Makes ⟨.furtherNames, t :: ts⟩ ⟨.identifier, ts⟩
  | afterNextName {t ts name rest} : t.kind = .dot → identifier ts = .ok (name, rest) →
      Makes ⟨.furtherNames, t :: ts⟩ ⟨.furtherNames, rest⟩
  | firstOperand {chain ts} : Makes ⟨.layer (.chain chain), ts⟩ ⟨.layer chain.operands, ts⟩
  | afterFirstOperand {chain ts first rest} : chain.operands.read ts = .ok (first, rest) →
      Makes ⟨.layer (.chain chain), ts⟩ ⟨.resume chain, rest⟩
  | nextOperand {chain t ts} : t.kind = chain.separator →
      Makes ⟨.resume chain, t :: ts⟩ ⟨.layer chain.operands, ts⟩
  | afterNextOperand {chain t ts next rest} : t.kind = chain.separator →
      chain.operands.read ts = .ok (next, rest) → Makes ⟨.resume chain, t :: ts⟩ ⟨.resume chain, rest⟩
  | negated {t ts} : t.kind = .bang → Makes ⟨.layer .unary, t :: ts⟩ ⟨.layer .unary, ts⟩
  | grouped {t ts} : t.kind = .leftParenthesis → Makes ⟨.layer .unary, t :: ts⟩ ⟨.expression, ts⟩
  | bracketed {t ts} : t.kind = .leftBracket → Makes ⟨.layer .unary, t :: ts⟩ ⟨.interval, ts⟩
  | afterInterval {t ts failure} : t.kind = .leftBracket → interval ts = .error failure →
      failure.isFinal = false → Makes ⟨.layer .unary, t :: ts⟩ ⟨.term, t :: ts⟩
  | plain {t ts} : t.kind ≠ .bang → t.kind ≠ .leftParenthesis → t.kind ≠ .leftBracket →
      Makes ⟨.layer .unary, t :: ts⟩ ⟨.term, t :: ts⟩
  | parts {ts} : Makes ⟨.term, ts⟩ ⟨.atoms, ts⟩
  | afterStar {t ts} : t.kind = .asterisk → Makes ⟨.atoms, t :: ts⟩ ⟨.atoms, ts⟩
  | choice {t ts} : t.kind = .leftBracket → Makes ⟨.atoms, t :: ts⟩ ⟨.bracketClass, t :: ts⟩
  | afterChoice {t ts members rest} : t.kind = .leftBracket → bracketClass ts = .ok (members, rest) →
      Makes ⟨.atoms, t :: ts⟩ ⟨.atoms, rest⟩
  | quote {t ts} : t.kind = .doubleQuote → Makes ⟨.atoms, t :: ts⟩ ⟨.quoted, t :: ts⟩
  | afterQuote {t ts cs rest} : t.kind = .doubleQuote → quoted ts = .ok (cs, rest) →
      Makes ⟨.atoms, t :: ts⟩ ⟨.atoms, rest⟩
  | afterLiteral {t ts} : t.kind.isLiteral → Makes ⟨.atoms, t :: ts⟩ ⟨.atoms, ts⟩

/-- A call leads to another one if it makes it, or makes one that leads to it. -/
def LeadsTo : Call → Call → Prop :=
  Relation.ReflTransGen Makes

/-- Behind a class a quoted part is called for once the interval that might have stood there is given up. -/
theorem leadsTo_quoted_of_class {opening closing quote : Token} {front rest : List Token} {parts : List ClassPart}
    {members : List Char} (opens : opening.kind = .leftBracket) (reads : ClassReads front parts members)
    (closes : closing.kind = .rightBracket) (isQuote : quote.kind = .doubleQuote) :
    LeadsTo ⟨.expression, opening :: (front ++ closing :: quote :: rest)⟩ ⟨.quoted, quote :: rest⟩ := by
  have refused := interval_fails_on_class reads closes (quote :: rest)
  have read := bracketClass_complete reads closes (quote :: rest)
  have givenUp : LeadsTo ⟨.layer .unary, opening :: (front ++ closing :: quote :: rest)⟩
      ⟨.term, opening :: (front ++ closing :: quote :: rest)⟩ := .single (.afterInterval opens refused rfl)
  have behind : LeadsTo ⟨.term, opening :: (front ++ closing :: quote :: rest)⟩ ⟨.atoms, quote :: rest⟩ :=
    .tail (.single .parts) (.afterChoice opens read)
  exact .head .firstOperand (.head .firstOperand ((givenUp.trans behind).tail (.quote isQuote)))

/-- A quoted part is called for that is not closed. -/
def MissesQuote (call : Call) : Prop :=
  ∃ quote ts failure, call.LeadsTo ⟨.quoted, quote :: ts⟩ ∧ quoted ts = .error failure

/-- A call misses a quote if a call that it makes does. -/
theorem MissesQuote.of_makes {call other : Call} (misses : other.MissesQuote) (makes : call.Makes other) :
    call.MissesQuote := by
  obtain ⟨quote, ts, failure, leads, failed⟩ := misses
  exact ⟨quote, ts, failure, .head makes leads, failed⟩

end Call

/-- A failure to find a closing quote, or one of several things of which it is one. -/
def WantsQuote {α : Type} : Except Failure α → Prop
  | .ok _ => False
  | .error failure => .closingQuote ∈ failure.expected

/-- What is wanted by the further of two failures is wanted by one of them. -/
theorem Failure.mem_furthest {first second : Failure} {expected : Expected}
    (member : expected ∈ (first.furthest second).expected) :
    expected ∈ first.expected ∨ expected ∈ second.expected := by
  unfold furthest at member
  split at member
  · exact .inl member
  · split at member
    · exact .inr member
    · exact (List.mem_append.mp member).imp_right fun other => (List.mem_filter.mp other).1

namespace WantsQuote

variable {α β : Type}

theorem of_error {result : Except Failure α} {failure : Failure}
    (wants : WantsQuote (.error failure : Except Failure β)) (failed : result = .error failure) :
    WantsQuote result := by
  rw [failed]
  exact wants

/-- A closing quote is wanted by the first step or, with its result, by the next one. -/
theorem of_bind {result : Except Failure α} {next : α → Except Failure β} (wants : WantsQuote (result.bind next)) :
    WantsQuote result ∨ ∃ value, result = .ok value ∧ WantsQuote (next value) := by
  cases result with
  | ok value => exact .inr ⟨value, rfl, wants⟩
  | error failure => exact .inl wants

theorem of_map {result : Except Failure α} {f : α → β} (wants : WantsQuote (result.map f)) : WantsQuote result := by
  cases result with
  | ok value => exact wants
  | error failure => exact wants

theorem of_cons {step : Step (List α)} {item : α} (wants : WantsQuote (step.cons item)) : WantsQuote step :=
  wants.of_map

/-- A second attempt wants a closing quote only if the first one failed and was not final. -/
theorem of_orElse {first : Step α} {second : Unit → Step α} (wants : WantsQuote (first.orElse second)) :
    WantsQuote first ∨ ∃ failure, first = .error failure ∧ failure.isFinal = false ∧ WantsQuote (second ()) := by
  cases first with
  | ok result => exact wants.elim
  | error failure =>
    unfold Step.orElse at wants
    by_cases final : failure.isFinal = true
    · simp only [final, if_true] at wants
      exact .inl wants
    simp only [final, Bool.false_eq_true, if_false] at wants
    rw [Bool.not_eq_true] at final
    cases other : second () with
    | ok result =>
      rw [other] at wants
      exact wants.elim
    | error failure' =>
      simp only [other] at wants
      split at wants
      · exact .inr ⟨failure, rfl, final, wants⟩
      · exact (Failure.mem_furthest wants).imp_right fun later => ⟨failure, rfl, final, later⟩

end WantsQuote

theorem not_wantsQuote_missing {α : Type} {expected : Expected} (other : .closingQuote ≠ expected) (rest : List Token) :
    ¬WantsQuote (Step.missing expected rest : Step α) :=
  fun wants => other (List.mem_singleton.mp wants)

/-- No quote is ever wanted within a class. -/
theorem not_wantsQuote_classMembers (seen : List Char) (ts : List Token) : ¬WantsQuote (classMembers seen ts) := by
  fun_induction classMembers seen ts with
  | case1 | case2 | case7 => exact not_wantsQuote_missing (by decide) _
  | case3 => exact id
  | case4 => exact fun wants => Expected.noConfusion (List.mem_singleton.mp wants)
  | case5 _ _ _ _ _ _ _ _ _ ih => exact ih
  | case6 _ _ _ _ _ _ ih => exact ih

theorem not_wantsQuote_boundTokens (ts : List Token) : ¬WantsQuote (boundTokens ts) := by
  induction ts with
  | nil => exact id
  | cons t ts ih =>
    unfold boundTokens
    split
    · exact id
    · split
      · exact fun wants => ih wants.of_cons
      · exact not_wantsQuote_missing (by decide) _

theorem not_wantsQuote_boundText (ts : List Token) : ¬WantsQuote (boundText ts) := by
  unfold boundText
  split
  · split
    · split
      · exact id
      · exact not_wantsQuote_missing (by decide) _
    · exact not_wantsQuote_missing (by decide) _
  · split
    · exact fun wants => not_wantsQuote_boundTokens _ (wants.of_error ‹_›)
    · exact not_wantsQuote_missing (by decide) _
    · exact id

theorem not_wantsQuote_whitespace (ts : List Token) : ¬WantsQuote (whitespace ts) := by
  simp only [whitespace]
  split
  · exact id
  · exact not_wantsQuote_missing (by decide) _

theorem not_wantsQuote_keywordTo (ts : List Token) : ¬WantsQuote (keywordTo ts) := by
  unfold keywordTo
  split
  · exact id
  · exact not_wantsQuote_missing (by decide) _

theorem not_wantsQuote_closingBracket (ts : List Token) : ¬WantsQuote (closingBracket ts) := by
  unfold closingBracket
  split
  · exact id
  · exact not_wantsQuote_missing (by decide) _

theorem not_wantsQuote_typedBound (start : List Token) (text : Option String) :
    ¬WantsQuote (typedBound start text) := by
  unfold typedBound
  repeat' split
  all_goals first
    | exact id
    | exact fun wants => Expected.noConfusion (List.mem_singleton.mp wants)

/-- No quote is ever wanted within an interval, so one is not missed when it is given up. -/
theorem not_wantsQuote_interval (ts : List Token) : ¬WantsQuote (interval ts) := by
  intro wants
  unfold interval at wants
  obtain wants | ⟨_, -, wants⟩ := wants.of_bind
  · exact not_wantsQuote_boundText _ wants
  obtain wants | ⟨_, -, wants⟩ := wants.of_bind
  · exact not_wantsQuote_whitespace _ wants
  obtain wants | ⟨_, -, wants⟩ := wants.of_bind
  · exact not_wantsQuote_keywordTo _ wants
  obtain wants | ⟨_, -, wants⟩ := wants.of_bind
  · exact not_wantsQuote_whitespace _ wants
  obtain wants | ⟨_, -, wants⟩ := wants.of_bind
  · exact not_wantsQuote_boundText _ wants
  obtain wants | ⟨_, -, wants⟩ := wants.of_bind
  · exact not_wantsQuote_closingBracket _ wants
  obtain wants | ⟨_, -, wants⟩ := wants.of_bind
  · exact not_wantsQuote_typedBound _ _ wants
  obtain wants | ⟨_, -, wants⟩ := wants.of_bind
  · exact not_wantsQuote_typedBound _ _ wants
  exact wants

namespace Call

/-- Among the parts of a term only a quoted one misses its quote. -/
theorem missesQuote_atoms {ts : List Token} (wants : WantsQuote (Sift.atoms ts)) : MissesQuote ⟨.atoms, ts⟩ := by
  fun_induction Sift.atoms ts with
  | case1 | case8 => exact wants.elim
  | case2 t ts star ih => exact (ih wants.of_cons).of_makes (.afterStar star)
  | case3 t ts _ _ failure refused => exact absurd (wants.of_error refused) (not_wantsQuote_classMembers [] ts)
  | case4 t ts _ opens members rest read ih => exact (ih wants.of_cons).of_makes (.afterChoice opens read)
  | case5 t ts _ _ quote failure refused => exact ⟨t, ts, failure, .single (.quote quote), refused⟩
  | case6 t ts _ _ quote cs rest read ih => exact (ih wants.of_cons).of_makes (.afterQuote quote read)
  | case7 t ts _ _ _ literal ih => exact (ih wants.of_cons).of_makes (.afterLiteral literal)

/-- A term wants a quote only where one of its parts is quoted and not closed. -/
theorem missesQuote_term {ts : List Token} (wants : WantsQuote (Sift.term ts)) : MissesQuote ⟨.term, ts⟩ := by
  unfold Sift.term at wants
  split at wants
  · exact (missesQuote_atoms (wants.of_error ‹_›)).of_makes .parts
  · exact absurd wants (not_wantsQuote_missing (by decide) _)
  · split at wants
    · exact wants.elim
    · exact absurd wants (not_wantsQuote_missing (by decide) _)

/-- What goes on a chain wants a quote only where a further operand misses one. -/
theorem missesQuote_resume {c : Chain} {ts : List Token}
    (operands : ∀ us, us.length < ts.length → WantsQuote (c.operands.read us) → MissesQuote ⟨.layer c.operands, us⟩)
    {left : Expression} (wants : WantsQuote (c.resume left ts)) : MissesQuote ⟨.resume c, ts⟩ := by
  induction left, ts using c.resume_induction with
  | stop left ts stopped =>
    rw [stopped] at wants
    exact wants.elim
  | next left t ts separates ih =>
    rw [c.resume_separator left separates] at wants
    obtain wants | ⟨⟨next, rest⟩, read, wants⟩ := wants.of_bind
    · exact (operands ts (Nat.lt_succ_self _) wants).of_makes (.nextOperand separates)
    have shorter := Layer.read_shorter read
    have later : ∀ us : List Token, us.length < rest.length → WantsQuote (c.operands.read us) →
        MissesQuote ⟨.layer c.operands, us⟩ := fun us within =>
      operands us (Nat.lt_succ_of_lt (Nat.lt_trans within shorter))
    exact (ih next rest read later wants).of_makes (.afterNextOperand separates read)

/-- A chain misses a quote only in one of its operands. -/
theorem missesQuote_chain {c : Chain} {ts : List Token}
    (operands : ∀ us, us.length ≤ ts.length → WantsQuote (c.operands.read us) → MissesQuote ⟨.layer c.operands, us⟩)
    (wants : WantsQuote ((Layer.chain c).read ts)) : MissesQuote ⟨.layer (.chain c), ts⟩ := by
  rw [Layer.read_chain] at wants
  obtain wants | ⟨⟨first, rest⟩, read, wants⟩ := wants.of_bind
  · exact (operands ts (Nat.le_refl _) wants).of_makes .firstOperand
  · have shorter := Layer.read_shorter read
    exact (missesQuote_resume (fun us within => operands us (by omega)) wants).of_makes (.afterFirstOperand read)

/-- A condition misses a quote in what it negates, in its brackets, or in its term. -/
theorem missesQuote_unary {ts : List Token}
    (shorter : ∀ us, us.length < ts.length → ∀ layer : Layer, WantsQuote (layer.read us) →
      MissesQuote ⟨.layer layer, us⟩)
    (wants : WantsQuote (Layer.unary.read ts)) : MissesQuote ⟨.layer .unary, ts⟩ := by
  cases ts with
  | nil =>
    rw [Layer.read_nil] at wants
    exact absurd wants (not_wantsQuote_missing (by decide) _)
  | cons t ts =>
    have inner := shorter ts (Nat.lt_succ_self _)
    by_cases bang : t.kind = .bang
    · rw [Layer.read_bang bang] at wants
      exact (inner .unary wants.of_map).of_makes (.negated bang)
    by_cases opens : t.kind = .leftParenthesis
    · rw [Layer.read_group opens] at wants
      obtain wants | ⟨⟨e, rest⟩, -, wants⟩ := wants.of_bind
      · exact (inner (.chain .alternatives) wants).of_makes (.grouped opens)
      cases rest with
      | nil => exact absurd wants (not_wantsQuote_missing (by decide) _)
      | cons closing rest =>
        simp only at wants
        split at wants
        · exact wants.elim
        · exact absurd wants (not_wantsQuote_missing (by decide) _)
    by_cases bracket : t.kind = .leftBracket
    · rw [Layer.read_bracket bracket] at wants
      obtain wants | ⟨failure, refused, goesOn, wants⟩ := wants.of_orElse
      · exact absurd wants (not_wantsQuote_interval ts)
      · exact (missesQuote_term wants).of_makes (.afterInterval bracket refused goesOn)
    · rw [Layer.read_term bang opens bracket] at wants
      exact (missesQuote_term wants).of_makes (.plain bang opens bracket)

/-- Every layer misses a quote only where a quoted part is called for. The induction is on the number of tokens.
-/
theorem missesQuote_layer (layer : Layer) (ts : List Token) :
    WantsQuote (layer.read ts) → MissesQuote ⟨.layer layer, ts⟩ :=
  Layer.strong_induction (fun _ => missesQuote_unary) (fun _ _ => missesQuote_chain) layer ts

theorem missesQuote_expression {ts : List Token} (wants : WantsQuote (Sift.expression ts)) :
    MissesQuote ⟨.expression, ts⟩ :=
  missesQuote_layer (.chain .alternatives) ts wants

end Call

theorem not_wantsQuote_identifier (ts : List Token) : ¬WantsQuote (identifier ts) := by
  unfold identifier
  split
  · exact not_wantsQuote_missing (by decide) _
  · split
    · exact id
    · exact not_wantsQuote_missing (by decide) _

theorem not_wantsQuote_furtherNames (ts : List Token) : ¬WantsQuote (furtherNames ts) := by
  fun_induction furtherNames ts with
  | case1 | case4 => exact id
  | case2 t ts _ failure refused => exact fun wants => not_wantsQuote_identifier ts (wants.of_error refused)
  | case3 _ _ _ _ _ _ ih => exact fun wants => ih wants.of_cons

theorem not_wantsQuote_propertyPath (ts : List Token) : ¬WantsQuote (propertyPath ts) := by
  unfold propertyPath
  split
  · exact fun wants => not_wantsQuote_identifier ts (wants.of_error ‹_›)
  · exact fun wants => not_wantsQuote_furtherNames _ wants.of_map

namespace Call

theorem missesQuote_criterion {ts : List Token} (wants : WantsQuote (Sift.criterion ts)) :
    MissesQuote ⟨.criterion, ts⟩ := by
  unfold Sift.criterion at wants
  split at wants
  · exact absurd (wants.of_error ‹_›) (not_wantsQuote_propertyPath ts)
  · exact absurd wants (not_wantsQuote_missing (by decide) _)
  · rename_i read
    split at wants
    · rename_i equal
      exact (missesQuote_expression wants.of_map).of_makes (.value read equal)
    · exact absurd wants (not_wantsQuote_missing (by decide) _)

theorem missesQuote_furtherCriteria {ts : List Token} (wants : WantsQuote (Sift.furtherCriteria ts)) :
    MissesQuote ⟨.furtherCriteria, ts⟩ := by
  fun_induction Sift.furtherCriteria ts with
  | case1 | case4 => exact wants.elim
  | case2 t ts ampersand failure refused =>
    exact (missesQuote_criterion (wants.of_error refused)).of_makes (.nextCriterion ampersand)
  | case3 t ts ampersand next rest read ih => exact (ih wants.of_cons).of_makes (.afterNextCriterion ampersand read)

/-- Criteria miss a quote only in one of them. -/
theorem missesQuote_criteria {ts : List Token} (wants : WantsQuote (Sift.criteria ts)) :
    MissesQuote ⟨.criteria, ts⟩ := by
  unfold Sift.criteria at wants
  split at wants
  · exact (missesQuote_criterion (wants.of_error ‹_›)).of_makes .firstCriterion
  · exact (missesQuote_furtherCriteria wants.of_cons).of_makes (.afterFirstCriterion ‹_›)

end Call

end Sift

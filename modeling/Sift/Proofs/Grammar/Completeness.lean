import Sift.Proofs.Grammar.Interval
import Sift.Proofs.Grammar.Layers

namespace Sift

/-- Tokens that a term may begin with. Those that begin with a bracket begin with a whole class. -/
def BeginsTerm (ts : List Token) : Prop :=
  ∃ t us, ts = t :: us ∧ t.kind.inTerm = true ∧
    (t.kind = .leftBracket → ∃ inner parts members closing more, us = inner ++ closing :: more ∧
      ClassReads inner parts members ∧ closing.kind = .rightBracket)

theorem BeginsTerm.append {ts : List Token} (begins : BeginsTerm ts) (rest : List Token) :
    BeginsTerm (ts ++ rest) := by
  obtain ⟨t, us, rfl, goesOn, whole⟩ := begins
  refine ⟨t, us ++ rest, rfl, goesOn, fun bracket => ?_⟩
  obtain ⟨inner, parts, members, closing, more, rfl, reads, closes⟩ := whole bracket
  exact ⟨inner, parts, members, closing, more ++ rest, by simp, reads, closes⟩

theorem BeginsTerm.of_kind {t : Token} (goesOn : t.kind.inTerm = true) (other : t.kind ≠ .leftBracket)
    (us : List Token) : BeginsTerm (t :: us) :=
  ⟨t, us, rfl, goesOn, fun bracket => absurd bracket other⟩

theorem PieceSpells.begins {ts : List Token} {segment : Segment} (spelled : PieceSpells ts segment) :
    BeginsTerm ts := by
  cases spelled with
  | plain literal =>
    refine .of_kind (by simp [Kind.inTerm, literal]) (fun bracket => ?_) _
    rw [bracket] at literal
    cases literal
  | quoted opens => exact .of_kind (by simp [Kind.inTerm, opens]) (by simp [opens]) _
  | choice opens reads closes =>
    exact ⟨_, _, rfl, by simp [Kind.inTerm, opens], fun _ => ⟨_, _, _, _, [], rfl, reads, closes⟩⟩

theorem TextSpells.begins {ts : List Token} {text : List Segment} (spelled : TextSpells ts text) :
    BeginsTerm ts := by
  cases spelled with
  | last piece => exact piece.begins
  | next piece _ => exact piece.begins.append _

/-- A term begins with a token of it, or with a whole class. -/
theorem TermSpells.begins {ts : List Token} {e : Expression} (spelled : TermSpells ts e) :
    BeginsTerm ts := by
  cases spelled with
  | anything star => exact .of_kind (by simp [Kind.inTerm, star]) (by simp [star]) _
  | constant text _ => exact text.begins
  | startsWith text _ _ => exact text.begins.append _
  | endsWith star _ _ => exact .of_kind (by simp [Kind.inTerm, star]) (by simp [star]) _
  | contains star _ _ _ => exact .of_kind (by simp [Kind.inTerm, star]) (by simp [star]) _
  | around before _ _ _ _ => exact before.begins.append _

/-- Behind a bracket a term is read as one if a class comes first, for no interval is read there. -/
theorem bracketed_of_class {bracket : Token} {ts : List Token} {inner : List Token} {parts : List ClassPart}
    {members : List Char} {closing : Token} {more : List Token} (split : ts = inner ++ closing :: more)
    (reads : ClassReads inner parts members) (closes : closing.kind = .rightBracket) {e : Expression}
    {rest : List Token} (read : term (bracket :: ts) = .ok (e, rest)) :
    bracketed bracket ts = .ok (e, rest) := by
  have failed := interval_fails_on_class reads closes more
  rw [← split] at failed
  simp [bracketed, Step.orElse, failed, read, Failure.isFinal, Failure.missing]

/-- A condition that begins as a term does is read as one. -/
theorem Layer.read_of_begins {ts : List Token} (begins : BeginsTerm ts) {e : Expression}
    {rest : List Token} (read : term ts = .ok (e, rest)) : unary.read ts = .ok (e, rest) := by
  obtain ⟨t, us, rfl, goesOn, whole⟩ := begins
  by_cases bracket : t.kind = .leftBracket
  · obtain ⟨inner, parts, members, closing, more, split, reads, closes⟩ := whole bracket
    rw [read_bracket bracket]
    exact bracketed_of_class split reads closes read
  · have bang : t.kind ≠ .bang := fun same => by rw [same] at goesOn; cases goesOn
    have parenthesis : t.kind ≠ .leftParenthesis := fun same => by rw [same] at goesOn; cases goesOn
    rw [read_term bang parenthesis bracket, read]

/-- Kinds of tokens that go on with what is derived on a layer. -/
def Layer.goesOn : Layer → Kind → Bool
  | unary, kind => kind.inTerm
  | chain .conditions, kind => kind.inTerm || kind == .comma
  | chain .alternatives, kind => kind.inTerm || kind == .comma || kind == .bar

/-- A chain goes on with what its operands go on with, and with its separator. -/
theorem Layer.goesOn_chain (c : Chain) (kind : Kind) :
    (chain c).goesOn kind = (c.operands.goesOn kind || kind == c.separator) := by
  cases c <;> rfl

theorem Chain.operands_stop (c : Chain) : c.operands.goesOn c.separator = false := by
  cases c <;> rfl

/-- How far a reader gets through what is derived on its layer. A chain may go on after it, so there
it is only known in which state the reader is. -/
def Layer.Reads : Layer → List Token → Expression → Prop
  | unary, ts, e => ∀ rest, Stops Kind.inTerm rest → unary.read (ts ++ rest) = .ok (e, rest)
  | chain c, ts, e => ∀ rest, Stops c.operands.goesOn rest →
      (chain c).read (ts ++ rest) = c.resume e rest

/-- If nothing comes next that goes on with a layer, it is read to its end. -/
theorem Layer.Reads.whole {layer : Layer} {ts : List Token} {e : Expression} (reads : layer.Reads ts e)
    {rest : List Token} (stops : Stops layer.goesOn rest) : layer.read (ts ++ rest) = .ok (e, rest) := by
  cases layer with
  | unary => exact reads rest stops
  | chain c =>
    cases rest with
    | nil => rw [reads [] (stops_nil _), c.resume_nil]
    | cons t us =>
      rw [stops_cons, goesOn_chain, Bool.or_eq_false_iff] at stops
      rw [reads _ (stops_cons.mpr stops.1), c.resume_stop e (beq_eq_false_iff_ne.mp stops.2)]

/-- Whatever is derived as an expression is read as it, on every layer. What may come next of an operand is what
separates operands or ends their chain. -/
theorem Derives.reads {layer : Layer} {ts : List Token} {e : Expression} (derived : Derives layer ts e) :
    layer.Reads ts e := by
  induction derived with
  | term spelled =>
    intro rest stops
    exact Layer.read_of_begins (spelled.begins.append rest) (term_complete spelled stops)
  | interval spelled =>
    intro rest _
    obtain ⟨opening, inner, rfl, opens, read⟩ := interval_complete spelled
    rw [List.cons_append, Layer.read_bracket opens, bracketed, read rest]
    rfl
  | @group opening inner closing e opens _ closes ih =>
    intro rest _
    have stops : Stops (Layer.chain .alternatives).goesOn (closing :: rest) := by
      rw [stops_cons, closes]
      rfl
    simp only [List.cons_append, List.append_assoc, List.nil_append]
    rw [Layer.read_group opens, ih.whole stops]
    simp only [Except.bind, closes, if_true]
  | not bang _ ih =>
    intro rest stops
    rw [List.cons_append, Layer.read_bang bang, ih rest stops]
    rfl
  | @first c ts e _ ih =>
    intro rest stops
    rw [Layer.read_chain, ih.whole stops]
    rfl
  | @next c ts left separator us right _ separates _ atLeft atRight =>
    intro rest stops
    have between : Stops c.operands.goesOn (separator :: (us ++ rest)) := by
      rw [stops_cons, separates, c.operands_stop]
    rw [List.append_assoc, List.cons_append, atLeft _ between, c.resume_separator left separates,
      atRight.whole stops]
    rfl

end Sift

import Sift.Proofs.Grammar.Calls
import Sift.Proofs.Grammar.Criteria
import Sift.Proofs.Token.Exactness

namespace Sift

/-- What holds of a kind but not of quotes tells it from them. -/
theorem Kind.ne_doubleQuote_of {holds : Kind → Bool} {kind : Kind} (inside : holds kind = true)
    (outside : holds doubleQuote = false) : kind ≠ doubleQuote := by
  rintro rfl
  rw [outside] at inside
  cases inside

theorem Chain.separator_ne_doubleQuote (c : Chain) : c.separator ≠ .doubleQuote := by
  cases c <;> exact Kind.noConfusion

namespace Token

/-- Tokens whose quotes make pairs. -/
def Balanced (ts : List Token) : Prop :=
  Even (quotesIn ts)

theorem quotesIn_append (ts us : List Token) : quotesIn (ts ++ us) = quotesIn ts + quotesIn us :=
  List.countP_append

theorem quotesIn_cons_of_eq {t : Token} (quote : t.kind = .doubleQuote) (ts : List Token) :
    quotesIn (t :: ts) = quotesIn ts + 1 :=
  List.countP_cons_of_pos (beq_iff_eq.mpr quote)

theorem quotesIn_cons_of_ne {t : Token} (noQuote : t.kind ≠ .doubleQuote) (ts : List Token) :
    quotesIn (t :: ts) = quotesIn ts :=
  List.countP_cons_of_neg (by simpa using noQuote)

theorem balanced_nil : Balanced [] :=
  ⟨0, rfl⟩

namespace Balanced

variable {ts us : List Token}

theorem append (first : Balanced ts) (second : Balanced us) : Balanced (ts ++ us) := by
  rw [Balanced, quotesIn_append]
  exact Even.add first second

theorem cons {t : Token} (noQuote : t.kind ≠ .doubleQuote) (balanced : Balanced ts) : Balanced (t :: ts) := by
  rwa [Balanced, quotesIn_cons_of_ne noQuote]

theorem single {t : Token} (noQuote : t.kind ≠ .doubleQuote) : Balanced [t] :=
  balanced_nil.cons noQuote

/-- Tokens without quotes are balanced. -/
theorem of_clear (clear : ∀ t ∈ ts, t.kind ≠ .doubleQuote) : Balanced ts := by
  induction ts with
  | nil => exact balanced_nil
  | cons t ts ih =>
    obtain ⟨noQuote, clear⟩ := List.forall_mem_cons.mp clear
    exact (ih clear).cons noQuote

/-- A quote, tokens without any, and a quote. -/
theorem quoted {opening closing : Token} (opens : opening.kind = .doubleQuote)
    (clear : ∀ t ∈ ts, t.kind ≠ .doubleQuote) (closes : closing.kind = .doubleQuote) :
    Balanced (opening :: ts ++ [closing]) := by
  have inside : Even (quotesIn ts) := of_clear clear
  rw [Balanced, List.cons_append, quotesIn_cons_of_eq opens, quotesIn_append, quotesIn_cons_of_eq closes]
  exact inside.add_one.add_odd odd_one

end Balanced

end Token

open Token (Balanced)

theorem ClassReads.balanced {ts : List Token} {parts : List ClassPart} {members : List Char}
    (reads : ClassReads ts parts members) : Balanced ts :=
  .of_clear fun t inside => Kind.ne_doubleQuote_of (reads.isMember t inside) rfl

/-- A quoted part has its two quotes, and no other piece has any. -/
theorem PieceSpells.balanced {ts : List Token} {segment : Segment} (spelled : PieceSpells ts segment) :
    Balanced ts := by
  cases spelled with
  | plain literal => exact .single (Kind.ne_doubleQuote_of literal rfl)
  | quoted opens clear closes => exact .quoted opens clear closes
  | choice opens reads closes =>
    exact (reads.balanced.cons (by simp [opens])).append (.single (by simp [closes]))

theorem TextSpells.balanced {ts : List Token} {text : List Segment} (spelled : TextSpells ts text) :
    Balanced ts := by
  induction spelled with
  | last piece => exact piece.balanced
  | next piece _ ih => exact piece.balanced.append ih

/-- The quotes of a term are those of its texts. -/
theorem TermSpells.balanced {ts : List Token} {e : Expression} (spelled : TermSpells ts e) : Balanced ts := by
  cases spelled with
  | anything star => exact .single (by simp [star])
  | constant text => exact text.balanced
  | startsWith text star => exact text.balanced.append (.single (by simp [star]))
  | endsWith star text => exact text.balanced.cons (by simp [star])
  | contains star text star' => exact (text.balanced.cons (by simp [star])).append (.single (by simp [star']))
  | around before star after => exact before.balanced.append (after.balanced.cons (by simp [star]))

theorem RunSpells.balanced {ts : List Token} {text : String} (spelled : RunSpells ts text) : Balanced ts :=
  .of_clear fun t member => Kind.ne_doubleQuote_of (spelled.2.1 t member) rfl

theorem BoundSpells.balanced {ts : List Token} {boundary : Boundary} (spelled : BoundSpells ts boundary) :
    Balanced ts := by
  cases spelled with
  | unbounded star => exact .single (by simp [star])
  | constant run => exact run.balanced
  | date run => exact run.balanced
  | time run => exact run.balanced
  | dateTime run => exact run.balanced

theorem IsGap.balanced {ts : List Token} (gap : IsGap ts) : Balanced ts :=
  .of_clear fun t member => by simp [gap.2 t member]

theorem IntervalSpells.balanced {ts : List Token} {e : Expression} (spelled : IntervalSpells ts e) :
    Balanced ts := by
  obtain @⟨opening, lower, gap, t, o, gap', upper, closing, min, max, opens, atMin, spaced, isT, isO, spaced', atMax,
    closes⟩ := spelled
  have last : Balanced [closing] := .single (by simp [closes])
  have keyword : Balanced (t :: o :: gap') := (spaced'.balanced.cons (by simp [isO.1])).cons (by simp [isT.1])
  have inner := (((atMin.balanced.append spaced.balanced).append keyword).append atMax.balanced).append last
  exact inner.cons (by simp [opens])

/-- Quotes stand in pairs in whatever the grammar derives an expression from. -/
theorem Derives.balanced {layer : Layer} {ts : List Token} {e : Expression} (derived : Derives layer ts e) :
    Balanced ts := by
  induction derived with
  | term spelled => exact spelled.balanced
  | interval spelled => exact spelled.balanced
  | group opens _ closes ih => exact (ih.cons (by simp [opens])).append (.single (by simp [closes]))
  | not bang _ ih => exact ih.cons (by simp [bang])
  | first _ ih => exact ih
  | @next chain _ _ _ _ _ _ separates _ ih ih' =>
    exact ih.append (ih'.cons (separates.trans_ne chain.separator_ne_doubleQuote))

theorem NameSpells.balanced {ts : List Token} {name : String} (spelled : NameSpells ts name) : Balanced ts := by
  obtain @⟨first, others, begins, inside⟩ := spelled
  have clear : Balanced others := .of_clear fun t member => Kind.ne_doubleQuote_of (inside t member) rfl
  exact clear.cons (Kind.ne_doubleQuote_of begins rfl)

theorem NamesSpell.balanced {ts : List Token} {names : List String} (spelled : NamesSpell ts names) :
    Balanced ts := by
  induction spelled with
  | last name => exact name.balanced
  | next name dot _ ih => exact name.balanced.append (ih.cons (by simp [dot]))

theorem CriterionSpells.balanced {ts : List Token} {criterion : Criterion} (spelled : CriterionSpells ts criterion) :
    Balanced ts := by
  obtain @⟨front, names, equal, us, e, named, isEqual, derived⟩ := spelled
  exact named.balanced.append (derived.balanced.cons (by simp [isEqual]))

/-- Of some tokens the last ones are left, and no quote is open before them. -/
def Outside (tokens rest : List Token) : Prop :=
  ∃ before, tokens = before ++ rest ∧ Balanced before

namespace Outside

variable {ts us vs : List Token}

theorem refl (ts : List Token) : Outside ts ts :=
  ⟨[], rfl, Token.balanced_nil⟩

theorem trans (first : Outside ts us) (second : Outside us vs) : Outside ts vs := by
  obtain ⟨before, rfl, balanced⟩ := first
  obtain ⟨before', rfl, balanced'⟩ := second
  exact ⟨before ++ before', (List.append_assoc ..).symm, balanced.append balanced'⟩

theorem tail {t : Token} (noQuote : t.kind ≠ .doubleQuote) (ts : List Token) : Outside (t :: ts) ts :=
  ⟨[t], rfl, .single noQuote⟩

end Outside

theorem identifier_outside {ts : List Token} {name : String} {rest : List Token}
    (read : identifier ts = .ok (name, rest)) : Outside ts rest := by
  obtain ⟨front, split, spelled⟩ := identifier_sound read
  exact ⟨front, split, spelled.balanced⟩

theorem propertyPath_outside {ts : List Token} {path : PropertyPath} {rest : List Token}
    (read : propertyPath ts = .ok (path, rest)) : Outside ts rest := by
  obtain ⟨front, names, split, spelled, -⟩ := propertyPath_sound read
  exact ⟨front, split, spelled.balanced⟩

theorem criterion_outside {ts : List Token} {found : Criterion} {rest : List Token}
    (read : criterion ts = .ok (found, rest)) : Outside ts rest := by
  obtain ⟨front, split, spelled⟩ := criterion_sound read
  exact ⟨front, split, spelled.balanced⟩

/-- What comes after an expression is outside of its quotes. -/
theorem Layer.read_outside {layer : Layer} {ts : List Token} {e : Expression} {rest : List Token}
    (read : layer.read ts = .ok (e, rest)) : Outside ts rest := by
  obtain ⟨front, split, derived⟩ := Layer.sound ts layer e rest read
  exact ⟨front, split, derived.balanced⟩

/-- A class has no quotes, so what comes after it is outside of them. -/
theorem bracketClass_outside {ts : List Token} {members : List Char} {rest : List Token}
    (read : bracketClass ts = .ok (members, rest)) : Outside ts rest := by
  obtain ⟨front, closing, parts, rfl, closes, reads⟩ := bracketClass_sound read
  exact ⟨front ++ [closing], by simp, reads.balanced.append (.single (by simp [closes]))⟩

/-- The quote that opens a quoted part is one of the pair. -/
theorem quoted_outside {quote : Token} (opens : quote.kind = .doubleQuote) {ts : List Token} {cs : List Char}
    {rest : List Token} (read : quoted ts = .ok (cs, rest)) : Outside (quote :: ts) rest := by
  obtain ⟨inside, closing, rfl, clear, closes, -⟩ := quoted_sound read
  exact ⟨quote :: inside ++ [closing], by simp, .quoted opens clear closes⟩

namespace Call

/-- A rule that is outside of quotes calls others outside of them. -/
theorem Makes.outside {call other : Call} (makes : call.Makes other) : Outside call.rest other.rest := by
  -- a call is made at once, behind a token that is no quote, or behind what another rule has read
  cases makes with
  | firstCriterion | path | firstName | firstOperand | afterInterval | plain | parts | choice | quote =>
    exact .refl _
  | afterFirstCriterion read => exact criterion_outside read
  | nextCriterion ampersand => exact .tail (by simp [ampersand]) _
  | afterNextCriterion ampersand read => exact (Outside.tail (by simp [ampersand]) _).trans (criterion_outside read)
  | value read equal => exact (propertyPath_outside read).trans (.tail (by simp [equal]) _)
  | afterFirstName read => exact identifier_outside read
  | nextName dot => exact .tail (by simp [dot]) _
  | afterNextName dot read => exact (Outside.tail (by simp [dot]) _).trans (identifier_outside read)
  | afterFirstOperand read => exact Layer.read_outside read
  | @nextOperand chain t ts separates =>
    have noQuote : t.kind ≠ .doubleQuote := separates.trans_ne chain.separator_ne_doubleQuote
    exact .tail noQuote ts
  | @afterNextOperand chain t ts next rest separates read =>
    have noQuote : t.kind ≠ .doubleQuote := separates.trans_ne chain.separator_ne_doubleQuote
    exact (Outside.tail noQuote ts).trans (Layer.read_outside read)
  | negated bang => exact .tail (by simp [bang]) _
  | grouped opens => exact .tail (by simp [opens]) _
  | bracketed opens => exact .tail (by simp [opens]) _
  | afterStar star => exact .tail (by simp [star]) _
  | afterChoice opens read => exact (Outside.tail (by simp [opens]) _).trans (bracketClass_outside read)
  | afterQuote quote read => exact quoted_outside quote read
  | afterLiteral literal => exact .tail (Kind.ne_doubleQuote_of literal rfl) _

/-- Whatever is called for from outside of quotes begins outside of them. The induction is on the calls. -/
theorem LeadsTo.outside {call other : Call} (leads : call.LeadsTo other) : Outside call.rest other.rest := by
  induction leads with
  | refl => exact .refl _
  | tail _ makes ih => exact ih.trans makes.outside

/-- What is called for as a quoted part begins with a quote, and none is open before it. -/
theorem LeadsTo.atQuote {rule : Rule} (other : rule ≠ .quoted) {ts us : List Token}
    (leads : LeadsTo ⟨rule, ts⟩ ⟨.quoted, us⟩) :
    ∃ quote inside, us = quote :: inside ∧ quote.kind = .doubleQuote ∧ Outside ts us := by
  have outside : Outside ts us := leads.outside
  rcases leads.cases_tail with same | ⟨caller, -, makes⟩
  · exact absurd (congrArg Call.rule same).symm other
  · cases makes with
    | @quote t inside isQuote => exact ⟨t, inside, rfl, isQuote, outside⟩

end Call

/-- A quoted part is read if it is closed. -/
theorem exists_quoted {ts : List Token} {closing : Token} (member : closing ∈ ts)
    (closes : closing.kind = .doubleQuote) : ∃ cs rest, quoted ts = .ok (cs, rest) := by
  induction ts with
  | nil => cases member
  | cons t ts ih =>
    by_cases quote : t.kind = .doubleQuote
    · exact ⟨[], ts, if_pos quote⟩
    rcases List.mem_cons.mp member with rfl | later
    · exact absurd closes quote
    · obtain ⟨cs, rest, read⟩ := ih later
      exact ⟨t.char :: cs, rest, (if_neg quote).trans (Step.cons_eq_ok.mpr ⟨cs, read, rfl⟩)⟩

namespace Token

/-- Where the quotes make pairs, one that opens a pair is followed by another one. -/
theorem exists_quoted_of_balanced {before inside : List Token} {quote : Token}
    (balanced : Balanced (before ++ quote :: inside)) (closed : Balanced before)
    (opens : quote.kind = .doubleQuote) : ∃ cs rest, quoted inside = .ok (cs, rest) := by
  rw [Balanced, quotesIn_append, quotesIn_cons_of_eq opens] at balanced
  have odd : Odd (quotesIn inside) := by
    have after := (Nat.even_add.mp balanced).mp closed
    rwa [Nat.even_add_one, Nat.not_even_iff_odd] at after
  obtain ⟨pairs, counted⟩ := odd
  have further : 0 < quotesIn inside := by omega
  obtain ⟨closing, member, closes⟩ := List.countP_pos_iff.mp further
  exact exists_quoted member (beq_iff_eq.mp closes)

/-- A text ends in a lone backslash if that is its last token. -/
theorem dangles_scan_iff {text : String} :
    Dangles (scan text) ↔ ∃ last ∈ (scan text).getLast?, last.text = "\\" := by
  constructor
  · rintro ⟨last, atEnd, other, backslash⟩
    refine ⟨last, atEnd, ?_⟩
    rcases kind_of_mem_scanFrom _ _ _ last (List.mem_of_getLast? atEnd) with escaped | ⟨-, plain⟩
    · rw [escaped] at other
      cases other
    · rw [Token.text, Token.written, plain, backslash]
      rfl
  · rintro ⟨last, atEnd, lone⟩
    have written : last.written = ['\\'] := by
      have same := congrArg String.toList lone
      rwa [Token.text, String.toList_ofList] at same
    obtain ⟨before, split⟩ := List.getLast?_eq_some_iff.mp atEnd
    refine ⟨last, atEnd, ?_, ?_⟩
    · rw [(scanFrom_split split).2.kind written]
      cases quotedAfter false before <;> rfl
    · rw [Token.written] at written
      split at written
      · cases written
      · exact (List.cons.inj written).1

/-- The tokens of a text can be read in one way only if its quotes make pairs and no backslash stands alone at its
end. -/
theorem ambiguity?_scan_eq_none_iff {text : String} :
    ambiguity? (scan text) = none ↔
      Even (quotesIn (scan text)) ∧ ∀ last ∈ (scan text).getLast?, last.text ≠ "\\" := by
  rw [ambiguity?_eq_none_iff, dangles_scan_iff, ← Bool.not_eq_true, quotedAfter_iff_odd, Nat.not_odd_iff_even]
  simp

end Token

/-- A quoted part that is called for in balanced tokens is closed. -/
theorem Call.LeadsTo.closed {rule : Rule} (other : rule ≠ .quoted) {tokens us : List Token} (balanced : Balanced tokens)
    (leads : LeadsTo ⟨rule, tokens⟩ ⟨.quoted, us⟩) :
    ∃ before quote inside, tokens = before ++ us ∧ us = quote :: inside ∧ quote.kind = .doubleQuote ∧
      Balanced before ∧ ∃ cs rest, quoted inside = .ok (cs, rest) := by
  obtain ⟨quote, inside, rfl, isQuote, before, rfl, closed⟩ := leads.atQuote other
  exact ⟨before, quote, inside, rfl, rfl, isQuote, closed,
    Token.exists_quoted_of_balanced balanced closed isQuote⟩

/-- No quote is missed in balanced tokens. -/
theorem Call.not_missesQuote {rule : Rule} (other : rule ≠ .quoted) {tokens : List Token}
    (balanced : Balanced tokens) : ¬MissesQuote ⟨rule, tokens⟩ := by
  rintro ⟨quote, ts, failure, leads, failed⟩
  obtain ⟨before, quote', inside, -, same, -, -, cs, rest, read⟩ := leads.closed other balanced
  obtain ⟨-, rfl⟩ := List.cons.inj same
  cases failed.symm.trans read

/-- An error tells what its failure would have taken. -/
theorem Failure.toError_expected {failure : Failure} {tokens : List Token} {position : Position}
    {expected : List Expected} {found : Found} (told : failure.toError tokens = .unexpected position expected found) :
    failure.expected = expected := by
  unfold toError at told
  split at told
  · cases told
    rfl
  · cases told
    rfl

/-- A text is refused for the want of a closing quote only if the rule that it is read by wants one. -/
theorem closingQuote_not_mem_of_readText {α : Type} {rule : List Token → Step α}
    (closed : ∀ {tokens}, Balanced tokens → ¬WantsQuote (rule tokens)) {trailing : Expected}
    (other : .closingQuote ≠ trailing) {text : String} {position : Position} {expected : List Expected} {found : Found}
    (refused : readText rule trailing text = .error (.unexpected position expected found)) :
    .closingQuote ∉ expected := by
  unfold readText at refused
  simp only at refused
  split at refused
  · cases refused
  rename_i clear
  have balanced := (Token.ambiguity?_scan_eq_none_iff.mp clear).1
  unfold readAll at refused
  split at refused
  · rename_i failure failed
    rw [← Failure.toError_expected (Except.error.inj refused)]
    intro member
    have wants : WantsQuote (.error failure : Step α) := member
    exact closed balanced (wants.of_error failed)
  · cases refused
  · rw [← Failure.toError_expected (Except.error.inj refused)]
    exact fun wants => other (List.mem_singleton.mp wants)

/-- Quotes are looked after when a text is cut into tokens. If they can be read in one way only, each quoted part that
is called for, be it in vain, begins outside of the others and is closed. -/
theorem quotes_closed (text : String) :
    (Token.ambiguity? (Token.scan text) = none ↔
      Even (Token.quotesIn (Token.scan text)) ∧ ∀ last ∈ (Token.scan text).getLast?, last.text ≠ "\\") ∧
    (Token.ambiguity? (Token.scan text) = none → ∀ rule ∈ [Rule.criteria, .expression, .propertyPath], ∀ us,
      Call.LeadsTo ⟨rule, Token.scan text⟩ ⟨.quoted, us⟩ →
        ∃ before quote inside, Token.scan text = before ++ us ∧ us = quote :: inside ∧ quote.kind = .doubleQuote ∧
          Even (Token.quotesIn before) ∧ ∃ cs rest, quoted inside = .ok (cs, rest)) ∧
    ∀ position expected found,
      Criterion.readList text = .error (.unexpected position expected found) ∨
        Expression.read text = .error (.unexpected position expected found) ∨
        PropertyPath.read text = .error (.unexpected position expected found) →
      .closingQuote ∉ expected := by
  refine ⟨Token.ambiguity?_scan_eq_none_iff, fun clear rule member us leads => ?_,
    fun position expected found refused => ?_⟩
  · have other : rule ≠ .quoted := by
      rintro rfl
      simp at member
    exact leads.closed other (Token.ambiguity?_scan_eq_none_iff.mp clear).1
  · rcases refused with refused | refused | refused
    · refine closingQuote_not_mem_of_readText (fun balanced wants => ?_) Expected.noConfusion refused
      exact Call.not_missesQuote Rule.noConfusion balanced (Call.missesQuote_criteria wants)
    · refine closingQuote_not_mem_of_readText (fun balanced wants => ?_) Expected.noConfusion refused
      exact Call.not_missesQuote Rule.noConfusion balanced (Call.missesQuote_expression wants)
    · exact closingQuote_not_mem_of_readText (fun _ => not_wantsQuote_propertyPath _) Expected.noConfusion refused

/-- A quoted part behind a class is called for when the interval that might begin there has been given up. -/
theorem quotes_closed_behind_class :
    Token.ambiguity? (Token.scan "[x]\"y\"") = none ∧
      (∃ before quote inside, Call.LeadsTo ⟨.expression, Token.scan "[x]\"y\""⟩ ⟨.quoted, quote :: inside⟩ ∧
        Token.scan "[x]\"y\"" = before ++ quote :: inside ∧ quote.kind = .doubleQuote ∧
        Even (Token.quotesIn before) ∧ ∃ cs rest, quoted inside = .ok (cs, rest)) ∧
      ∃ position expected found,
        Criterion.readList "[x]\"y\"" = .error (.unexpected position expected found) ∧ .closingQuote ∉ expected := by
  have tokens : Token.scan "[x]\"y\"" = [⟨.leftBracket, '[', false, ⟨1, 1⟩⟩, ⟨.letter, 'x', false, ⟨1, 2⟩⟩,
      ⟨.rightBracket, ']', false, ⟨1, 3⟩⟩, ⟨.doubleQuote, '"', false, ⟨1, 4⟩⟩, ⟨.letter, 'y', false, ⟨1, 5⟩⟩,
      ⟨.doubleQuote, '"', false, ⟨1, 6⟩⟩] := by decide
  have members : ClassReads [⟨.letter, 'x', false, ⟨1, 2⟩⟩] [.single 'x'] ['x'] :=
    .of_divides (.single rfl (by simp) .done) (by simp [ClassPart.Ascends]) (by decide)
  have clear : Token.ambiguity? (Token.scan "[x]\"y\"") = none := by
    rw [tokens]
    rfl
  have leads : Call.LeadsTo ⟨.expression, Token.scan "[x]\"y\""⟩
      ⟨.quoted, [⟨.doubleQuote, '"', false, ⟨1, 4⟩⟩, ⟨.letter, 'y', false, ⟨1, 5⟩⟩,
        ⟨.doubleQuote, '"', false, ⟨1, 6⟩⟩]⟩ := by
    rw [tokens]
    exact Call.leadsTo_quoted_of_class rfl members rfl rfl
  have refused : Criterion.readList "[x]\"y\"" = .error (.unexpected ⟨1, 1⟩ [.propertyName]
      (.token ⟨.leftBracket, '[', false, ⟨1, 1⟩⟩)) := by with_unfolding_all rfl
  obtain ⟨-, closed, never⟩ := quotes_closed "[x]\"y\""
  obtain ⟨before, quote, inside, split, same, opens, even, found⟩ := closed clear _ (by simp) _ leads
  rw [same] at leads split
  exact ⟨clear, ⟨before, quote, inside, leads, split, opens, even, found⟩, _, _, _, refused,
    never _ _ _ (.inl refused)⟩

end Sift

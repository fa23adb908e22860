import Sift.Proofs.Grammar.Bounds
import Sift.Proofs.Grammar.Term

namespace Sift

theorem boundTokens_sound {ts : List Token} {cs : List Char} {rest : List Token}
    (read : boundTokens ts = .ok (cs, rest)) :
    ∃ front, ts = front ++ rest ∧ (∀ t ∈ front, t.kind.isMember = true) ∧
      cs = front.map Token.char := by
  induction ts generalizing cs with
  | nil =>
    cases read
    exact ⟨[], rfl, by simp, rfl⟩
  | cons t ts ih =>
    simp only [boundTokens] at read
    split at read
    · cases read
      exact ⟨[], rfl, by simp, rfl⟩
    · split at read
      · rename_i member
        obtain ⟨others, inner, rfl⟩ := Step.cons_eq_ok.mp read
        obtain ⟨front, rfl, members, rfl⟩ := ih inner
        exact ⟨t :: front, rfl, List.forall_mem_cons.mpr ⟨member, members⟩, rfl⟩
      · cases read

/-- Tokens that end a bound. -/
def Kind.endsBound (kind : Kind) : Prop :=
  kind = whitespace ∨ kind = rightBracket

theorem Kind.not_endsBound_of_isMember {kind : Kind} (member : kind.isMember = true) :
    ¬kind.endsBound := by
  rintro (rfl | rfl) <;> cases member

/-- A run of members is taken to its end. -/
theorem boundTokens_complete {front : List Token} (members : ∀ t ∈ front, t.kind.isMember = true)
    {stop : Token} (ends : stop.kind.endsBound) (rest : List Token) :
    boundTokens (front ++ stop :: rest) = .ok (front.map Token.char, stop :: rest) := by
  induction front with
  | nil => exact if_pos ends
  | cons t front ih =>
    obtain ⟨member, members⟩ := List.forall_mem_cons.mp members
    have within : ¬(t.kind = .whitespace ∨ t.kind = .rightBracket) :=
      Kind.not_endsBound_of_isMember member
    rw [List.cons_append, boundTokens, if_neg within, if_pos member]
    exact Step.cons_eq_ok.mpr ⟨_, ih members, rfl⟩

/-- What is read as a bound is a star, or a run of members with its text. -/
theorem boundText_sound {ts : List Token} {text : Option String} {rest : List Token}
    (read : boundText ts = .ok (text, rest)) :
    ∃ front, ts = front ++ rest ∧
      ((text = none ∧ ∃ star, front = [star] ∧ star.kind = .asterisk) ∨
        ∃ run, text = some run ∧ RunSpells front run) := by
  unfold boundText at read
  split at read
  · split at read
    · split at read
      · cases read
        exact ⟨[_], rfl, .inl ⟨rfl, _, rfl, rfl⟩⟩
      · cases read
    · cases read
  · split at read
    · cases read
    · cases read
    · rename_i nonempty inner
      cases read
      obtain ⟨front, rfl, members, rfl⟩ := boundTokens_sound inner
      refine ⟨front, rfl, .inr ⟨_, rfl, ?_, members, rfl⟩⟩
      rintro rfl
      exact nonempty rfl

theorem boundText_star {star stop : Token} (isStar : star.kind = .asterisk) (ends : stop.kind.endsBound)
    (rest : List Token) : boundText (star :: stop :: rest) = .ok (none, stop :: rest) := by
  obtain ⟨kind, char, escapes, position⟩ := star
  obtain rfl : kind = .asterisk := isStar
  exact if_pos ends

/-- A run of members is read as its text. -/
theorem boundText_run {front : List Token} {text : String} (spelled : RunSpells front text)
    {stop : Token} (ends : stop.kind.endsBound) (rest : List Token) :
    boundText (front ++ stop :: rest) = .ok (some text, stop :: rest) := by
  obtain ⟨nonempty, members, rfl⟩ := spelled
  have read := boundTokens_complete members ends rest
  obtain ⟨t, front, rfl⟩ := List.exists_cons_of_ne_nil nonempty
  unfold boundText
  split
  · rename_i same
    have first := congrArg Token.kind (List.cons.inj same).1
    have member := members t (List.mem_cons_self ..)
    rw [first] at member
    cases member
  · rw [read]
    rfl

/-- The type that a bound gets is one that its text spells. -/
theorem typedBound_sound {start front : List Token} {text : String} {boundary : Boundary}
    (spelled : RunSpells front text) (read : typedBound start (some text) = .ok boundary) :
    BoundSpells front boundary := by
  simp only [typedBound] at read
  split at read
  · rename_i word
    cases read
    exact .constant spelled word
  · split at read
    · cases read
    · rename_i date
      cases read
      exact .date spelled date
    · split at read
      · cases read
      · rename_i time
        cases read
        exact .time spelled time
      · split at read
        · cases read
        · rename_i dateTime
          cases read
          exact .dateTime spelled dateTime
        · cases read

/-- What spells a bound is read as it, once something comes next that ends it. -/
theorem BoundSpells.reads {front : List Token} {boundary : Boundary}
    (spelled : BoundSpells front boundary) {stop : Token} (ends : stop.kind.endsBound)
    (rest : List Token) :
    ∃ text, boundText (front ++ stop :: rest) = .ok (text, stop :: rest) ∧
      ∀ start, typedBound start text = .ok boundary := by
  cases spelled with
  | unbounded star => exact ⟨none, boundText_star star ends rest, fun _ => rfl⟩
  | constant run word => exact ⟨_, boundText_run run ends rest, CalendarForm.typedBound_of_isWord word⟩
  | date run read => exact ⟨_, boundText_run run ends rest, CalendarForm.typedBound_of_read .date read⟩
  | time run read => exact ⟨_, boundText_run run ends rest, CalendarForm.typedBound_of_read .time read⟩
  | dateTime run read => exact ⟨_, boundText_run run ends rest, CalendarForm.typedBound_of_read .dateTime read⟩

theorem bound_sound {ts start : List Token} {text : Option String} {rest : List Token}
    {boundary : Boundary} (read : boundText ts = .ok (text, rest))
    (typed : typedBound start text = .ok boundary) :
    ∃ front, ts = front ++ rest ∧ BoundSpells front boundary := by
  obtain ⟨front, rfl, ⟨rfl, star, rfl, isStar⟩ | ⟨run, rfl, spelled⟩⟩ := boundText_sound read
  · cases typed
    exact ⟨[star], rfl, .unbounded isStar⟩
  · exact ⟨front, rfl, typedBound_sound spelled typed⟩

theorem whitespace_sound {ts : List Token} {done : Unit} {rest : List Token}
    (read : whitespace ts = .ok (done, rest)) : ∃ gap, ts = gap ++ rest ∧ IsGap gap := by
  simp only [whitespace] at read
  split at read
  · rename_i shorter
    cases read
    refine ⟨ts.takeWhile (·.kind == .whitespace), (List.takeWhile_append_dropWhile ..).symm, ?_, ?_⟩
    · intro none
      have split := List.takeWhile_append_dropWhile (p := (·.kind == .whitespace)) (l := ts)
      rw [none, List.nil_append] at split
      rw [split] at shorter
      exact Nat.lt_irrefl _ shorter
    · intro t member
      simpa using List.all_eq_true.mp List.all_takeWhile t member
  · cases read

/-- White space is taken as far as it goes. -/
theorem whitespace_complete {gap rest : List Token} (spelled : IsGap gap)
    (stops : Stops (· == .whitespace) rest) : whitespace (gap ++ rest) = .ok ((), rest) := by
  obtain ⟨nonempty, blank⟩ := spelled
  have left : (gap ++ rest).dropWhile (·.kind == .whitespace) = rest := by
    rw [List.dropWhile_append_of_pos fun t member => by simp [blank t member]]
    cases rest with
    | nil => rfl
    | cons t ts => simp [stops_cons.mp stops]
  have shorter : rest.length < (gap ++ rest).length := by
    have positive := List.length_pos_iff.mpr nonempty
    rw [List.length_append]
    omega
  simp only [whitespace, left, shorter, if_true]

theorem whitespace_fails {t : Token} (word : t.kind ≠ .whitespace) (ts : List Token) :
    whitespace (t :: ts) = .missing .whitespace (t :: ts) := by
  simp [whitespace, word]

theorem keywordTo_sound {ts : List Token} {done : Unit} {rest : List Token}
    (read : keywordTo ts = .ok (done, rest)) :
    ∃ t o, ts = t :: o :: rest ∧ t.IsLetter 'T' ∧ o.IsLetter 'O' := by
  unfold keywordTo at read
  split at read
  · cases read
    exact ⟨_, _, rfl, ⟨rfl, rfl⟩, rfl, rfl⟩
  · cases read

theorem keywordTo_complete {t o : Token} (isT : t.IsLetter 'T') (isO : o.IsLetter 'O')
    (rest : List Token) : keywordTo (t :: o :: rest) = .ok ((), rest) := by
  obtain ⟨tKind, tChar, tEscapes, tPosition⟩ := t
  obtain ⟨oKind, oChar, oEscapes, oPosition⟩ := o
  obtain ⟨rfl, rfl⟩ := isT
  obtain ⟨rfl, rfl⟩ := isO
  rfl

theorem closingBracket_sound {ts : List Token} {done : Unit} {rest : List Token}
    (read : closingBracket ts = .ok (done, rest)) :
    ∃ closing, ts = closing :: rest ∧ closing.kind = .rightBracket := by
  unfold closingBracket at read
  split at read
  · cases read
    exact ⟨_, rfl, rfl⟩
  · cases read

theorem closingBracket_complete {closing : Token} (closes : closing.kind = .rightBracket)
    (rest : List Token) : closingBracket (closing :: rest) = .ok ((), rest) := by
  obtain ⟨kind, char, escapes, position⟩ := closing
  obtain rfl : kind = .rightBracket := closes
  rfl

/-- What is read as an interval, with the bracket before it, spells it. -/
theorem interval_sound {opening : Token} (opens : opening.kind = .leftBracket) {ts : List Token}
    {e : Expression} {rest : List Token} (read : interval ts = .ok (e, rest)) :
    ∃ front, opening :: ts = front ++ rest ∧ IntervalSpells front e := by
  obtain ⟨minText, maxText, min, max, afterMin, beforeTo, afterTo, maxStart, afterMax,
    atMin, atGap, atTo, atGap', atMax, atClose, minTyped, maxTyped, rfl⟩ := interval_eq_ok.mp read
  obtain ⟨lower, rfl, lowerSpelled⟩ := bound_sound atMin minTyped
  obtain ⟨gap, rfl, isGap⟩ := whitespace_sound atGap
  obtain ⟨t, o, rfl, isT, isO⟩ := keywordTo_sound atTo
  obtain ⟨gap', rfl, isGap'⟩ := whitespace_sound atGap'
  obtain ⟨upper, rfl, upperSpelled⟩ := bound_sound atMax maxTyped
  obtain ⟨closing, rfl, closes⟩ := closingBracket_sound atClose
  exact ⟨_, by simp, .mk opens lowerSpelled isGap isT isO isGap' upperSpelled closes⟩

/-- No bound begins with white space, so the gap before it ends there. -/
theorem BoundSpells.stops_whitespace {ts : List Token} {boundary : Boundary}
    (spelled : BoundSpells ts boundary) (rest : List Token) :
    Stops (· == .whitespace) (ts ++ rest) := by
  have run : ∀ {text}, RunSpells ts text → Stops (· == .whitespace) (ts ++ rest) := by
    rintro text ⟨nonempty, members, -⟩
    obtain ⟨t, others, rfl⟩ := List.exists_cons_of_ne_nil nonempty
    have member := members t (List.mem_cons_self ..)
    rw [List.cons_append, stops_cons, beq_eq_false_iff_ne]
    intro blank
    rw [blank] at member
    cases member
  cases spelled with
  | unbounded star => simp [stops_cons, star]
  | constant spelled _ => exact run spelled
  | date spelled _ => exact run spelled
  | time spelled _ => exact run spelled
  | dateTime spelled _ => exact run spelled

/-- What spells an interval is read as it, whatever comes next. -/
theorem interval_complete {front : List Token} {e : Expression} (spelled : IntervalSpells front e) :
    ∃ opening ts, front = opening :: ts ∧ opening.kind = .leftBracket ∧
      ∀ rest, interval (ts ++ rest) = .ok (e, rest) := by
  obtain @⟨opening, lower, gap, t, o, gap', upper, closing, min, max, opens, lowerSpelled, isGap, isT,
    isO, isGap', upperSpelled, closes⟩ := spelled
  refine ⟨opening, _, rfl, opens, fun rest => ?_⟩
  obtain ⟨blank, others, rfl⟩ := List.exists_cons_of_ne_nil isGap.1
  have blankKind := isGap.2 blank (List.mem_cons_self ..)
  obtain ⟨minText, atMin, minTyped⟩ :=
    lowerSpelled.reads (.inl blankKind) (others ++ t :: o :: (gap' ++ (upper ++ closing :: rest)))
  obtain ⟨maxText, atMax, maxTyped⟩ := upperSpelled.reads (.inr closes) rest
  have notBlank : t.kind ≠ .whitespace := by simp [isT.1]
  refine interval_eq_ok.mpr ⟨minText, maxText, min, max, _, _, _, _, _, ?_,
    whitespace_complete isGap ?_, keywordTo_complete isT isO _,
    whitespace_complete isGap' ?_, atMax, closingBracket_complete closes rest,
    minTyped _, maxTyped _, rfl⟩
  · simpa using atMin
  · simpa [stops_cons] using notBlank
  · exact upperSpelled.stops_whitespace _

/-- A class is refused as an interval where white space would come, so that a term may be tried. -/
theorem interval_fails_on_class {front : List Token} {parts : List ClassPart} {members : List Char}
    (reads : ClassReads front parts members) {closing : Token} (closes : closing.kind = .rightBracket)
    (rest : List Token) :
    interval (front ++ closing :: rest) = .error (.missing .whitespace (closing :: rest)) := by
  have bound := boundText_run ⟨reads.ne_nil, reads.isMember, rfl⟩ (.inr closes) rest
  have gap := whitespace_fails (by simp [closes] : closing.kind ≠ .whitespace) rest
  simp only [interval, bound, bind, Except.bind, gap, Step.missing]

end Sift

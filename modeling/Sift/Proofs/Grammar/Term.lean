import Sift.Proofs.Grammar.BracketClass

namespace Sift

/-- A quoted part ends at the next quote. -/
theorem quoted_sound {ts : List Token} {cs : List Char} {rest : List Token}
    (read : quoted ts = .ok (cs, rest)) :
    ∃ inside closing, ts = inside ++ closing :: rest ∧ (∀ t ∈ inside, t.kind ≠ .doubleQuote) ∧
      closing.kind = .doubleQuote ∧ cs = inside.map Token.char := by
  induction ts generalizing cs with
  | nil => cases read
  | cons t ts ih =>
    simp only [quoted] at read
    split at read
    · rename_i closes
      cases read
      exact ⟨[], t, rfl, by simp, closes, rfl⟩
    · rename_i open_
      obtain ⟨others, inner, rfl⟩ := Step.cons_eq_ok.mp read
      obtain ⟨inside, closing, rfl, clear, closes, rfl⟩ := ih inner
      exact ⟨t :: inside, closing, rfl, List.forall_mem_cons.mpr ⟨open_, clear⟩, closes, rfl⟩

/-- Tokens without quotes are read up to the quote that closes them. -/
theorem quoted_complete {inside : List Token} (clear : ∀ t ∈ inside, t.kind ≠ .doubleQuote)
    {closing : Token} (closes : closing.kind = .doubleQuote) (rest : List Token) :
    quoted (inside ++ closing :: rest) = .ok (inside.map Token.char, rest) := by
  induction inside with
  | nil => exact if_pos closes
  | cons t ts ih =>
    obtain ⟨open_, clear⟩ := List.forall_mem_cons.mp clear
    simp only [List.cons_append, quoted, if_neg open_]
    exact Step.cons_eq_ok.mpr ⟨_, ih clear, rfl⟩

/-- Kinds of tokens that go on with a term. -/
def Kind.inTerm (kind : Kind) : Bool :=
  kind.isLiteral || kind == asterisk || kind == leftBracket || kind == doubleQuote

/-- That some tokens do not begin with one of certain kinds. -/
def Stops (goesOn : Kind → Bool) (rest : List Token) : Prop :=
  ∀ t ∈ rest.head?, goesOn t.kind = false

theorem stops_nil (goesOn : Kind → Bool) : Stops goesOn [] := by
  simp [Stops]

theorem stops_cons {goesOn : Kind → Bool} {t : Token} {rest : List Token} :
    Stops goesOn (t :: rest) ↔ goesOn t.kind = false := by
  simp [Stops]

theorem atoms_stop {rest : List Token} (stops : Stops Kind.inTerm rest) :
    atoms rest = .ok ([], rest) := by
  cases rest with
  | nil => rw [atoms]
  | cons t ts =>
    have out := stops_cons.mp stops
    simp only [Kind.inTerm, Bool.or_eq_false_iff, beq_eq_false_iff_ne] at out
    obtain ⟨⟨⟨literal, star⟩, bracket⟩, quote⟩ := out
    rw [atoms, if_neg star, if_neg bracket, if_neg quote, if_neg (by simp [literal])]

theorem atoms_star {star : Token} (isStar : star.kind = .asterisk) {more rest : List Token}
    {parts : List Atom} (read : atoms more = .ok (parts, rest)) :
    atoms (star :: more) = .ok (.star :: parts, rest) := by
  rw [atoms, if_pos isStar]
  exact Step.cons_eq_ok.mpr ⟨parts, read, rfl⟩

/-- A piece is read as one part, whatever parts come after it. -/
theorem atoms_piece {ts : List Token} {segment : Segment} (spelled : PieceSpells ts segment)
    {more rest : List Token} {parts : List Atom} (read : atoms more = .ok (parts, rest)) :
    atoms (ts ++ more) = .ok (.segment segment :: parts, rest) := by
  cases spelled with
  | @plain t literal =>
    have others : t.kind ≠ .asterisk ∧ t.kind ≠ .leftBracket ∧ t.kind ≠ .doubleQuote := by
      refine ⟨?_, ?_, ?_⟩ <;> intro same <;> simp [same, Kind.isLiteral] at literal
    rw [List.singleton_append, atoms, if_neg others.1, if_neg others.2.1, if_neg others.2.2,
      if_pos literal]
    exact Step.cons_eq_ok.mpr ⟨parts, read, rfl⟩
  | @quoted opening ts closing opens clear closes =>
    have inside := quoted_complete clear closes more
    simp only [List.cons_append, List.append_assoc, List.nil_append]
    rw [atoms, if_neg (by simp [opens]), if_neg (by simp [opens]), if_pos opens]
    split
    · rename_i failed
      cases inside.symm.trans failed
    · rename_i found
      cases inside.symm.trans found
      exact Step.cons_eq_ok.mpr ⟨parts, read, rfl⟩
  | @choice opening ts closing _ members opens reads closes =>
    have inside := bracketClass_complete reads closes more
    simp only [List.cons_append, List.append_assoc, List.nil_append]
    rw [atoms, if_neg (by simp [opens]), if_pos opens]
    split
    · rename_i failed
      cases inside.symm.trans failed
    · rename_i found
      cases inside.symm.trans found
      exact Step.cons_eq_ok.mpr ⟨parts, read, rfl⟩

/-- A text is read piece by piece. -/
theorem atoms_text {ts : List Token} {text : List Segment} (spelled : TextSpells ts text)
    {more rest : List Token} {parts : List Atom} (read : atoms more = .ok (parts, rest)) :
    atoms (ts ++ more) = .ok (text.map .segment ++ parts, rest) := by
  induction spelled with
  | last piece => exact atoms_piece piece read
  | next piece _ ih =>
    rw [List.append_assoc]
    exact atoms_piece piece ih

theorem textsBetweenStars_star (parts : List Atom) :
    textsBetweenStars (.star :: parts) = [] :: textsBetweenStars parts := by
  simp [textsBetweenStars, splitAtStars]

theorem textsBetweenStars_segment (segment : Segment) (parts : List Atom) :
    textsBetweenStars (.segment segment :: parts) =
      (segment :: (splitAtStars parts).1) :: (splitAtStars parts).2 := by
  simp [textsBetweenStars, splitAtStars]

theorem textsBetweenStars_text (text : List Segment) :
    textsBetweenStars (text.map .segment) = [text] := by
  induction text with
  | nil => rfl
  | cons segment text ih =>
    obtain ⟨first, others⟩ := List.cons.inj ih
    rw [List.map_cons, textsBetweenStars_segment, first, others]

/-- A star ends the text before it. -/
theorem textsBetweenStars_text_star (text : List Segment) (parts : List Atom) :
    textsBetweenStars (text.map .segment ++ .star :: parts) = text :: textsBetweenStars parts := by
  induction text with
  | nil => exact textsBetweenStars_star parts
  | cons segment text ih =>
    obtain ⟨first, others⟩ := List.cons.inj ih
    rw [List.map_cons, List.cons_append, textsBetweenStars_segment, first, others]

/-- Pieces without a class are put behind the text so far. -/
theorem expandFrom_append (build : String → Expression) (start : List Char) (pieces : List (List Char))
    (rest : List Segment) :
    expandFrom build start (pieces.map .literal ++ rest) = expandFrom build (start ++ pieces.flatten) rest := by
  induction pieces generalizing start with
  | nil => simp
  | cons cs pieces ih => simp [expandFrom, ih]

/-- A text without classes is the condition on all of its characters. -/
theorem expand_literals (build : String → Expression) (pieces : List (List Char)) :
    expand build (pieces.map .literal) = build (String.ofList pieces.flatten) := by
  have whole := expandFrom_append build [] pieces []
  rwa [List.append_nil] at whole

/-- The first class of a text makes one variant of each of its characters, put in its place. -/
theorem expand_choice (build : String → Expression) (before : List (List Char)) (members : List Char)
    (rest : List Segment) :
    expand build (before.map .literal ++ .choice members :: rest) =
      .oneOf (members.map fun c => expand build (before.map .literal ++ .literal [c] :: rest)) := by
  simp [expand, expandFrom_append, expandFrom]

/-- A text stands for no other condition than the one that the reader builds. -/
theorem TextMeans.eq_expand {build : String → Expression} {text : List Segment} {e : Expression}
    (means : TextMeans build text e) : e = expand build text := by
  induction means with
  | @whole pieces => exact (expand_literals build pieces).symm
  | @variants before members rest variant _ ih =>
    rw [expand_choice]
    exact congrArg _ (List.map_congr_left ih)

/-- Every text stands for a condition. The induction is on what comes after the part already gone through, which
is free of classes: each class in turn becomes text there. -/
theorem textMeans_expand (build : String → Expression) (text : List Segment) :
    TextMeans build text (expand build text) := by
  suffices behind : ∀ before : List (List Char),
      TextMeans build (before.map .literal ++ text) (expand build (before.map .literal ++ text)) from behind []
  induction text with
  | nil =>
    intro before
    rw [List.append_nil, expand_literals]
    exact .whole
  | cons segment rest ih =>
    intro before
    have further (cs : List Char) : TextMeans build (before.map .literal ++ .literal cs :: rest)
        (expand build (before.map .literal ++ .literal cs :: rest)) := by
      have behind := ih (before ++ [cs])
      rwa [List.map_append, List.append_assoc] at behind
    cases segment with
    | literal cs => exact further cs
    | choice members =>
      rw [expand_choice]
      exact .variants fun c _ => further [c]

/-- A text, or nothing where a star begins or ends a term. -/
def PartSpells (ts : List Token) (text : List Segment) : Prop :=
  ts = [] ∧ text = [] ∨ TextSpells ts text

theorem TextSpells.ne_nil {ts : List Token} {text : List Segment} (spelled : TextSpells ts text) :
    text ≠ [] := by
  cases spelled <;> exact List.cons_ne_nil _ _

theorem PartSpells.nil {ts : List Token} (spelled : PartSpells ts []) : ts = [] := by
  rcases spelled with ⟨empty, -⟩ | text
  · exact empty
  · exact absurd rfl text.ne_nil

theorem PartSpells.text {ts : List Token} {text : List Segment} (spelled : PartSpells ts text)
    (nonempty : text ≠ []) : TextSpells ts text :=
  spelled.resolve_left fun none => nonempty none.2

theorem PartSpells.cons {ts us : List Token} {segment : Segment} {text : List Segment}
    (piece : PieceSpells ts segment) (spelled : PartSpells us text) :
    PartSpells (ts ++ us) (segment :: text) := by
  rcases spelled with ⟨rfl, rfl⟩ | text
  · rw [List.append_nil]
    exact .inr (.last piece)
  · exact .inr (.next piece text)

/-- Texts with a star between each two. -/
inductive StarredSpells : List Token → List (List Segment) → Prop
  | last {ts text} : PartSpells ts text → StarredSpells ts [text]
  | next {ts text star us texts} : PartSpells ts text → star.kind = .asterisk →
      StarredSpells us texts → StarredSpells (ts ++ star :: us) (text :: texts)

theorem StarredSpells.piece {ts us : List Token} {segment : Segment} {first : List Segment}
    {others : List (List Segment)} (piece : PieceSpells ts segment)
    (spelled : StarredSpells us (first :: others)) :
    StarredSpells (ts ++ us) ((segment :: first) :: others) := by
  cases spelled with
  | last text => exact .last (text.cons piece)
  | next text star rest =>
    rw [← List.append_assoc]
    exact .next (text.cons piece) star rest

/-- The parts that are read are texts with a star between each two. -/
theorem atoms_sound {ts : List Token} {parts : List Atom} {rest : List Token}
    (read : atoms ts = .ok (parts, rest)) :
    ∃ front, ts = front ++ rest ∧ StarredSpells front (textsBetweenStars parts) := by
  fun_induction atoms ts generalizing parts rest with
  | case1 =>
    cases read
    exact ⟨[], rfl, .last (.inl ⟨rfl, rfl⟩)⟩
  | case2 t ts star ih =>
    obtain ⟨others, inner, rfl⟩ := Step.cons_eq_ok.mp read
    obtain ⟨front, rfl, spelled⟩ := ih inner
    rw [textsBetweenStars_star]
    exact ⟨t :: front, rfl, .next (.inl ⟨rfl, rfl⟩) star spelled⟩
  | case3 | case5 => cases read
  | case4 t ts _ opens members after class_ ih =>
    obtain ⟨others, inner, rfl⟩ := Step.cons_eq_ok.mp read
    obtain ⟨front, rfl, spelled⟩ := ih inner
    obtain ⟨inside, closing, parts, rfl, closes, reads⟩ := bracketClass_sound class_
    refine ⟨t :: inside ++ [closing] ++ front, by simp, ?_⟩
    rw [textsBetweenStars_segment]
    exact spelled.piece (.choice opens reads closes)
  | case6 t ts _ _ opens cs after quote ih =>
    obtain ⟨others, inner, rfl⟩ := Step.cons_eq_ok.mp read
    obtain ⟨front, rfl, spelled⟩ := ih inner
    obtain ⟨inside, closing, rfl, clear, closes, rfl⟩ := quoted_sound quote
    refine ⟨t :: inside ++ [closing] ++ front, by simp, ?_⟩
    rw [textsBetweenStars_segment]
    exact spelled.piece (.quoted opens clear closes)
  | case7 t ts _ _ _ literal ih =>
    obtain ⟨others, inner, rfl⟩ := Step.cons_eq_ok.mp read
    obtain ⟨front, rfl, spelled⟩ := ih inner
    rw [textsBetweenStars_segment]
    exact ⟨[t] ++ front, rfl, spelled.piece (.plain literal)⟩
  | case8 t ts =>
    cases read
    exact ⟨[], rfl, .last (.inl ⟨rfl, rfl⟩)⟩

theorem StarredSpells.only {ts : List Token} {text : List Segment}
    (spelled : StarredSpells ts [text]) : PartSpells ts text := by
  obtain only | ⟨_, _, none⟩ := spelled
  · exact only
  · cases none

/-- The first text ends at a star if it is not the only one. -/
theorem StarredSpells.split {front : List Token} {text : List Segment} {texts : List (List Segment)}
    (spelled : StarredSpells front (text :: texts)) (more : texts ≠ []) :
    ∃ ts star us, front = ts ++ star :: us ∧ PartSpells ts text ∧ star.kind = .asterisk ∧
      StarredSpells us texts := by
  obtain _ | ⟨first, star, rest⟩ := spelled
  · exact absurd rfl more
  · exact ⟨_, _, _, rfl, first, star, rest⟩

/-- Texts with stars in places that have a meaning are a term. -/
theorem StarredSpells.term {front : List Token} {texts : List (List Segment)} {e : Expression}
    (spelled : StarredSpells front texts) (some_ : texts ≠ [[]])
    (layout : starLayout? texts = some e) : TermSpells front e := by
  unfold starLayout? at layout
  split at layout
  · cases layout
    obtain ⟨ts, star, us, rfl, before, isStar, after⟩ := spelled.split (by simp)
    rw [before.nil, after.only.nil]
    exact .anything isStar
  · rename_i text
    cases layout
    exact .constant (spelled.only.text fun empty => some_ (by rw [empty])) (textMeans_expand ..)
  · rename_i text filled
    cases layout
    obtain ⟨ts, star, us, rfl, before, isStar, after⟩ := spelled.split (by simp)
    rw [after.only.nil]
    exact .startsWith (before.text filled) isStar (textMeans_expand ..)
  · rename_i text filled
    cases layout
    obtain ⟨ts, star, us, rfl, before, isStar, after⟩ := spelled.split (by simp)
    rw [before.nil]
    exact .endsWith isStar (after.only.text filled) (textMeans_expand ..)
  · rename_i afterFilled beforeFilled
    cases layout
    obtain ⟨ts, star, us, rfl, before, isStar, after⟩ := spelled.split (by simp)
    exact .around (before.text beforeFilled) isStar (after.only.text afterFilled) (textMeans_expand ..)
      (textMeans_expand ..)
  · cases layout
    obtain ⟨ts, star, us, rfl, before, isStar, rest⟩ := spelled.split (by simp)
    obtain ⟨vs, star', ws, rfl, within, isStar', after⟩ := rest.split (by simp)
    rw [before.nil, after.only.nil]
    exact .contains isStar (within.text (List.cons_ne_nil _ _)) isStar' (textMeans_expand ..)
  · cases layout

/-- What is read as a term spells it. -/
theorem term_sound {ts : List Token} {e : Expression} {rest : List Token}
    (read : term ts = .ok (e, rest)) : ∃ front, ts = front ++ rest ∧ TermSpells front e := by
  unfold term at read
  split at read
  · cases read
  · cases read
  · rename_i parts left nonempty inner
    obtain ⟨front, rfl, spelled⟩ := atoms_sound inner
    split at read
    · rename_i layout
      cases read
      refine ⟨front, rfl, spelled.term ?_ layout⟩
      intro none
      cases parts with
      | nil => exact nonempty rfl
      | cons part others =>
        cases part with
        | star =>
          rw [textsBetweenStars_star] at none
          cases none
        | segment =>
          rw [textsBetweenStars_segment] at none
          cases none
    · cases read

theorem term_of_atoms {ts rest : List Token} {parts : List Atom} {e : Expression}
    (read : atoms ts = .ok (parts, rest)) (nonempty : parts ≠ [])
    (layout : starLayout? (textsBetweenStars parts) = some e) : term ts = .ok (e, rest) := by
  unfold term
  rw [read]
  cases parts with
  | nil => exact absurd rfl nonempty
  | cons part others => simp only [layout]

theorem TextSpells.exists_cons {ts : List Token} {text : List Segment} (spelled : TextSpells ts text) :
    ∃ segment others, text = segment :: others :=
  List.exists_cons_of_ne_nil spelled.ne_nil

/-- What spells a term is read as it if no part of a term comes next. -/
theorem term_complete {front : List Token} {e : Expression} (spelled : TermSpells front e)
    {rest : List Token} (stops : Stops Kind.inTerm rest) : term (front ++ rest) = .ok (e, rest) := by
  have end_ := atoms_stop stops
  cases spelled with
  | anything star => exact term_of_atoms (atoms_star star end_) (List.cons_ne_nil _ _) rfl
  | constant text means =>
    obtain rfl := means.eq_expand
    refine term_of_atoms (atoms_text text end_) (by simpa using text.ne_nil) ?_
    obtain ⟨_, _, rfl⟩ := text.exists_cons
    rw [List.append_nil, textsBetweenStars_text, starLayout?]
  | startsWith text star means =>
    obtain rfl := means.eq_expand
    rw [List.append_assoc]
    refine term_of_atoms (atoms_text text (atoms_star star end_)) (by simp) ?_
    obtain ⟨_, _, rfl⟩ := text.exists_cons
    rw [textsBetweenStars_text_star]
    rfl
  | endsWith star text means =>
    obtain rfl := means.eq_expand
    refine term_of_atoms (atoms_star star (atoms_text text end_)) (List.cons_ne_nil _ _) ?_
    obtain ⟨_, _, rfl⟩ := text.exists_cons
    rw [textsBetweenStars_star, List.append_nil, textsBetweenStars_text]
    rfl
  | contains star text star' means =>
    obtain rfl := means.eq_expand
    simp only [List.cons_append, List.append_assoc, List.nil_append]
    refine term_of_atoms (atoms_star star (atoms_text text (atoms_star star' end_)))
      (List.cons_ne_nil _ _) ?_
    obtain ⟨_, _, rfl⟩ := text.exists_cons
    rw [textsBetweenStars_star, textsBetweenStars_text_star]
    rfl
  | around before star after begins ends =>
    obtain rfl := begins.eq_expand
    obtain rfl := ends.eq_expand
    rw [List.append_assoc]
    refine term_of_atoms (atoms_text before (atoms_star star (atoms_text after end_))) (by simp) ?_
    obtain ⟨_, _, rfl⟩ := before.exists_cons
    obtain ⟨_, _, rfl⟩ := after.exists_cons
    rw [textsBetweenStars_text_star, List.append_nil, textsBetweenStars_text]
    rfl

end Sift

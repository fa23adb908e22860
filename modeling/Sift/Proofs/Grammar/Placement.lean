import Sift.Proofs.Grammar.Criteria
import Sift.Proofs.Token.Placement

namespace Sift

open Token (movedTo Stands)

section
variable (base : Position)

/-- The grammar does not look at the places of tokens, in a class or elsewhere. -/
theorem ClassDivides.moved {ts : List Token} {parts : List ClassPart} (divides : ClassDivides ts parts) :
    ClassDivides (ts.map (movedTo base)) parts := by
  induction divides with
  | done => exact .done
  | range first dash last _ ih => exact ClassDivides.range first dash last ih
  | @single t ts parts member alone _ ih =>
    refine ClassDivides.single member ?_ ih
    intro dash last others split
    obtain ⟨dash', rest, rfl, rfl, split'⟩ := List.map_eq_cons_iff.mp split
    obtain ⟨last', others', rfl, rfl, -⟩ := List.map_eq_cons_iff.mp split'
    exact alone dash' last' others' rfl

theorem ClassReads.moved {ts : List Token} {parts : List ClassPart} {members : List Char}
    (reads : ClassReads ts parts members) : ClassReads (ts.map (movedTo base)) parts members :=
  { reads with
    inside := List.forall_mem_map.mpr reads.inside
    divides := reads.divides.moved base }

theorem PieceSpells.moved {ts : List Token} {segment : Segment} (spelled : PieceSpells ts segment) :
    PieceSpells (ts.map (movedTo base)) segment := by
  cases spelled with
  | @plain t literal => exact PieceSpells.plain literal
  | @quoted opening ts closing opens inside closes =>
    have within : ∀ t ∈ ts.map (movedTo base), t.kind ≠ .doubleQuote := by
      intro t member
      obtain ⟨u, atU, rfl⟩ := List.mem_map.mp member
      exact inside u atU
    have literal : (ts.map (movedTo base)).map Token.char = ts.map Token.char := List.map_map
    have piece : PieceSpells (movedTo base opening :: ts.map (movedTo base) ++ [movedTo base closing]) _ :=
      .quoted opens within closes
    simpa only [List.map_append, List.map_cons, List.map_nil, List.cons_append, literal] using piece
  | @choice opening ts closing parts members opens reads closes =>
    have piece : PieceSpells (movedTo base opening :: ts.map (movedTo base) ++ [movedTo base closing]) _ :=
      .choice opens (reads.moved base) closes
    simpa using piece

theorem TextSpells.moved {ts : List Token} {text : List Segment} (spelled : TextSpells ts text) :
    TextSpells (ts.map (movedTo base)) text := by
  induction spelled with
  | last piece => exact .last (piece.moved base)
  | next piece _ ih =>
    rw [List.map_append]
    exact .next (piece.moved base) ih

theorem TermSpells.moved {ts : List Token} {e : Expression} (spelled : TermSpells ts e) :
    TermSpells (ts.map (movedTo base)) e := by
  cases spelled with
  | @anything star isStar => exact TermSpells.anything isStar
  | constant text means => exact .constant (text.moved base) means
  | @startsWith ts text star e spelled isStar means =>
    rw [List.map_append]
    exact .startsWith (spelled.moved base) isStar means
  | @endsWith star ts text e isStar spelled means =>
    exact .endsWith isStar (spelled.moved base) means
  | @contains star ts text star' e isStar spelled isStar' means =>
    rw [List.map_append]
    exact .contains isStar (spelled.moved base) isStar' means
  | @around ts before star us after first second spelled isStar spelled' begins ends =>
    rw [List.map_append]
    exact .around (spelled.moved base) isStar (spelled'.moved base) begins ends

theorem RunSpells.moved {ts : List Token} {text : String} (run : RunSpells ts text) :
    RunSpells (ts.map (movedTo base)) text := by
  obtain ⟨nonempty, members, rfl⟩ := run
  refine ⟨mt List.map_eq_nil_iff.mp nonempty, fun t member => ?_, by rw [List.map_map]; rfl⟩
  obtain ⟨u, atU, rfl⟩ := List.mem_map.mp member
  exact members u atU

theorem BoundSpells.moved {ts : List Token} {b : Boundary} (spelled : BoundSpells ts b) :
    BoundSpells (ts.map (movedTo base)) b := by
  cases spelled with
  | @unbounded star isStar => exact BoundSpells.unbounded isStar
  | constant run word => exact .constant (run.moved base) word
  | date run read => exact .date (run.moved base) read
  | time run read => exact .time (run.moved base) read
  | dateTime run read => exact .dateTime (run.moved base) read

theorem IsGap.moved {ts : List Token} (gap : IsGap ts) : IsGap (ts.map (movedTo base)) := by
  refine ⟨mt List.map_eq_nil_iff.mp gap.1, fun t member => ?_⟩
  obtain ⟨u, atU, rfl⟩ := List.mem_map.mp member
  exact gap.2 u atU

theorem IntervalSpells.moved {ts : List Token} {e : Expression} (spelled : IntervalSpells ts e) :
    IntervalSpells (ts.map (movedTo base)) e := by
  obtain @⟨opening, lower, gap, t, o, gap', upper, closing, min, max, opens, least, before, isT, isO, after,
    greatest, closes⟩ := spelled
  have whole : IntervalSpells (movedTo base opening :: (lower.map (movedTo base) ++ gap.map (movedTo base) ++
      movedTo base t :: movedTo base o :: gap'.map (movedTo base) ++ upper.map (movedTo base) ++
        [movedTo base closing])) (.interval min max) :=
    .mk opens (least.moved base) (before.moved base) isT isO (after.moved base) (greatest.moved base) closes
  simpa using whole

/-- The grammar does not look at the places of tokens. -/
theorem Derives.moved {layer : Layer} {ts : List Token} {e : Expression} (derived : Derives layer ts e) :
    Derives layer (ts.map (movedTo base)) e := by
  induction derived with
  | term spelled => exact .term (spelled.moved base)
  | interval spelled => exact .interval (spelled.moved base)
  | @group opening ts closing e opens _ closes ih =>
    have whole : Derives .unary (movedTo base opening :: ts.map (movedTo base) ++ [movedTo base closing])
        (.group e) := .group opens ih closes
    simpa using whole
  | @not bang ts e isBang _ ih => exact .not isBang ih
  | first _ ih => exact .first ih
  | @next chain ts left separator us right _ separates _ atLeft atRight =>
    rw [List.map_append]
    exact .next atLeft separates atRight

theorem NameSpells.moved {ts : List Token} {name : String} (spelled : NameSpells ts name) :
    NameSpells (ts.map (movedTo base)) name := by
  obtain @⟨first, ts, begins, inside⟩ := spelled
  have within : ∀ t ∈ ts.map (movedTo base), t.kind.inName := by
    intro t member
    obtain ⟨u, atU, rfl⟩ := List.mem_map.mp member
    exact inside u atU
  have chars : ((first :: ts).map (movedTo base)).map Token.char = (first :: ts).map Token.char :=
    List.map_map
  have whole : NameSpells (movedTo base first :: ts.map (movedTo base)) _ := .mk begins within
  rwa [← List.map_cons, chars] at whole

theorem NamesSpell.moved {ts : List Token} {names : List String} (spelled : NamesSpell ts names) :
    NamesSpell (ts.map (movedTo base)) names := by
  induction spelled with
  | last name => exact .last (name.moved base)
  | next name isDot _ ih =>
    rw [List.map_append]
    exact .next (name.moved base) isDot ih

theorem CriterionSpells.moved {ts : List Token} {found : Criterion} (spelled : CriterionSpells ts found) :
    CriterionSpells (ts.map (movedTo base)) found := by
  obtain ⟨named, isEqual, derived⟩ := spelled
  rw [List.map_append]
  exact .mk (named.moved base) isEqual (derived.moved base)

theorem CriteriaSpell.moved {ts : List Token} {found : List Criterion} (spelled : CriteriaSpell ts found) :
    CriteriaSpell (ts.map (movedTo base)) found := by
  induction spelled with
  | last first => exact .last (first.moved base)
  | next first isAmpersand _ ih =>
    rw [List.map_append]
    exact .next (first.moved base) isAmpersand ih

end

/-- Criteria with an `&` between them are criteria. -/
theorem CriteriaSpell.append {ts us : List Token} {found others : List Criterion} {ampersand : Token}
    (first : CriteriaSpell ts found) (isAmpersand : ampersand.kind = .ampersand)
    (second : CriteriaSpell us others) : CriteriaSpell (ts ++ ampersand :: us) (found ++ others) := by
  induction first with
  | last criterion => exact .next criterion isAmpersand second
  | next criterion isAmpersand' _ ih =>
    rw [List.append_assoc, List.cons_append]
    exact .next criterion isAmpersand' ih

theorem stands_mark {c : Char} {kind : Kind} (marks : Kind.ofChar c = kind) (noQuote : kind ≠ .doubleQuote)
    (noOther : kind ≠ .other) : Stands [c] (IsMark kind) :=
  (scans_mark marks noQuote noOther).stands

namespace Expression

/-- A text that is an expression by itself is one wherever it stands. -/
theorem read_eq_ok_iff_stands {text : String} {e : Expression} :
    Expression.read text = .ok e ↔ Stands text.toList (Derives (.chain .alternatives) · e) :=
  read_eq_ok_iff_derives.trans
    (Token.stands_iff fun base ts (derived : Derives _ ts e) => derived.moved base).symm

/-- Whatever characters hold, they cannot get out of brackets put around them. -/
theorem stands_group {cs : List Char} {e : Expression}
    (inner : Stands cs (Derives (.chain .alternatives) · e)) :
    Stands ('(' :: (cs ++ [')'])) (Derives .unary · (.group e)) := by
  have opening : Stands ['('] (IsMark .leftParenthesis) := stands_mark rfl nofun nofun
  have closing : Stands [')'] (IsMark .rightParenthesis) := stands_mark rfl nofun nofun
  refine opening.append (inner.both closing) ?_
  rintro _ _ ⟨opening, rfl, opens⟩ ⟨ts, _, rfl, derived, closing, rfl, closes⟩
  exact .group opens derived closes

/-- A condition stands behind a `!`. -/
theorem stands_not {cs : List Char} {e : Expression} (inner : Stands cs (Derives .unary · e)) :
    Stands ('!' :: cs) (Derives .unary · (.not e)) := by
  have bang : Stands ['!'] (IsMark .bang) := stands_mark rfl nofun nofun
  refine bang.append inner ?_
  rintro _ ts ⟨bang, rfl, isBang⟩ derived
  exact .not isBang derived

/-- A condition is an expression that has no chains. -/
theorem read_of_stands {text : String} {e : Expression} (condition : Stands text.toList (Derives .unary · e)) :
    Expression.read text = .ok e :=
  read_eq_ok_iff_stands.mpr (condition.imp fun _ derived => .first (.first derived))

/-- An expression in brackets behind a `!` is its negation. -/
theorem read_negation {text : String} {e : Expression} (read : Expression.read text = .ok e) :
    Expression.read ("!(" ++ text ++ ")") = .ok (.not (.group e)) := by
  have chars : ("!(" ++ text ++ ")").toList = '!' :: '(' :: (text.toList ++ [')']) := by simp
  apply read_of_stands
  rw [chars]
  exact stands_not (stands_group (read_eq_ok_iff_stands.mp read))

end Expression

namespace Criterion

/-- A text that is a list of criteria by itself is one wherever it stands. -/
theorem readList_eq_ok_iff_stands {text : String} {found : List Criterion} :
    readList text = .ok found ↔ Stands text.toList (CriteriaSpell · found) := by
  refine readText_eq_ok.trans (.trans (and_congr_right fun _ => ⟨fun read => ?_, CriteriaSpell.read⟩)
    (Token.stands_iff fun base ts (spelled : CriteriaSpell ts found) => spelled.moved base).symm)
  obtain ⟨front, split, spelled⟩ := criteria_sound read
  rwa [split, List.append_nil]

/-- An `&` ends the criteria before it, and those behind it begin anew. -/
theorem readList_append {a b : String} {found others : List Criterion} (first : readList a = .ok found)
    (second : readList b = .ok others) : readList (a ++ "&" ++ b) = .ok (found ++ others) := by
  have chars : (a ++ "&" ++ b).toList = a.toList ++ '&' :: b.toList := by simp
  have ampersand : Stands ['&'] (IsMark .ampersand) := stands_mark rfl nofun nofun
  rw [readList_eq_ok_iff_stands] at first second ⊢
  rw [chars]
  refine first.append (ampersand.both second) ?_
  rintro ts _ spelled ⟨_, us, rfl, ⟨ampersand, rfl, isAmpersand⟩, spelled'⟩
  exact spelled.append isAmpersand spelled'

end Criterion

end Sift

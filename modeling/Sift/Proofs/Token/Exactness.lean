import Mathlib.Algebra.Ring.Parity
import Mathlib.Data.List.DropRight
import Sift.Proofs.Token.Written

namespace Sift

namespace Position

/-- The line goes on by one with every newline. -/
theorem line_foldl_advance (cs : List Char) (p : Position) :
    (cs.foldl advance p).line = p.line + cs.count '\n' := by
  induction cs generalizing p with
  | nil => rfl
  | cons c cs ih =>
    rw [List.foldl_cons, ih, List.count_cons]
    by_cases newline : c = '\n'
    · simp only [advance, newline, if_true, beq_self_eq_true]
      omega
    · simp only [advance, if_neg newline, beq_eq_false_iff_ne.mpr newline, Bool.false_eq_true, if_false]
      omega

/-- Columns begin anew after the last newline. -/
theorem column_foldl_advance (cs : List Char) :
    (cs.foldl advance start).column = 1 + (cs.rtakeWhile (· ≠ '\n')).length := by
  induction cs using List.reverseRecOn with
  | nil => rfl
  | append_singleton cs c ih =>
    rw [List.foldl_concat]
    by_cases newline : c = '\n'
    · rw [List.rtakeWhile_concat_neg _ _ _ (by simpa using newline), advance, if_pos newline]
      rfl
    · rw [List.rtakeWhile_concat_pos _ _ _ (by simpa using newline), advance, if_neg newline,
        List.length_append, List.length_singleton]
      simp only
      omega

end Position

namespace Kind

theorem classify_eq_doubleQuote_iff {quoted : Bool} {c : Char} :
    classify quoted c = doubleQuote ↔ c = '"' := by
  constructor
  · intro kind
    by_contra other
    exact classify_ne_doubleQuote other quoted kind
  · rintro rfl
    cases quoted <;> rfl

theorem isStructural_classify_quoted (c : Char) : (classify true c).isStructural = false := by
  by_cases structural : (ofChar c).isStructural = true
  · simp only [classify, structural, Bool.and_self, if_true]
    rfl
  · simp only [classify, structural, Bool.and_false, Bool.false_eq_true, if_false]

end Kind

namespace Token

/-- How many quotes there are in tokens. -/
def quotesIn (ts : List Token) : Nat :=
  ts.countP (·.kind == .doubleQuote)

/-- Every quote among some tokens opens a quoted part of the text or closes one. -/
theorem quotedAfter_iff_odd (ts : List Token) : quotedAfter false ts = true ↔ Odd (quotesIn ts) := by
  induction ts using List.reverseRecOn with
  | nil => simp [quotesIn, quotedAfter]
  | append_singleton ts t ih =>
    have last : quotedAfter false (ts ++ [t]) = (quotedAfter false ts != (t.kind == .doubleQuote)) :=
      quotedAfter_append false ts [t]
    have more : quotesIn (ts ++ [t]) = quotesIn ts + if t.kind == .doubleQuote then 1 else 0 := by
      rw [quotesIn, List.countP_append, List.countP_singleton]
      rfl
    rw [last, more]
    by_cases quote : t.kind = .doubleQuote
    · rw [if_pos (beq_iff_eq.mpr quote), Nat.odd_add_one, ← ih, quote]
      cases quotedAfter false ts <;> simp
    · have other : (t.kind == .doubleQuote) = false := beq_eq_false_iff_ne.mpr quote
      rw [other, Bool.bne_false]
      exact ih

/-- The ways in which a token is cut off the front of a text, inside quotes or outside, from the
characters that are left. -/
inductive Cut (quoted : Bool) (rest : List Char) : Token → Prop
  | escape {c position} : c ∈ reserved → Cut quoted rest ⟨.escaped, c, true, position⟩
  | single {c position} : (c = '\\' → ∀ next ∈ rest.head?, next ∉ reserved) →
      Cut quoted rest ⟨.classify quoted c, c, false, position⟩

/-- One token is cut off, and the others are cut from what is left behind it. -/
theorem scanFrom_eq_cons {position : Position} {quoted : Bool} {cs : List Char} {t : Token}
    {ts : List Token} (tokens : scanFrom position quoted cs = t :: ts) :
    ∃ rest, t.position = position ∧ Cut quoted rest t ∧
      ts = scanFrom t.after (quoted != (t.kind == .doubleQuote)) rest := by
  revert tokens
  fun_cases scanFrom position quoted cs with
  | case1 => exact nofun
  | case2 c cs special first =>
    intro tokens
    obtain ⟨same, rfl⟩ := List.cons.inj tokens
    subst same
    have noQuote : first.kind ≠ .doubleQuote := nofun
    refine ⟨cs, rfl, .escape special, ?_⟩
    rw [beq_eq_false_iff_ne.mpr noQuote, Bool.bne_false]
  | case3 c cs plain first =>
    intro tokens
    obtain ⟨same, rfl⟩ := List.cons.inj tokens
    subst same
    have noQuote : first.kind ≠ .doubleQuote := Kind.classify_ne_doubleQuote (by decide) quoted
    refine ⟨c :: cs, rfl, .single fun _ next atFront => ?_, ?_⟩
    · rw [List.head?_cons, Option.mem_some_iff] at atFront
      rwa [← atFront]
    · rw [beq_eq_false_iff_ne.mpr noQuote, Bool.bne_false]
  | case4 c cs whole first =>
    intro tokens
    obtain ⟨same, rfl⟩ := List.cons.inj tokens
    subst same
    refine ⟨cs, rfl, .single fun backslash next atFront => ?_, rfl⟩
    obtain ⟨others, rfl⟩ := List.head?_eq_some_iff.mp atFront
    exact absurd rfl (whole next others backslash)

/-- Where a token stands among the tokens of a text, and what it was cut from. -/
theorem scanFrom_split {position : Position} {quoted : Bool} {cs : List Char} {before : List Token}
    {t : Token} {after : List Token} (split : scanFrom position quoted cs = before ++ t :: after) :
    t.position = (before.flatMap written).foldl Position.advance position ∧
      Cut (quotedAfter quoted before) (after.flatMap written) t := by
  induction before generalizing position quoted cs with
  | nil =>
    obtain ⟨rest, place, cut, rfl⟩ := scanFrom_eq_cons split
    rw [scanFrom_written]
    exact ⟨place, cut⟩
  | cons first before ih =>
    obtain ⟨rest, place, -, further⟩ := scanFrom_eq_cons split
    obtain ⟨place', cut⟩ := ih further.symm
    rw [List.flatMap_cons, List.foldl_append, ← place, quotedAfter_cons]
    exact ⟨place', cut⟩

/-- What a token tells of the text between the tokens before it and those after it. -/
structure IsExact (before : List Token) (t : Token) (after : List Token) : Prop where
  line : t.position.line = 1 + (before.flatMap written).count '\n'
  column : t.position.column = 1 + ((before.flatMap written).rtakeWhile (· ≠ '\n')).length
  written : (∃ c, t.written = [c]) ∨ ∃ c ∈ reserved, t.written = ['\\', c] ∧ t.kind = .escaped
  /-- A backslash by itself has nothing after it that it could escape. -/
  alone : t.written = ['\\'] → ∀ next ∈ (after.flatMap Token.written).head?, next ∉ reserved
  quote : t.kind = .doubleQuote ↔ t.written = ['"']
  /-- Between quotes what has a structure elsewhere stands for itself. -/
  inside : Odd (quotesIn before) → t.kind.isStructural = false ∧ ∀ c, t.written = [c] →
    t.kind = if (Kind.ofChar c).isStructural then .escaped else Kind.ofChar c
  outside : Even (quotesIn before) → ∀ c, t.written = [c] → t.kind = Kind.ofChar c

/-- A token is one character, or a backslash and a reserved one. -/
theorem Cut.written {quoted : Bool} {rest : List Char} {t : Token} (cut : Cut quoted rest t) :
    (∃ c, t.written = [c]) ∨ ∃ c ∈ reserved, t.written = ['\\', c] ∧ t.kind = .escaped := by
  cases cut with
  | @escape c _ special => exact .inr ⟨c, special, rfl, rfl⟩
  | @single c _ free => exact .inl ⟨c, rfl⟩

/-- A backslash alone is followed by nothing that it could escape. -/
theorem Cut.alone {quoted : Bool} {rest : List Char} {t : Token} (cut : Cut quoted rest t)
    (backslash : t.written = ['\\']) : ∀ next ∈ rest.head?, next ∉ reserved := by
  cases cut with
  | escape special => cases backslash
  | single free => exact free (List.cons.inj backslash).1

theorem Cut.quote_iff {quoted : Bool} {rest : List Char} {t : Token} (cut : Cut quoted rest t) :
    t.kind = .doubleQuote ↔ t.written = ['"'] := by
  cases cut with
  | escape special => exact ⟨nofun, nofun⟩
  | @single c _ free =>
    refine Kind.classify_eq_doubleQuote_iff.trans ⟨?_, fun same => (List.cons.inj same).1⟩
    rintro rfl
    rfl

/-- The kind of a single character depends on it and on whether quotes are open. -/
theorem Cut.kind {quoted : Bool} {rest : List Char} {t : Token} (cut : Cut quoted rest t) {c : Char}
    (single : t.written = [c]) : t.kind = .classify quoted c := by
  cases cut with
  | escape special => cases single
  | single free => rw [← (List.cons.inj single).1]

theorem Cut.isStructural {rest : List Char} {t : Token} (cut : Cut true rest t) :
    t.kind.isStructural = false := by
  cases cut with
  | escape special => rfl
  | @single c _ free => exact Kind.isStructural_classify_quoted c

/-- Every token is what the text around it makes of it. -/
theorem isExact_of_split {text : String} {before : List Token} {t : Token} {after : List Token}
    (split : scan text = before ++ t :: after) : IsExact before t after := by
  obtain ⟨place, cut⟩ := scanFrom_split split
  have quotes := quotedAfter_iff_odd before
  refine ⟨?_, ?_, cut.written, cut.alone, cut.quote_iff, fun odd => ?_, fun even c single => ?_⟩
  · rw [place, Position.line_foldl_advance]
    rfl
  · rw [place, Position.column_foldl_advance]
  · rw [quotes.mpr odd] at cut
    refine ⟨cut.isStructural, fun c single => ?_⟩
    rw [cut.kind single, Kind.classify, Bool.true_and]
  · have outside : quotedAfter false before = false := by
      rwa [← Bool.not_eq_true, quotes, Nat.not_odd_iff_even]
    rw [outside] at cut
    exact cut.kind single

/-- Cutting a text into tokens loses none of it, and every token tells where it stands and what it is. -/
theorem scan_exact (text : String) :
    String.join ((scan text).map Token.text) = text ∧
      ∀ before t after, scan text = before ++ t :: after → IsExact before t after := by
  refine ⟨?_, fun before t after split => isExact_of_split split⟩
  apply String.toList_inj.mp
  rw [String.toList_join, List.flatMap_map]
  simpa only [Token.text, String.toList_ofList] using scan_written text

/-- A quote behind a backslash ends no quoted part, so the bar after it has no meaning. -/
theorem scan_exact_escaped_quote :
    scan "\"\\\"|" = [⟨.doubleQuote, '"', false, ⟨1, 1⟩⟩, ⟨.escaped, '"', true, ⟨1, 2⟩⟩] ++
        [⟨.escaped, '|', false, ⟨1, 4⟩⟩] ∧
      IsExact [⟨.doubleQuote, '"', false, ⟨1, 1⟩⟩, ⟨.escaped, '"', true, ⟨1, 2⟩⟩]
        ⟨.escaped, '|', false, ⟨1, 4⟩⟩ [] :=
  ⟨by decide, (scan_exact "\"\\\"|").2 _ _ _ (by decide)⟩

end Token

end Sift

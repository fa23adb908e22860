import Sift.Expression
import Sift.Grammar.BracketClass

namespace Sift

/-- A part of a text: characters that stand for themselves, or a choice of one character. -/
inductive Segment where
  | literal (cs : List Char)
  | choice (members : List Char)
  deriving DecidableEq, Repr

/-- A part of a term. -/
inductive Atom where
  | star
  | segment (segment : Segment)
  deriving DecidableEq, Repr

/-- A quoted part behind its opening quote. Everything up to the next quote stands for itself. -/
def quoted : List Token → Step (List Char)
  | [] => .missing .closingQuote []
  | t :: ts =>
    if t.kind = .doubleQuote then .ok ([], ts)
    else (quoted ts).cons t.char

theorem quoted_shorter {ts : List Token} {cs : List Char} {rest : List Token}
    (read : quoted ts = .ok (cs, rest)) : rest.length < ts.length := by
  induction ts generalizing cs with
  | nil => cases read
  | cons t ts ih =>
    simp only [quoted] at read
    split at read
    · cases read
      exact Nat.lt_succ_self _
    · obtain ⟨others, inner, -⟩ := Step.cons_eq_ok.mp read
      exact Nat.lt_succ_of_lt (ih inner)

/-- The parts of a term, up to what cannot be one. -/
def atoms : List Token → Step (List Atom)
  | [] => .ok ([], [])
  | t :: ts =>
    if t.kind = .asterisk then
      (atoms ts).cons .star
    else if t.kind = .leftBracket then
      match _read : bracketClass ts with
      | .error failure => .error failure
      | .ok (members, after) =>
        (atoms after).cons (.segment (.choice members))
    else if t.kind = .doubleQuote then
      match _read : quoted ts with
      | .error failure => .error failure
      | .ok (cs, after) =>
        (atoms after).cons (.segment (.literal cs))
    else if t.kind.isLiteral then
      (atoms ts).cons (.segment (.literal [t.char]))
    else .ok ([], t :: ts)
termination_by ts => ts.length
decreasing_by
  · exact Nat.lt_succ_self _
  · exact Nat.lt_succ_of_lt (classMembers_shorter ‹_›)
  · exact Nat.lt_succ_of_lt (quoted_shorter ‹_›)
  · exact Nat.lt_succ_self _

theorem atoms_length {ts : List Token} {parts : List Atom} {rest : List Token}
    (read : atoms ts = .ok (parts, rest)) : parts.length + rest.length ≤ ts.length := by
  fun_induction atoms ts generalizing parts rest with
  | case1 =>
    cases read
    exact Nat.le_refl _
  | case2 t ts _ ih =>
    obtain ⟨others, inner, rfl⟩ := Step.cons_eq_ok.mp read
    have := ih inner
    simp only [List.length_cons]
    omega
  | case3 => cases read
  | case4 t ts _ _ _ _ closed ih =>
    obtain ⟨others, inner, rfl⟩ := Step.cons_eq_ok.mp read
    have := ih inner
    have := classMembers_shorter closed
    simp only [List.length_cons]
    omega
  | case5 => cases read
  | case6 t ts _ _ _ _ _ closed ih =>
    obtain ⟨others, inner, rfl⟩ := Step.cons_eq_ok.mp read
    have := ih inner
    have := quoted_shorter closed
    simp only [List.length_cons]
    omega
  | case7 t ts _ _ _ _ ih =>
    obtain ⟨others, inner, rfl⟩ := Step.cons_eq_ok.mp read
    have := ih inner
    simp only [List.length_cons]
    omega
  | case8 =>
    cases read
    exact Nat.le_of_eq (Nat.zero_add _)

/-- The text before the first star, and the texts after each star. -/
def splitAtStars : List Atom → List Segment × List (List Segment)
  | [] => ([], [])
  | .star :: rest =>
    let (first, others) := splitAtStars rest
    ([], first :: others)
  | .segment segment :: rest =>
    let (first, others) := splitAtStars rest
    (segment :: first, others)

/-- The texts before, between and after the stars, one more than there are stars. -/
def textsBetweenStars (parts : List Atom) : List (List Segment) :=
  (splitAtStars parts).1 :: (splitAtStars parts).2

/-- The condition that a text stands for, given what comes before it: the first choice in it
becomes one variant per character, each of which takes the choices after it in the same way. -/
def expandFrom (build : String → Expression) (before : List Char) : List Segment → Expression
  | [] => build (String.ofList before)
  | .literal cs :: rest => expandFrom build (before ++ cs) rest
  | .choice members :: rest =>
    .oneOf (members.map fun c => expandFrom build (before ++ [c]) rest)

/-- The condition that a text stands for, with every class in it expanded. -/
def expand (build : String → Expression) (segments : List Segment) : Expression :=
  expandFrom build [] segments

/-- The condition that the places of the stars ask for, if they have a meaning. -/
def starLayout? : List (List Segment) → Option Expression
  | [[], []] => some .anything
  | [text] => some (expand .constant text)
  | [text, []] => some (expand .startsWith text)
  | [[], text] => some (expand .endsWith text)
  | [before, after] => some (.and (expand .startsWith before) (expand .endsWith after))
  | [[], part :: parts, []] => some (expand .contains (part :: parts))
  | _ => none

/-- A term: at least one part, and stars in places that have a meaning. The stars decide how the text is
compared, and every class in it stands for one condition per character. -/
def term (ts : List Token) : Step Expression :=
  match atoms ts with
  | .error failure => .error failure
  | .ok ([], _) => .missing .value ts
  | .ok (parts, rest) =>
    match starLayout? (textsBetweenStars parts) with
    | some expression => .ok (expression, rest)
    | none => .missing .wildcardPattern ts

theorem term_shorter {ts : List Token} {expression : Expression} {rest : List Token}
    (read : term ts = .ok (expression, rest)) : rest.length < ts.length := by
  unfold term at read
  split at read
  · cases read
  · cases read
  · rename_i parts left some_ parsed
    have := atoms_length parsed
    split at read
    · cases read
      cases parts with
      | nil => simp at some_
      | cons part others =>
        simp only [List.length_cons] at this
        omega
    · cases read

end Sift

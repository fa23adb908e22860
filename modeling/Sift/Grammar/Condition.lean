import Sift.Grammar.Interval
import Sift.Grammar.Term
import Sift.Parsed

namespace Sift

/-- What a rule gave, with the proof that it took a token. -/
def Step.parsed {α : Type} {ts : List Token} :
    (step : Step α) → (∀ {value rest}, step = .ok (value, rest) → rest.length < ts.length) →
      Except Failure (Parsed α ts)
  | .error failure, _ => .error failure
  | .ok (value, rest), shorter => .ok ⟨value, rest, shorter rfl⟩

/-- What may stand after an opening bracket: an interval, or a term that begins with a class. -/
def bracketed (bracket : Token) (ts : List Token) : Step Expression :=
  Step.orElse (interval ts) fun _ => term (bracket :: ts)

theorem bracketed_shorter {bracket : Token} {ts : List Token} {expression : Expression}
    {rest : List Token} (read : bracketed bracket ts = .ok (expression, rest)) :
    rest.length < (bracket :: ts).length := by
  simp only [bracketed, Step.orElse] at read
  split at read
  · rename_i inner
    cases read
    exact Nat.lt_succ_of_lt (interval_shorter inner)
  · split at read
    · cases read
    · split at read
      · rename_i inner
        cases read
        exact term_shorter inner
      · cases read

mutual

/-- Alternatives with `|` between them. -/
def disjunction (ts : List Token) : Except Failure (Parsed Expression ts) :=
  match conjunction ts with
  | .error failure => .error failure
  | .ok first =>
    (disjuncts first.value first.rest).map fun p =>
      ⟨p.1.1, p.1.2, Nat.lt_of_le_of_lt p.2 first.shorter⟩
termination_by 6 * ts.length + 5
decreasing_by
  · omega
  · have := first.shorter
    omega

def disjuncts (left : Expression) :
    (ts : List Token) → Except Failure { p : Expression × List Token // p.2.length ≤ ts.length }
  | [] => .ok ⟨(left, []), Nat.le_refl _⟩
  | t :: ts =>
    if t.kind = .bar then
      match conjunction ts with
      | .error failure => .error failure
      | .ok next =>
        (disjuncts (.or left next.value) next.rest).map fun p =>
          ⟨p.1, Nat.le_succ_of_le (Nat.le_of_lt (Nat.lt_of_le_of_lt p.2 next.shorter))⟩
    else .ok ⟨(left, t :: ts), Nat.le_refl _⟩
termination_by ts => 6 * ts.length + 4
decreasing_by
  · simp only [List.length_cons]
    omega
  · have := next.shorter
    simp only [List.length_cons]
    omega

/-- Conditions with `,` between them. -/
def conjunction (ts : List Token) : Except Failure (Parsed Expression ts) :=
  match negation ts with
  | .error failure => .error failure
  | .ok first =>
    (conjuncts first.value first.rest).map fun p =>
      ⟨p.1.1, p.1.2, Nat.lt_of_le_of_lt p.2 first.shorter⟩
termination_by 6 * ts.length + 3
decreasing_by
  · omega
  · have := first.shorter
    omega

def conjuncts (left : Expression) :
    (ts : List Token) → Except Failure { p : Expression × List Token // p.2.length ≤ ts.length }
  | [] => .ok ⟨(left, []), Nat.le_refl _⟩
  | t :: ts =>
    if t.kind = .comma then
      match negation ts with
      | .error failure => .error failure
      | .ok next =>
        (conjuncts (.and left next.value) next.rest).map fun p =>
          ⟨p.1, Nat.le_succ_of_le (Nat.le_of_lt (Nat.lt_of_le_of_lt p.2 next.shorter))⟩
    else .ok ⟨(left, t :: ts), Nat.le_refl _⟩
termination_by ts => 6 * ts.length + 2
decreasing_by
  · simp only [List.length_cons]
    omega
  · have := next.shorter
    simp only [List.length_cons]
    omega

/-- A condition, after any number of `!`. -/
def negation : (ts : List Token) → Except Failure (Parsed Expression ts)
  | [] => .error (.missing .value [])
  | t :: ts =>
    if t.kind = .bang then
      (negation ts).map fun p => ⟨.not p.value, p.rest, Nat.lt_succ_of_lt p.shorter⟩
    else if t.kind = .leftParenthesis then
      match disjunction ts with
      | .error failure => .error failure
      | .ok inner =>
        match inner with
        | ⟨_, [], _⟩ => .error (.missing .closingParenthesis [])
        | ⟨value, close :: rest, shorter⟩ =>
          if close.kind = .rightParenthesis then
            .ok ⟨.group value, rest, Nat.lt_succ_of_lt (Nat.lt_of_succ_lt shorter)⟩
          else .error (.missing .closingParenthesis (close :: rest))
    else if t.kind = .leftBracket then
      Step.parsed (bracketed t ts) bracketed_shorter
    else Step.parsed (term (t :: ts)) term_shorter
termination_by ts => 6 * ts.length + 1
decreasing_by
  · simp only [List.length_cons]
    omega
  · simp only [List.length_cons]
    omega

end

/-- An expression: `|` between alternatives, `,` between conditions that all must hold, `!` before a condition
that must not, parentheses around a group. `|` binds loosest, and both chains lean to the left. -/
def expression (ts : List Token) : Step Expression :=
  (disjunction ts).map Parsed.out

theorem expression_shorter {ts : List Token} {value : Expression} {rest : List Token}
    (read : expression ts = .ok (value, rest)) : rest.length < ts.length := by
  unfold expression at read
  cases inner : disjunction ts with
  | error failure => simp [inner, Except.map] at read
  | ok p =>
    simp only [inner, Except.map, Parsed.out, Except.ok.injEq, Prod.mk.injEq] at read
    exact read.2 ▸ p.shorter

end Sift

import Sift.Calendar.Reader
import Sift.Expression
import Sift.Grammar.Failure
import Sift.Text.Numeric

namespace Sift

/-- The tokens of a bound that is not a star, up to white space or the closing bracket. -/
def boundTokens : List Token → Step (List Char)
  | [] => .ok ([], [])
  | t :: ts =>
    if t.kind = .whitespace ∨ t.kind = .rightBracket then .ok ([], t :: ts)
    else if t.kind.isMember then (boundTokens ts).cons t.char
    else .missing .intervalBound (t :: ts)

/-- The text of a bound. A star is a bound without text, and something must end it. -/
def boundText : List Token → Step (Option String)
  | ⟨.asterisk, _, _, _⟩ :: ts =>
    match ts with
    | t :: _ =>
      if t.kind = .whitespace ∨ t.kind = .rightBracket then .ok (none, ts)
      else .missing .endOfStar ts
    | [] => .missing .endOfStar ts
  | ts =>
    match boundTokens ts with
    | .error failure => .error failure
    | .ok ([], _) => .missing .intervalBound ts
    | .ok (cs, rest) => .ok (some (String.ofList cs), rest)

def whitespace (ts : List Token) : Step Unit :=
  let rest := ts.dropWhile (·.kind == .whitespace)
  if rest.length < ts.length then .ok ((), rest) else .missing .whitespace ts

/-- The letters `TO`. -/
def keywordTo : List Token → Step Unit
  | ⟨.letter, 'T', _, _⟩ :: ⟨.letter, 'O', _, _⟩ :: rest => .ok ((), rest)
  | ts => .missing .keywordTo ts

/-- Whether a bound is a word or a number: letters, digits, underscores and dots, after a minus
sign or not. -/
def isWord (text : String) : Bool :=
  let body :=
    match text.toList with
    | '-' :: cs => cs
    | cs => cs
  !body.isEmpty && body.all fun c => isAlphanumeric c || c == '_' || c == '.'

/-- The bound that a text stands for: a word, a date, a time, or both. The tokens are those that
the bound begins with. -/
def typedBound (start : List Token) : Option String → Except Failure Boundary
  | none => .ok .unbounded
  | some text =>
    if isWord text then .ok (.constant text)
    else
      match Date.read text with
      | .error fault => .error (.final .validDate (.calendar fault) start)
      | .ok (some date) => .ok (.date date)
      | .ok none =>
        match Time.read text with
        | .error fault => .error (.final .validTime (.calendar fault) start)
        | .ok (some time) => .ok (.time time)
        | .ok none =>
          match readDateTime text with
          | .error fault => .error (.final .validDateTime (.calendar fault) start)
          | .ok (some (date, time)) => .ok (.dateTime date time)
          | .ok none => .error (.missing .intervalBound start)

def closingBracket : List Token → Step Unit
  | ⟨.rightBracket, _, _, _⟩ :: rest => .ok ((), rest)
  | ts => .missing .closingBracket ts

/-- An interval behind its opening bracket, as in `[10 TO 20]` or `[* TO 2010-06-25]`. The bounds get their
types only after the whole interval has been read, so that what is no interval may still be a character class.
-/
def interval (minStart : List Token) : Except Failure (Expression × List Token) := do
  let (min, rest) ← boundText minStart
  let (_, rest) ← whitespace rest
  let (_, rest) ← keywordTo rest
  let (_, maxStart) ← whitespace rest
  let (max, rest) ← boundText maxStart
  let (_, rest) ← closingBracket rest
  let min ← typedBound minStart min
  let max ← typedBound maxStart max
  return (.interval min max, rest)

theorem boundTokens_length {ts : List Token} {cs : List Char} {rest : List Token}
    (read : boundTokens ts = .ok (cs, rest)) : rest.length ≤ ts.length := by
  induction ts generalizing cs with
  | nil =>
    cases read
    exact Nat.le_refl _
  | cons t ts ih =>
    simp only [boundTokens] at read
    split at read
    · cases read
      exact Nat.le_refl _
    · split at read
      · obtain ⟨others, inner, -⟩ := Step.cons_eq_ok.mp read
        exact Nat.le_succ_of_le (ih inner)
      · cases read

theorem boundText_length {ts : List Token} {text : Option String} {rest : List Token}
    (read : boundText ts = .ok (text, rest)) : rest.length ≤ ts.length := by
  unfold boundText at read
  split at read
  · split at read
    · split at read
      · cases read
        exact Nat.le_succ _
      · cases read
    · cases read
  · split at read
    · cases read
    · cases read
    · rename_i inner
      cases read
      exact boundTokens_length inner

theorem whitespace_shorter {ts : List Token} {done : Unit} {rest : List Token}
    (read : whitespace ts = .ok (done, rest)) : rest.length < ts.length := by
  simp only [whitespace] at read
  split at read
  · cases read
    assumption
  · cases read

theorem keywordTo_shorter {ts : List Token} {done : Unit} {rest : List Token}
    (read : keywordTo ts = .ok (done, rest)) : rest.length < ts.length := by
  unfold keywordTo at read
  split at read
  · cases read
    simp only [List.length_cons]
    omega
  · cases read

theorem closingBracket_shorter {ts : List Token} {done : Unit} {rest : List Token}
    (read : closingBracket ts = .ok (done, rest)) : rest.length < ts.length := by
  unfold closingBracket at read
  split at read
  · cases read
    exact Nat.lt_succ_self _
  · cases read

/-- An interval is read part by part, and then its bounds get their types. -/
theorem interval_eq_ok {ts : List Token} {expression : Expression} {rest : List Token} :
    interval ts = .ok (expression, rest) ↔
      ∃ minText maxText min max afterMin beforeTo afterTo maxStart afterMax,
        boundText ts = .ok (minText, afterMin) ∧
        whitespace afterMin = .ok ((), beforeTo) ∧
        keywordTo beforeTo = .ok ((), afterTo) ∧
        whitespace afterTo = .ok ((), maxStart) ∧
        boundText maxStart = .ok (maxText, afterMax) ∧
        closingBracket afterMax = .ok ((), rest) ∧
        typedBound ts minText = .ok min ∧
        typedBound maxStart maxText = .ok max ∧
        expression = .interval min max := by
  simp only [interval, bind, Except.bind, pure, Except.pure]
  constructor
  · intro read
    repeat' split at read
    all_goals cases read
    exact ⟨_, _, _, _, _, _, _, _, _, ‹_›, ‹_›, ‹_›, ‹_›, ‹_›, ‹_›, ‹_›, ‹_›, rfl⟩
  · rintro ⟨_, _, _, _, _, _, _, _, _, h₁, h₂, h₃, h₄, h₅, h₆, h₇, h₈, rfl⟩
    simp only [h₁, h₂, h₃, h₄, h₅, h₆, h₇, h₈]

theorem interval_shorter {ts : List Token} {expression : Expression} {rest : List Token}
    (read : interval ts = .ok (expression, rest)) : rest.length < ts.length := by
  obtain ⟨_, _, _, _, _, _, _, _, _, min, gap, keyword, gap', max, close, -⟩ :=
    interval_eq_ok.mp read
  have := boundText_length min
  have := whitespace_shorter gap
  have := keywordTo_shorter keyword
  have := whitespace_shorter gap'
  have := boundText_length max
  have := closingBracket_shorter close
  omega

end Sift

import Sift.Error
import Sift.Grammar.Condition

namespace Sift

/-- The name of a property: a letter or an underscore, then letters, digits and underscores. -/
def identifier : List Token → Step String
  | [] => .missing .propertyName []
  | t :: ts =>
    if t.kind.beginsName then
      .ok (String.ofList (((t :: ts).takeWhile (·.kind.inName)).map Token.char),
        (t :: ts).dropWhile (·.kind.inName))
    else .missing .propertyName (t :: ts)

theorem length_dropWhile_le {α : Type} (p : α → Bool) (xs : List α) :
    (xs.dropWhile p).length ≤ xs.length :=
  (List.dropWhile_sublist p).length_le

theorem identifier_shorter {ts : List Token} {name : String} {rest : List Token}
    (read : identifier ts = .ok (name, rest)) : rest.length < ts.length := by
  cases ts with
  | nil => cases read
  | cons t ts =>
    simp only [identifier] at read
    split at read
    · rename_i begins
      cases read
      simp only [List.dropWhile_cons, Kind.inName_of_beginsName begins, if_true, List.length_cons]
      exact Nat.lt_succ_of_le (length_dropWhile_le _ ts)
    · cases read

/-- The names of a path after the first one, each after a dot. -/
def furtherNames : List Token → Step (List String)
  | [] => .ok ([], [])
  | t :: ts =>
    if t.kind = .dot then
      match _read : identifier ts with
      | .error failure => .error failure
      | .ok (name, rest) => (furtherNames rest).cons name
    else .ok ([], t :: ts)
termination_by ts => ts.length
decreasing_by exact Nat.lt_succ_of_lt (identifier_shorter ‹_›)

theorem furtherNames_length {ts : List Token} {names : List String} {rest : List Token}
    (read : furtherNames ts = .ok (names, rest)) : rest.length ≤ ts.length := by
  fun_induction furtherNames ts generalizing names rest with
  | case1 =>
    cases read
    exact Nat.le_refl _
  | case2 => cases read
  | case3 t ts _ name left first ih =>
    obtain ⟨others, inner, rfl⟩ := Step.cons_eq_ok.mp read
    have := ih inner
    have := identifier_shorter first
    simp only [List.length_cons]
    omega
  | case4 =>
    cases read
    exact Nat.le_refl _

/-- A property path: names with dots between. -/
def propertyPath (ts : List Token) : Step PropertyPath :=
  match identifier ts with
  | .error failure => .error failure
  | .ok (first, rest) => (furtherNames rest).map fun (others, rest) => (⟨first :: others⟩, rest)

/-- A path is read name by name. -/
theorem propertyPath_eq_ok {ts : List Token} {path : PropertyPath} {rest : List Token} :
    propertyPath ts = .ok (path, rest) ↔
      ∃ first others between, identifier ts = .ok (first, between) ∧
        furtherNames between = .ok (others, rest) ∧ path = ⟨first :: others⟩ := by
  unfold propertyPath
  cases identifier ts with
  | error failure => simp
  | ok result =>
    obtain ⟨first, between⟩ := result
    cases others : furtherNames between with
    | error failure => simp_all [Except.map]
    | ok result =>
      simp only [others, Except.map, Except.ok.injEq, Prod.mk.injEq]
      constructor
      · rintro ⟨rfl, rfl⟩
        exact ⟨first, result.1, between, ⟨rfl, rfl⟩, others, rfl⟩
      · rintro ⟨_, _, _, ⟨rfl, rfl⟩, inner, rfl⟩
        cases others.symm.trans inner
        exact ⟨rfl, rfl⟩

/-- One criterion: a path, `=` and an expression. -/
def criterion (ts : List Token) : Step Criterion :=
  match propertyPath ts with
  | .error failure => .error failure
  | .ok (_, []) => .missing .equalSign []
  | .ok (path, t :: rest) =>
    if t.kind = .equal then
      (expression rest).map fun (value, rest) => (⟨path, value⟩, rest)
    else .missing .equalSign (t :: rest)

theorem criterion_shorter {ts : List Token} {found : Criterion} {rest : List Token}
    (read : criterion ts = .ok (found, rest)) : rest.length < ts.length := by
  unfold criterion at read
  split at read
  · cases read
  · cases read
  · rename_i path t after inner
    obtain ⟨first, others, between, name, names, -⟩ := propertyPath_eq_ok.mp inner
    have := identifier_shorter name
    have := furtherNames_length names
    split at read
    · cases value : expression after with
      | error failure => simp [value, Except.map] at read
      | ok result =>
        obtain ⟨found, left⟩ := result
        simp only [value, Except.map, Except.ok.injEq, Prod.mk.injEq] at read
        obtain ⟨-, rfl⟩ := read
        have := expression_shorter value
        simp only [List.length_cons] at *
        omega
    · cases read

/-- The criteria after the first one, each after `&`. -/
def furtherCriteria : List Token → Step (List Criterion)
  | [] => .ok ([], [])
  | t :: ts =>
    if t.kind = .ampersand then
      match _read : criterion ts with
      | .error failure => .error failure
      | .ok (next, rest) => (furtherCriteria rest).cons next
    else .ok ([], t :: ts)
termination_by ts => ts.length
decreasing_by exact Nat.lt_succ_of_lt (criterion_shorter ‹_›)

/-- Criteria with `&` between them. -/
def criteria (ts : List Token) : Step (List Criterion) :=
  match criterion ts with
  | .error failure => .error failure
  | .ok (first, rest) => (furtherCriteria rest).cons first

namespace Failure

/-- The error that a failure is in a text of these tokens. -/
def toError (failure : Failure) (tokens : List Token) : QueryError :=
  match failure.rest with
  | [] => .unexpected (Token.endPosition tokens) failure.expected (failure.found.getD .endOfInput)
  | t :: _ => .unexpected t.position failure.expected (failure.found.getD (.token t))

end Failure

/-- What a rule reads in tokens as a whole. What is left over is an error. -/
def readAll {α : Type} (rule : List Token → Step α) (trailing : Expected) (tokens : List Token) :
    Except QueryError α :=
  match rule tokens with
  | .error failure => .error (failure.toError tokens)
  | .ok (value, []) => .ok value
  | .ok (_, t :: rest) => .error ((Failure.missing trailing (t :: rest)).toError tokens)

/-- A text read by a rule as a whole, once its tokens are known to be readable in one way only. -/
def readText {α : Type} (rule : List Token → Step α) (trailing : Expected) (text : String) :
    Except QueryError α :=
  let tokens := Token.scan text
  match Token.ambiguity? tokens with
  | some (ambiguity, position) => .error (.lexical position ambiguity)
  | none => readAll rule trailing tokens

/-- The criteria of a query. -/
def Criterion.readList (text : String) : Except QueryError (List Criterion) :=
  readText criteria .endOfCriterion text

def Expression.read (text : String) : Except QueryError Expression :=
  readText expression .endOfInput text

def PropertyPath.read (text : String) : Except QueryError PropertyPath :=
  readText propertyPath .endOfPath text

end Sift

import Sift.Proofs.Grammar.Derivation

namespace Sift

/-- The reader of a chain, and what it does after some operands. -/
def Chain.resume : Chain → Expression → List Token → Step Expression
  | alternatives, left, ts => (disjuncts left ts).map Subtype.val
  | conditions, left, ts => (conjuncts left ts).map Subtype.val

/-- The reader of a layer. -/
def Layer.read : Layer → List Token → Step Expression
  | chain .alternatives, ts => expression ts
  | chain .conditions, ts => (conjunction ts).map Parsed.out
  | unary, ts => (negation ts).map Parsed.out

/-- A chain is read operand by operand, and both kinds of chains in the same way. -/
theorem Layer.read_chain (c : Chain) (ts : List Token) :
    (chain c).read ts = (c.operands.read ts).bind fun (first, rest) => c.resume first rest := by
  cases c with
  | alternatives =>
    simp only [read, expression, Chain.operands, Chain.resume]
    rw [disjunction]
    cases conjunction ts with
    | error failure => rfl
    | ok first =>
      simp only [Except.map, Except.bind, Parsed.out]
      cases disjuncts first.value first.rest <;> rfl
  | conditions =>
    simp only [read, Chain.operands, Chain.resume]
    rw [conjunction]
    cases negation ts with
    | error failure => rfl
    | ok first =>
      simp only [Except.map, Except.bind, Parsed.out]
      cases conjuncts first.value first.rest <;> rfl

theorem Chain.resume_nil (c : Chain) (left : Expression) : c.resume left [] = .ok (left, []) := by
  cases c with
  | alternatives => rw [resume, disjuncts]; rfl
  | conditions => rw [resume, conjuncts]; rfl

/-- A chain ends at what does not separate operands. -/
theorem Chain.resume_stop (c : Chain) (left : Expression) {t : Token} (other : t.kind ≠ c.separator)
    (ts : List Token) : c.resume left (t :: ts) = .ok (left, t :: ts) := by
  cases c with
  | alternatives =>
    have noBar : t.kind ≠ .bar := other
    rw [resume, disjuncts, if_neg noBar]
    rfl
  | conditions =>
    have noComma : t.kind ≠ .comma := other
    rw [resume, conjuncts, if_neg noComma]
    rfl

/-- Behind a separator comes another operand, and the chain leans to the left. -/
theorem Chain.resume_separator (c : Chain) (left : Expression) {t : Token}
    (separates : t.kind = c.separator) (ts : List Token) :
    c.resume left (t :: ts) =
      (c.operands.read ts).bind fun (next, rest) => c.resume (c.join left next) rest := by
  cases c with
  | alternatives =>
    have bar : t.kind = .bar := separates
    simp only [resume, operands, Layer.read, join]
    rw [disjuncts, if_pos bar]
    cases conjunction ts with
    | error failure => rfl
    | ok next =>
      simp only [Except.map, Except.bind, Parsed.out]
      cases disjuncts (left.or next.value) next.rest <;> rfl
  | conditions =>
    have comma : t.kind = .comma := separates
    simp only [resume, operands, Layer.read, join]
    rw [conjuncts, if_pos comma]
    cases negation ts with
    | error failure => rfl
    | ok next =>
      simp only [Except.map, Except.bind, Parsed.out]
      cases conjuncts (left.and next.value) next.rest <;> rfl

namespace Layer

theorem read_nil : unary.read [] = Step.missing .value [] := by
  rw [read, negation]
  rfl

theorem read_bang {t : Token} (bang : t.kind = .bang) (ts : List Token) :
    unary.read (t :: ts) = (unary.read ts).map fun (e, rest) => (.not e, rest) := by
  simp only [read]
  rw [negation, if_pos bang]
  cases negation ts <;> rfl

theorem read_group {t : Token} (opens : t.kind = .leftParenthesis) (ts : List Token) :
    unary.read (t :: ts) = (read (.chain .alternatives) ts).bind fun (e, rest) =>
      match rest with
      | [] => Step.missing .closingParenthesis []
      | closing :: rest =>
        if closing.kind = .rightParenthesis then .ok (.group e, rest)
        else Step.missing .closingParenthesis (closing :: rest) := by
  simp only [read, expression]
  rw [negation, if_neg (by simp [opens]), if_pos opens]
  cases disjunction ts with
  | error failure => rfl
  | ok inner =>
    obtain ⟨e, _ | ⟨closing, rest⟩, shorter⟩ := inner
    · rfl
    · by_cases closes : closing.kind = .rightParenthesis <;>
        simp [Except.map, Except.bind, Parsed.out, Step.missing, closes]

theorem parsed_out {ts : List Token} (step : Step Expression)
    (shorter : ∀ {value rest}, step = .ok (value, rest) → rest.length < ts.length) :
    (Step.parsed step shorter).map Parsed.out = step := by
  cases step <;> rfl

theorem read_bracket {t : Token} (opens : t.kind = .leftBracket) (ts : List Token) :
    unary.read (t :: ts) = bracketed t ts := by
  simp only [read]
  rw [negation, if_neg (by simp [opens]), if_neg (by simp [opens]), if_pos opens, parsed_out]

/-- What begins in no other way is a term. -/
theorem read_term {t : Token} (bang : t.kind ≠ .bang) (parenthesis : t.kind ≠ .leftParenthesis)
    (bracket : t.kind ≠ .leftBracket) (ts : List Token) : unary.read (t :: ts) = term (t :: ts) := by
  simp only [read]
  rw [negation, if_neg bang, if_neg parenthesis, if_neg bracket]
  exact parsed_out _ term_shorter

theorem shorter_of_out {ts : List Token} {parsed : Except Failure (Parsed Expression ts)} {e : Expression}
    {rest : List Token} (read : parsed.map Parsed.out = .ok (e, rest)) : rest.length < ts.length := by
  cases parsed with
  | error failure => cases read
  | ok p =>
    cases read
    exact p.shorter

/-- Every layer takes a token at least. -/
theorem read_shorter {layer : Layer} {ts : List Token} {e : Expression} {rest : List Token}
    (read : layer.read ts = .ok (e, rest)) : rest.length < ts.length := by
  cases layer with
  | unary => exact shorter_of_out read
  | chain c =>
    cases c with
    | alternatives => exact expression_shorter read
    | conditions => exact shorter_of_out read

/-- Induction on the tokens as the layers use them up: a chain reads its operands from no more tokens than it has
itself, and a single condition reads any layer from fewer. -/
theorem strong_induction {motive : Layer → List Token → Prop}
    (unary : ∀ ts, (∀ us, us.length < ts.length → ∀ layer, motive layer us) → motive .unary ts)
    (chain : ∀ c ts, (∀ us, us.length ≤ ts.length → motive c.operands us) → motive (.chain c) ts)
    (layer : Layer) (ts : List Token) : motive layer ts := by
  induction length : ts.length using Nat.strongRecOn generalizing ts layer with
  | ind n ih =>
    subst length
    have unaries : ∀ us : List Token, us.length ≤ ts.length → motive .unary us := fun us within =>
      unary us fun vs shorter layer => ih vs.length (by omega) layer vs rfl
    have conditions : ∀ us : List Token, us.length ≤ ts.length → motive (.chain .conditions) us := fun us within =>
      chain .conditions us fun vs shorter => unaries vs (by omega)
    cases layer with
    | unary => exact unaries ts (Nat.le_refl _)
    | chain c =>
      cases c with
      | conditions => exact conditions ts (Nat.le_refl _)
      | alternatives => exact chain .alternatives ts conditions

end Layer

/-- Induction on the tokens as a chain goes on: it stops, or joins another operand to what it has. -/
theorem Chain.resume_induction (c : Chain) {motive : Expression → List Token → Prop}
    (stop : ∀ left ts, c.resume left ts = .ok (left, ts) → motive left ts)
    (next : ∀ left t ts, t.kind = c.separator →
      (∀ e rest, c.operands.read ts = .ok (e, rest) → motive (c.join left e) rest) → motive left (t :: ts))
    (left : Expression) (ts : List Token) : motive left ts := by
  induction length : ts.length using Nat.strongRecOn generalizing ts left with
  | ind n ih =>
    subst length
    cases ts with
    | nil => exact stop left [] (c.resume_nil left)
    | cons t ts =>
      by_cases separates : t.kind = c.separator
      · refine next left t ts separates fun e rest read => ih rest.length ?_ _ _ rfl
        exact Nat.lt_succ_of_lt (Layer.read_shorter read)
      · exact stop left (t :: ts) (c.resume_stop left separates ts)

end Sift

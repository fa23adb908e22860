import Sift.Proofs.Grammar.Interval
import Sift.Proofs.Grammar.Layers

namespace Sift

namespace Layer

/-- What is read on a layer is derived on it. -/
def SoundOn (layer : Layer) (ts : List Token) : Prop :=
  ∀ e rest, layer.read ts = .ok (e, rest) → ∃ front, ts = front ++ rest ∧ Derives layer front e

end Layer

/-- A rule after another one matches if both do. -/
theorem Step.bind_eq_ok {α β : Type} {step : Step α} {next : α × List Token → Step β}
    {result : β × List Token} :
    step.bind next = .ok result ↔ ∃ value rest, step = .ok (value, rest) ∧ next (value, rest) = .ok result := by
  match step with
  | .error failure => simp [Except.bind]
  | .ok (value, rest) => simp [Except.bind]

/-- A chain that goes on is derived if what it has so far is, and its operands are. The induction is on what is
left to go on with. -/
theorem Chain.resume_sound (c : Chain) {ts : List Token}
    (operands : ∀ us, us.length < ts.length → c.operands.SoundOn us) {before : List Token}
    {left : Expression} (derived : Derives (.chain c) before left) {e : Expression} {rest : List Token}
    (read : c.resume left ts = .ok (e, rest)) :
    ∃ front, ts = front ++ rest ∧ Derives (.chain c) (before ++ front) e := by
  induction left, ts using c.resume_induction generalizing before with
  | stop left ts stopped =>
    cases stopped.symm.trans read
    exact ⟨[], rfl, by rwa [List.append_nil]⟩
  | next left t ts separates ih =>
    rw [c.resume_separator left separates] at read
    obtain ⟨next, left', atNext, resumed⟩ := Step.bind_eq_ok.mp read
    have shorter := Layer.read_shorter atNext
    obtain ⟨us, rfl, nextDerived⟩ := operands ts (Nat.lt_succ_self _) _ _ atNext
    have later : ∀ vs : List Token, vs.length < left'.length → c.operands.SoundOn vs := fun vs within =>
      operands vs (Nat.lt_succ_of_lt (Nat.lt_trans within shorter))
    obtain ⟨front, rfl, whole⟩ := ih next left' atNext later (derived.next separates nextDerived) resumed
    exact ⟨t :: us ++ front, by simp, by simpa using whole⟩

/-- A chain is derived if its operands are. -/
theorem Chain.sound (c : Chain) {ts : List Token}
    (operands : ∀ us, us.length ≤ ts.length → c.operands.SoundOn us) : (Layer.chain c).SoundOn ts := by
  intro e rest read
  rw [Layer.read_chain] at read
  obtain ⟨first, left, atFirst, resumed⟩ := Step.bind_eq_ok.mp read
  obtain ⟨front, rfl, derived⟩ := operands ts (Nat.le_refl _) _ _ atFirst
  rw [List.length_append] at operands
  obtain ⟨more, rfl, whole⟩ :=
    c.resume_sound (fun us shorter => operands us (by omega)) derived.first resumed
  exact ⟨front ++ more, by simp, whole⟩

/-- Behind a bracket an interval or a term is derived. -/
theorem bracketed_sound {bracket : Token} (opens : bracket.kind = .leftBracket) {ts : List Token}
    {e : Expression} {rest : List Token} (read : bracketed bracket ts = .ok (e, rest)) :
    ∃ front, bracket :: ts = front ++ rest ∧ Derives .unary front e := by
  simp only [bracketed, Step.orElse] at read
  split at read
  · rename_i inner
    cases read
    obtain ⟨front, split, spelled⟩ := interval_sound opens inner
    exact ⟨front, split, .interval spelled⟩
  · split at read
    · cases read
    · split at read
      · rename_i inner
        cases read
        obtain ⟨front, split, spelled⟩ := term_sound inner
        exact ⟨front, split, .term spelled⟩
      · cases read

namespace Layer

/-- A condition is derived if all layers are on fewer tokens. -/
theorem unary_sound {ts : List Token} (shorter : ∀ us, us.length < ts.length → ∀ layer, SoundOn layer us) :
    unary.SoundOn ts := by
  intro e rest read
  cases ts with
  | nil =>
    rw [read_nil] at read
    cases read
  | cons t ts =>
    have inner := shorter ts (Nat.lt_succ_self _)
    by_cases bang : t.kind = .bang
    · rw [read_bang bang] at read
      cases negated : unary.read ts with
      | error failure => simp [negated, Except.map] at read
      | ok result =>
        rw [negated] at read
        cases read
        obtain ⟨front, rfl, derived⟩ := inner unary _ _ negated
        exact ⟨t :: front, rfl, .not bang derived⟩
    by_cases opens : t.kind = .leftParenthesis
    · rw [read_group opens] at read
      obtain ⟨e, left, grouped, closed⟩ := Step.bind_eq_ok.mp read
      obtain ⟨front, rfl, derived⟩ := inner (.chain .alternatives) _ _ grouped
      cases left with
      | nil => cases closed
      | cons closing left =>
        simp only at closed
        split at closed
        · rename_i closes
          cases closed
          exact ⟨t :: front ++ [closing], by simp, .group opens derived closes⟩
        · cases closed
    by_cases bracket : t.kind = .leftBracket
    · rw [read_bracket bracket] at read
      exact bracketed_sound bracket read
    · rw [read_term bang opens bracket] at read
      obtain ⟨front, split, spelled⟩ := term_sound read
      exact ⟨front, split, .term spelled⟩

/-- Whatever is read as an expression is derived as it, on every layer. The induction is on the number of
tokens. -/
theorem sound (ts : List Token) (layer : Layer) : SoundOn layer ts :=
  strong_induction (fun _ => unary_sound) (fun c _ => c.sound) layer ts

end Layer

end Sift

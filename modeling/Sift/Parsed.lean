namespace Sift

/-- A value read from the front of a list, and the shorter list after it. The proof that it is shorter is what
makes readers that call one another end. -/
structure Parsed {τ : Type} (α : Type) (input : List τ) where
  value : α
  rest : List τ
  shorter : rest.length < input.length

namespace Parsed

variable {τ α β : Type} {input : List τ}

def out (p : Parsed α input) : α × List τ :=
  (p.value, p.rest)

def map (f : α → β) (p : Parsed α input) : Parsed β input :=
  ⟨f p.value, p.rest, p.shorter⟩

def widen {longer : List τ} (p : Parsed α input) (wider : input.length ≤ longer.length) :
    Parsed α longer :=
  ⟨p.value, p.rest, Nat.lt_of_lt_of_le p.shorter wider⟩

end Parsed

end Sift

import Sift.Proofs.Token.Placement

namespace Sift

theorem Kind.eq_dot_of_ofChar {c : Char} (kind : ofChar c = dot) : c = '.' := by
  rcases ofChar_cases c with symbol | ⟨other, -⟩ | ⟨other, -⟩ | other | other
  · have each : symbols.all (fun s => s == '.' || ofChar s != dot) = true := by decide
    simpa [kind] using List.all_eq_true.mp each c symbol
  all_goals
    rw [kind] at other
    cases other

theorem Kind.ofChar_of_isBlank {c : Char} (blank : isBlank c = true) : ofChar c = whitespace := by
  have each : symbols.all (!isBlank ·) = true := by decide
  have plain : c ∉ symbols := fun symbol => by
    simpa [blank] using List.all_eq_true.mp each c symbol
  rw [ofChar_of_not_mem_symbols plain, if_pos blank]

/-- Quotes only make a character count as escaped. -/
theorem Kind.classify_cases (quoted : Bool) (c : Char) :
    classify quoted c = escaped ∨ classify quoted c = ofChar c := by
  by_cases structural : (quoted && (ofChar c).isStructural) = true
  · exact .inl (if_pos structural)
  · exact .inr (if_neg structural)

namespace Token

/-- To cut a text into tokens loses none of it. -/
theorem scanFrom_written (position : Position) (quoted : Bool) (cs : List Char) :
    (scanFrom position quoted cs).flatMap written = cs := by
  fun_induction scanFrom position quoted cs with
  | case1 => rfl
  | case2 position quoted c cs special t ih => rw [List.flatMap_cons, ih]; rfl
  | case3 position quoted c cs plain t ih => rw [List.flatMap_cons, ih]; rfl
  | case4 position quoted c cs whole t ih => rw [List.flatMap_cons, ih]; rfl

theorem scan_written (text : String) : (scan text).flatMap written = text.toList :=
  scanFrom_written .start false text.toList

/-- A token has the kind of its character unless it is an escaped one, and no other one is written with a
backslash. -/
theorem kind_of_mem_scanFrom (position : Position) (quoted : Bool) (cs : List Char) :
    ∀ t ∈ scanFrom position quoted cs, t.kind = .escaped ∨ t.kind = .ofChar t.char ∧ t.escapes = false := by
  fun_induction scanFrom position quoted cs with
  | case1 =>
    intro t member
    cases member
  | case2 position quoted c cs special t ih => exact List.forall_mem_cons.mpr ⟨.inl rfl, ih⟩
  | case3 position quoted c cs plain t ih =>
    exact List.forall_mem_cons.mpr ⟨(Kind.classify_cases quoted '\\').imp_right (⟨·, rfl⟩), ih⟩
  | case4 position quoted c cs whole t ih =>
    exact List.forall_mem_cons.mpr ⟨(Kind.classify_cases quoted c).imp_right (⟨·, rfl⟩), ih⟩

/-- How a token of a text may look: the backslash of an escaped character is no part of another token,
and a token that is a dot to the grammar is one. -/
structure IsPlain (t : Token) : Prop where
  escapes : t.escapes = true → t.kind = .escaped
  dot : t.kind = .dot → t.char = '.'

/-- Only escaped tokens are written with a backslash. -/
theorem isPlain_of_mem_scanFrom (position : Position) (quoted : Bool) (cs : List Char) :
    ∀ t ∈ scanFrom position quoted cs, t.IsPlain := by
  intro t member
  rcases kind_of_mem_scanFrom position quoted cs t member with escaped | ⟨kind, noBackslash⟩
  · refine ⟨fun _ => escaped, fun dot => ?_⟩
    rw [escaped] at dot
    cases dot
  · refine ⟨fun escapes => ?_, fun dot => Kind.eq_dot_of_ofChar (kind ▸ dot)⟩
    rw [noBackslash] at escapes
    cases escapes

theorem IsPlain.written {t : Token} (plain : t.IsPlain) (unescaped : t.kind ≠ .escaped) :
    t.written = [t.char] := by
  have noBackslash : t.escapes = false := Bool.eq_false_iff.mpr (mt plain.escapes unescaped)
  rw [Token.written, noBackslash]
  rfl

end Token

end Sift

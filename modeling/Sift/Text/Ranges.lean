namespace Sift

/-- Membership in a list of inclusive ranges in ascending order. The search stops at the first
range that begins above the value. -/
def inRanges (n : Nat) : List (Nat × Nat) → Bool
  | [] => false
  | (low, high) :: rest => low ≤ n && (n ≤ high || inRanges n rest)

/-- Membership is what the ranges say, given that no range begins below an earlier one: what lies
under one lower bound lies under all later ones. -/
theorem inRanges_iff {n : Nat} {ranges : List (Nat × Nat)}
    (ascending : ranges.Pairwise fun a b => a.1 ≤ b.1) :
    inRanges n ranges = true ↔ ∃ r ∈ ranges, r.1 ≤ n ∧ n ≤ r.2 := by
  induction ranges with
  | nil => simp [inRanges]
  | cons r rest ih =>
    obtain ⟨first, later⟩ := List.pairwise_cons.mp ascending
    have step := ih later
    simp only [inRanges, Bool.and_eq_true, Bool.or_eq_true, decide_eq_true_eq, List.mem_cons]
    constructor
    · rintro ⟨lower, upper | inside⟩
      · exact ⟨r, .inl rfl, lower, upper⟩
      · obtain ⟨s, member, bounds⟩ := step.mp inside
        exact ⟨s, .inr member, bounds⟩
    · rintro ⟨s, rfl | member, lower, upper⟩
      · exact ⟨lower, .inl upper⟩
      · exact ⟨Nat.le_trans (first s member) lower, .inr (step.mpr ⟨s, member, lower, upper⟩)⟩

end Sift

namespace Sift

/-- The piece before the first separator, and the pieces after it. -/
def firstPiece (sep : Char) : List Char → List Char × List (List Char)
  | [] => ([], [])
  | c :: cs =>
    let (first, others) := firstPiece sep cs
    if c = sep then ([], first :: others) else (c :: first, others)

/-- The pieces between separators, one more than there are separators. -/
def pieces (sep : Char) (cs : List Char) : List (List Char) :=
  (firstPiece sep cs).1 :: (firstPiece sep cs).2

/-- Pieces with a separator between them. -/
def joinWith (sep : List Char) : List (List Char) → List Char
  | [] => []
  | [piece] => piece
  | piece :: next :: others => piece ++ sep ++ joinWith sep (next :: others)

def joinTexts (sep : String) (texts : List String) : String :=
  String.ofList (joinWith sep.toList (texts.map String.toList))

theorem joinWith_cons_head (sep : List Char) (c : Char) (piece : List Char)
    (others : List (List Char)) :
    joinWith sep ((c :: piece) :: others) = c :: joinWith sep (piece :: others) := by
  cases others <;> simp [joinWith]

/-- Joining the pieces that a separator cuts gives the text back. -/
theorem joinWith_pieces (sep : Char) (cs : List Char) : joinWith [sep] (pieces sep cs) = cs := by
  induction cs with
  | nil => rfl
  | cons c cs ih =>
    simp only [pieces, firstPiece] at ih ⊢
    by_cases cut : c = sep
    · simp only [cut, if_true, joinWith, List.nil_append, List.singleton_append, ih]
    · simp only [cut, if_false, joinWith_cons_head, ih]

theorem not_mem_of_mem_pieces {sep : Char} {cs piece : List Char}
    (member : piece ∈ pieces sep cs) : sep ∉ piece := by
  induction cs generalizing piece with
  | nil => simp_all [pieces, firstPiece]
  | cons c cs ih =>
    simp only [pieces, firstPiece] at ih member
    by_cases cut : c = sep
    · simp only [cut, if_true, List.mem_cons] at member
      rcases member with rfl | member
      · exact List.not_mem_nil
      · exact ih (List.mem_cons.mpr member)
    · simp only [cut, if_false, List.mem_cons] at member
      rcases member with rfl | member
      · have clear := ih (List.mem_cons_self ..)
        simpa [Ne.symm cut] using clear
      · exact ih (List.mem_cons_of_mem _ member)

theorem pieces_of_not_mem {sep : Char} {cs : List Char} (clear : sep ∉ cs) : pieces sep cs = [cs] := by
  induction cs with
  | nil => rfl
  | cons c cs ih =>
    obtain ⟨other, clear⟩ := List.ne_and_not_mem_of_not_mem_cons clear
    have whole := ih clear
    simp only [pieces, List.cons.injEq] at whole
    simp only [pieces, firstPiece, if_neg (Ne.symm other), whole]

theorem pieces_append_separator {sep : Char} {piece : List Char} (clear : sep ∉ piece) (cs : List Char) :
    pieces sep (piece ++ sep :: cs) = piece :: pieces sep cs := by
  induction piece with
  | nil => simp [pieces, firstPiece]
  | cons c piece ih =>
    obtain ⟨other, clear⟩ := List.ne_and_not_mem_of_not_mem_cons clear
    have further := ih clear
    simp only [pieces, List.cons.injEq] at further
    simp only [pieces, List.cons_append, firstPiece, if_neg (Ne.symm other), further]

/-- Pieces without the separator in them are cut apart where they were joined. -/
theorem pieces_joinWith {sep : Char} {ps : List (List Char)} (nonempty : ps ≠ [])
    (clear : ∀ piece ∈ ps, sep ∉ piece) : pieces sep (joinWith [sep] ps) = ps := by
  induction ps with
  | nil => exact absurd rfl nonempty
  | cons piece others ih =>
    obtain ⟨first, further⟩ := List.forall_mem_cons.mp clear
    cases others with
    | nil => exact pieces_of_not_mem first
    | cons next others =>
      rw [joinWith, List.append_assoc, List.singleton_append, pieces_append_separator first,
        ih (List.cons_ne_nil _ _) further]

end Sift

import Mathlib.Data.List.Permutation
import Sift.Proofs.Grammar.Failures
import Sift.Proofs.Token.Exactness

namespace Sift

namespace Token

/-- The tokens of a text from an offset on. -/
def LeftAt (text : String) (k : Nat) (rest : List Token) : Prop :=
  ∃ before, scan text = before ++ rest ∧ (before.flatMap written).length = k

variable {text : String} {k : Nat} {rest : List Token}

theorem written_ne_nil (t : Token) : t.written ≠ [] := by
  unfold written
  split <;> exact List.cons_ne_nil _ _

/-- What is written before an offset is written with the tokens before it. -/
theorem take_of_split {before : List Token} (split : scan text = before ++ rest) :
    text.toList.take (before.flatMap written).length = before.flatMap written := by
  rw [← scan_written text, split, List.flatMap_append, List.take_left]

theorem LeftAt.eq_nil_iff (left : LeftAt text k rest) : rest = [] ↔ k = text.length := by
  obtain ⟨before, split, rfl⟩ := left
  rw [← String.length_toList, ← scan_written text, split, List.flatMap_append, List.length_append]
  constructor
  · rintro rfl
    rfl
  · intro whole
    cases rest with
    | nil => rfl
    | cons t ts =>
      have positive := List.length_pos_iff.mpr t.written_ne_nil
      rw [List.flatMap_cons, List.length_append] at whole
      omega

/-- What is left of the tokens is what is left of the text behind an offset. -/
theorem exists_leftAt {rest : List Token} (suffix : rest <:+ scan text) : ∃ k, LeftAt text k rest := by
  obtain ⟨before, split⟩ := suffix
  exact ⟨_, before, split.symm, rfl⟩

theorem exists_leftAt_of_mem {t : Token} (member : t ∈ scan text) : ∃ k ts, LeftAt text k (t :: ts) := by
  obtain ⟨before, ts, split⟩ := List.append_of_mem member
  exact ⟨_, ts, before, split, rfl⟩

/-- The tokens end where the text does. -/
theorem endPosition_scan (text : String) : endPosition (scan text) = text.toList.foldl Position.advance .start := by
  rw [← scan_written text]
  cases last : (scan text).getLast? with
  | none => rw [endPosition, last, List.getLast?_eq_none_iff.mp last]; rfl
  | some t =>
    obtain ⟨before, split⟩ := List.getLast?_eq_some_iff.mp last
    have place := (scanFrom_split (split : scanFrom .start false text.toList = before ++ t :: [])).1
    rw [endPosition, last, split, List.flatMap_append, List.flatMap_singleton, List.foldl_append, ← place]
    rfl

/-- The place at which tokens begin that are left of a text, or that at which it ends. -/
def placeOf (tokens : List Token) : List Token → Position
  | [] => endPosition tokens
  | t :: _ => t.position

/-- A place that is told is that of an offset. -/
theorem LeftAt.place (left : LeftAt text k rest) :
    placeOf (scan text) rest = (text.toList.take k).foldl Position.advance .start := by
  obtain ⟨before, split, rfl⟩ := left
  rw [take_of_split split]
  cases rest with
  | nil =>
    rw [placeOf, endPosition_scan, ← scan_written text, split, List.append_nil]
  | cons t ts => exact (scanFrom_split split).1

/-- The line is one more than there are newlines before the offset. -/
theorem LeftAt.line (left : LeftAt text k rest) :
    (placeOf (scan text) rest).line = 1 + (text.toList.take k).count '\n' := by
  rw [left.place, Position.line_foldl_advance]
  rfl

/-- The column counts the characters since the last newline. -/
theorem LeftAt.column (left : LeftAt text k rest) :
    (placeOf (scan text) rest).column = 1 + ((text.toList.take k).rtakeWhile (· ≠ '\n')).length := by
  rw [left.place, Position.column_foldl_advance]

theorem openQuote?_mem {opening : Option Token} {ts : List Token} {quote : Token}
    (isOpen : openQuote? opening ts = some quote) : opening = some quote ∨ quote ∈ ts := by
  induction ts generalizing opening with
  | nil => exact .inl isOpen
  | cons t ts ih =>
    simp only [openQuote?] at isOpen
    split at isOpen
    · rcases ih isOpen with opened | later
      · split at opened
        · cases opened
        · cases opened
          exact .inr (List.mem_cons_self ..)
      · exact .inr (List.mem_cons_of_mem _ later)
    · exact (ih isOpen).imp_right (List.mem_cons_of_mem _)

/-- An ambiguity is told at a token. -/
theorem ambiguity?_place {ts : List Token} {ambiguity : Ambiguity} {position : Position}
    (ambiguous : ambiguity? ts = some (ambiguity, position)) : ∃ t ∈ ts, t.position = position := by
  unfold ambiguity? at ambiguous
  split at ambiguous
  · rename_i quote isOpen
    cases ambiguous
    exact ⟨quote, (openQuote?_mem isOpen).resolve_left nofun, rfl⟩
  · split at ambiguous
    · rename_i last atEnd
      split at ambiguous
      · cases ambiguous
        exact ⟨last, List.mem_of_getLast? atEnd, rfl⟩
      · cases ambiguous
    · cases ambiguous

end Token

/-- Words of an error's own, rather than those of the text. -/
def Found.isOwn : Found → Bool
  | token _ | endOfInput => false
  | range .. | calendar _ => true

/-- An error of a text tells of the tokens that are left at its place. -/
inductive QueryError.TellsOf (tokens rest : List Token) : QueryError → Prop
  | lexical {ambiguity} : rest ≠ [] → TellsOf tokens rest (.lexical (Token.placeOf tokens rest) ambiguity)
  | unexpected {expected found} : found.Tells expected rest →
      TellsOf tokens rest (.unexpected (Token.placeOf tokens rest) expected found)

theorem Failure.toError_tellsOf {failure : Failure} (honest : failure.IsTrue) (tokens : List Token) :
    (failure.toError tokens).TellsOf tokens failure.rest := by
  obtain ⟨rest, expected, found⟩ := failure
  have tells : (found.getD (match rest with | [] => .endOfInput | t :: _ => .token t)).Tells expected rest := by
    cases found with
    | none =>
      cases rest with
      | nil => exact .endOfInput
      | cons t ts => exact .token
    | some own => exact honest own rfl
  cases rest with
  | nil => exact .unexpected tells
  | cons t ts => exact .unexpected tells

/-- A rule that stays within its tokens tells of a place among them. -/
theorem readAll_error {α : Type} {rule : List Token → Step α} (within : ∀ ts, Step.Within ts (rule ts))
    {trailing : Expected} {tokens : List Token} {error : QueryError}
    (refused : readAll rule trailing tokens = .error error) : ∃ rest, rest <:+ tokens ∧ error.TellsOf tokens rest := by
  have inner := within tokens
  unfold readAll at refused
  split at refused
  · rename_i failure failed
    rw [failed] at inner
    cases refused
    exact ⟨_, inner.1, Failure.toError_tellsOf inner.2 tokens⟩
  · cases refused
  · rename_i t rest read
    cases refused
    exact ⟨t :: rest, inner.suffix read, Failure.toError_tellsOf (Failure.isTrue_missing _ _) tokens⟩

/-- Whatever is told of a text is told at an offset where a token begins, or at its end. -/
theorem readText_error {α : Type} {rule : List Token → Step α} (within : ∀ ts, Step.Within ts (rule ts))
    {trailing : Expected} {text : String} {error : QueryError} (refused : readText rule trailing text = .error error) :
    ∃ k rest, Token.LeftAt text k rest ∧ error.TellsOf (Token.scan text) rest := by
  unfold readText at refused
  simp only at refused
  split at refused
  · rename_i ambiguity position ambiguous
    cases refused
    obtain ⟨t, member, rfl⟩ := Token.ambiguity?_place ambiguous
    obtain ⟨k, ts, left⟩ := Token.exists_leftAt_of_mem member
    exact ⟨k, t :: ts, left, .lexical (List.cons_ne_nil _ _)⟩
  · obtain ⟨rest, suffix, tells⟩ := readAll_error within refused
    obtain ⟨k, left⟩ := Token.exists_leftAt suffix
    exact ⟨k, rest, left, tells⟩

/-- What is found is told in the words of the text, or as its end, which no token looks like. -/
theorem Found.Tells.text {found : Found} {expected : List Expected} {rest : List Token}
    (tells : found.Tells expected rest) (plain : found.isOwn = false) :
    (∀ t ∈ rest.head?, found.text = "'" ++ t.text ++ "'") ∧ (found.text = "end of input" ↔ rest = []) := by
  cases tells with
  | @token t ts =>
    refine ⟨?_, iff_of_false (fun same => ?_) (List.cons_ne_nil _ _)⟩
    · rintro _ ⟨⟩
      rfl
    · have first := congrArg (·.toList.head?) same
      simp [Found.text] at first
  | endOfInput => exact ⟨nofun, iff_of_true rfl rfl⟩
  | range => cases plain
  | calendar => cases plain

/-- An error tells a true place, and truly what stands there: the token that begins there, the end of the text, or
in its own words a range that descends or a date or time that does not exist. -/
theorem QueryError.place_exact {text : String} {error : QueryError}
    (refused : Criterion.readList text = .error error ∨ Expression.read text = .error error ∨
      PropertyPath.read text = .error error) :
    ∃ k rest position, Token.LeftAt text k rest ∧ (rest = [] ↔ k = text.length) ∧
      error.position? = some position ∧
      position.line = 1 + (text.toList.take k).count '\n' ∧
      position.column = 1 + ((text.toList.take k).rtakeWhile (· ≠ '\n')).length ∧
      ∀ expected found, error = .unexpected position expected found →
        found.Tells expected rest ∧
        (found.isOwn = false → (∀ t ∈ rest.head?, found.text = "'" ++ t.text ++ "'") ∧
          (found.text = "end of input" ↔ k = text.length)) := by
  have tells : ∃ k rest, Token.LeftAt text k rest ∧ error.TellsOf (Token.scan text) rest := by
    rcases refused with refused | refused | refused
    · exact readText_error criteria_within refused
    · exact readText_error expression_within refused
    · exact readText_error propertyPath_within refused
  obtain ⟨k, rest, left, tells⟩ := tells
  have atEnd := left.eq_nil_iff
  cases tells with
  | lexical => exact ⟨k, rest, _, left, atEnd, rfl, left.line, left.column, nofun⟩
  | unexpected tells =>
    refine ⟨k, rest, _, left, atEnd, rfl, left.line, left.column, ?_⟩
    rintro _ _ ⟨⟩
    refine ⟨tells, fun plain => ?_⟩
    obtain ⟨quoted, ends⟩ := tells.text plain
    exact ⟨quoted, ends.trans atEnd⟩

/-- A text that ends in a newline ends at the beginning of a line. -/
theorem QueryError.place_exact_newline :
    Criterion.readList "a=(b\n" = .error (.unexpected ⟨2, 1⟩ [.closingParenthesis] .endOfInput) ∧
      ∃ k rest, Token.LeftAt "a=(b\n" k rest ∧ k = "a=(b\n".length ∧
        2 = 1 + ("a=(b\n".toList.take k).count '\n' ∧
        1 = 1 + (("a=(b\n".toList.take k).rtakeWhile (· ≠ '\n')).length := by
  have refused : Criterion.readList "a=(b\n" = .error (.unexpected ⟨2, 1⟩ [.closingParenthesis] .endOfInput) := by
    with_unfolding_all rfl
  obtain ⟨k, rest, position, left, -, place, line, column, told⟩ := place_exact (.inl refused)
  obtain rfl : ⟨2, 1⟩ = position := Option.some.inj place
  obtain ⟨-, words⟩ := told _ _ rfl
  exact ⟨refused, k, rest, left, (words rfl).2.mp rfl, line, column⟩

end Sift

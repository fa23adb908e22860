import Sift.Proofs.Filter.Joining

namespace Sift

namespace Segment

/-- Text, or a class that has a character, and none twice. -/
def IsProper : Segment → Prop
  | literal _ => True
  | choice members => members ≠ [] ∧ members.Nodup

/-- Whether a part of a text is a class. -/
def isChoice : Segment → Bool
  | literal _ => false
  | choice _ => true

end Segment

/-- A word that has one character of each class of a text in its place. -/
inductive Chooses : List Segment → List Char → Prop
  | nil : Chooses [] []
  | literal {cs rest w} : Chooses rest w → Chooses (.literal cs :: rest) (cs ++ w)
  | choice {members rest c w} : c ∈ members → Chooses rest w → Chooses (.choice members :: rest) (c :: w)

/-- One word before another: the first class from which they take different characters has that of the
first word before that of the second. -/
inductive Earlier : List Segment → List Char → List Char → Prop
  | literal {cs rest w v} : Earlier rest w v → Earlier (.literal cs :: rest) (cs ++ w) (cs ++ v)
  | here {members rest c d w v} : [c, d].Sublist members →
      Earlier (.choice members :: rest) (c :: w) (d :: v)
  | later {members rest c w v} : Earlier rest w v → Earlier (.choice members :: rest) (c :: w) (c :: v)

/-- The words that a text stands for. -/
def words : List Segment → List (List Char)
  | [] => [[]]
  | .literal cs :: rest => (words rest).map (cs ++ ·)
  | .choice members :: rest => members.flatMap fun c => (words rest).map (c :: ·)

/-- The words of a text are those that take one character of each class. -/
theorem mem_words {segments : List Segment} {w : List Char} : w ∈ words segments ↔ Chooses segments w := by
  constructor
  · intro member
    fun_induction words segments generalizing w with
    | case1 =>
      rw [List.mem_singleton.mp member]
      exact .nil
    | case2 cs rest ih =>
      obtain ⟨v, within, rfl⟩ := List.mem_map.mp member
      exact .literal (ih within)
    | case3 members rest ih =>
      obtain ⟨c, taken, inWords⟩ := List.mem_flatMap.mp member
      obtain ⟨v, within, rfl⟩ := List.mem_map.mp inWords
      exact .choice taken (ih within)
  · intro chosen
    induction chosen with
    | nil => exact List.mem_singleton_self _
    | literal _ ih => exact List.mem_map_of_mem ih
    | choice taken _ ih => exact List.mem_flatMap.mpr ⟨_, taken, List.mem_map_of_mem ih⟩

/-- Words stand in the order of the choices, of which the first one changes slowest. -/
theorem pairwise_words (segments : List Segment) : (words segments).Pairwise (Earlier segments) := by
  fun_induction words segments with
  | case1 => exact List.pairwise_singleton _ _
  | case2 cs rest ih => exact ih.map _ fun _ _ => Earlier.literal
  | case3 members rest ih =>
    refine List.pairwise_flatMap.mpr ⟨fun c _ => ih.map _ fun _ _ => Earlier.later, ?_⟩
    refine List.pairwise_iff_forall_sublist.mpr fun ordered w atFirst v atSecond => ?_
    obtain ⟨_, -, rfl⟩ := List.mem_map.mp atFirst
    obtain ⟨_, -, rfl⟩ := List.mem_map.mp atSecond
    exact .here ordered

theorem Earlier.ne {segments : List Segment} {w v : List Char} (earlier : Earlier segments w v)
    (proper : ∀ segment ∈ segments, segment.IsProper) : w ≠ v := by
  induction earlier with
  | literal _ ih =>
    have rest := (List.forall_mem_cons.mp proper).2
    exact mt List.append_cancel_left (ih rest)
  | @here members rest c d w v ordered =>
    obtain ⟨-, distinct⟩ := (List.forall_mem_cons.mp proper).1
    have different : c ≠ d := by simpa using ordered.nodup distinct
    exact fun same => different (List.cons.inj same).1
  | later _ ih =>
    have rest := (List.forall_mem_cons.mp proper).2
    exact fun same => ih rest (List.cons.inj same).2

/-- No word is there twice if no class has a character twice. -/
theorem nodup_words {segments : List Segment} (proper : ∀ segment ∈ segments, segment.IsProper) :
    (words segments).Nodup :=
  (pairwise_words segments).imp fun earlier => earlier.ne proper

theorem words_ne_nil {segments : List Segment} (proper : ∀ segment ∈ segments, segment.IsProper) :
    words segments ≠ [] := by
  fun_induction words segments with
  | case1 => exact List.cons_ne_nil _ _
  | case2 cs rest ih => exact mt List.map_eq_nil_iff.mp (ih (List.forall_mem_cons.mp proper).2)
  | case3 members rest ih =>
    obtain ⟨⟨filled, -⟩, others⟩ := List.forall_mem_cons.mp proper
    obtain ⟨c, member⟩ := List.exists_mem_of_ne_nil members filled
    intro empty
    exact ih others (List.map_eq_nil_iff.mp (List.flatMap_eq_nil_iff.mp empty c member))

namespace Expression

mutual

/-- The conditions that variants come down to, from left to right, each with the number of classes that
it is a variant of. `depth` is that number for the expression itself. -/
def leaves (depth : Nat) : Expression → List (Nat × Expression)
  | oneOf variants => leavesOfAll (depth + 1) variants
  | e => [(depth, e)]

/-- The conditions that several variants come down to. -/
def leavesOfAll (depth : Nat) : List Expression → List (Nat × Expression)
  | [] => []
  | e :: es => leaves depth e ++ leavesOfAll depth es

end

theorem leavesOfAll_eq_flatMap (depth : Nat) (es : List Expression) :
    leavesOfAll depth es = es.flatMap (leaves depth) := by
  induction es with
  | nil => rfl
  | cons e es ih => rw [leavesOfAll, ih, List.flatMap_cons]

end Expression

/-- How a text is compared with the value of a field. -/
inductive TextMatch where
  | whole
  | beginning
  | ending
  | part

namespace TextMatch

/-- What kind of condition a text stands for. -/
def expression : TextMatch → String → Expression
  | whole => .constant
  | beginning => .startsWith
  | ending => .endsWith
  | part => .contains

/-- The operator of the tests for words. -/
def operator : TextMatch → Operator
  | whole => .equal
  | beginning => .startsWith
  | ending => .endsWith
  | part => .contains

/-- The test for a word. -/
def test (how : TextMatch) (field : String) (word : List Char) : Filter :=
  .comparing field how.operator (.string (String.ofList word))

theorem leaves_expression (how : TextMatch) (depth : Nat) (text : String) :
    (how.expression text).leaves depth = [(depth, how.expression text)] := by
  cases how <;> rfl

theorem filter_expression (how : TextMatch) (field : String) (word : List Char) :
    (how.expression (String.ofList word)).filter field = how.test field word := by
  cases how <;> rfl

theorem normal_test (how : TextMatch) (field : String) (word : List Char) : (how.test field word).Normal :=
  Filter.normal_comparing field (by cases how <;> rfl) _

end TextMatch

section
variable (how : TextMatch)

/-- A text comes down to one condition for each of its words, as deep as it has classes. -/
theorem leaves_expandFrom (depth : Nat) (before : List Char) (segments : List Segment) :
    (expandFrom how.expression before segments).leaves depth = (words segments).map fun w =>
      (depth + segments.countP Segment.isChoice, how.expression (String.ofList (before ++ w))) := by
  induction segments generalizing depth before with
  | nil =>
    rw [expandFrom, how.leaves_expression, words, List.map_singleton, List.append_nil]
    rfl
  | cons segment rest ih =>
    cases segment with
    | literal cs =>
      have classes : (Segment.literal cs :: rest).countP Segment.isChoice = rest.countP Segment.isChoice :=
        List.countP_cons_of_neg Bool.false_ne_true
      simp only [expandFrom, words, List.map_map, Function.comp_def, ih, classes, List.append_assoc]
    | choice members =>
      have classes : (Segment.choice members :: rest).countP Segment.isChoice =
          rest.countP Segment.isChoice + 1 := List.countP_cons_of_pos rfl
      have deeper : depth + 1 + rest.countP Segment.isChoice = depth + (rest.countP Segment.isChoice + 1) := by
        omega
      simp only [expandFrom, Expression.leaves, Expression.leavesOfAll_eq_flatMap, List.flatMap_map, words,
        List.map_flatMap, List.map_map, Function.comp_def, ih, classes, deeper, List.append_assoc,
        List.singleton_append]

/-- The filter of a text joins the tests for its words, without groups. -/
theorem filter_expandFrom {segments : List Segment} (proper : ∀ segment ∈ segments, segment.IsProper)
    (field : String) (before : List Char) :
    (expandFrom how.expression before segments).filter field =
      .joined .or ((words segments).map fun w => how.test field (before ++ w)) := by
  induction segments generalizing before with
  | nil =>
    rw [expandFrom, how.filter_expression, words, List.map_singleton, List.append_nil,
      Filter.joined_singleton (how.normal_test field before)]
  | cons segment rest ih =>
    obtain ⟨-, others⟩ := List.forall_mem_cons.mp proper
    cases segment with
    | literal cs =>
      simp only [expandFrom, words, List.map_map, Function.comp_def, ih others, List.append_assoc]
    | choice members =>
      -- One group of tests for each character of the class.
      let group (c : Char) : List Filter := (words rest).map fun w => how.test field (before ++ [c] ++ w)
      have filled : ∀ tests ∈ members.map group, tests ≠ [] := by
        intro tests member
        obtain ⟨c, -, rfl⟩ := List.mem_map.mp member
        exact mt List.map_eq_nil_iff.mp (words_ne_nil others)
      have normal : ∀ tests ∈ members.map group, ∀ f ∈ tests, f.Normal := by
        intro tests member f inTests
        obtain ⟨c, -, rfl⟩ := List.mem_map.mp member
        obtain ⟨w, -, rfl⟩ := List.mem_map.mp inTests
        exact how.normal_test field _
      calc (expandFrom how.expression before (.choice members :: rest)).filter field
          = .joined .or ((members.map group).map (.joined .or)) := by
            simp only [expandFrom, Expression.filter, Expression.filters_eq_map, List.map_map,
              Function.comp_def, ih others, group]
        _ = .joined .or (members.map group).flatten := Filter.joined_flatten (fun _ => filled) normal
        _ = .joined .or ((words (.choice members :: rest)).map fun w => how.test field (before ++ w)) := by
            simp only [words, List.map_flatMap, List.map_map, Function.comp_def, ← List.flatMap_def, group,
              List.append_assoc, List.singleton_append]

/-- The leaves of a text with classes are the conditions on its words, each once, in the order of the
choices, each under as many lists of variants as there are classes. Its filter is the test for its word if
there is one, and one flat "or" of the tests for its words if there are several. -/
theorem leaves_and_filter_of_expand {segments : List Segment}
    (proper : ∀ segment ∈ segments, segment.IsProper) :
    (expand how.expression segments).leaves 0 = (words segments).map (fun w =>
      (segments.countP Segment.isChoice, how.expression (String.ofList w))) ∧
    (∀ w, w ∈ words segments ↔ Chooses segments w) ∧
    (words segments).Pairwise (Earlier segments) ∧
    (words segments).Nodup ∧
    ∀ field, (expand how.expression segments).filter field =
      match words segments with
      | [w] => how.test field w
      | several => .join .or (several.map (how.test field)) := by
  refine ⟨?_, fun w => mem_words, pairwise_words segments, nodup_words proper, fun field => ?_⟩
  · rw [expand, leaves_expandFrom, Nat.zero_add]
    rfl
  · have fit : ∀ f ∈ (words segments).map (how.test field), f.FitsIn .or := by
      intro f member
      obtain ⟨w, -, rfl⟩ := List.mem_map.mp member
      exact trivial
    rw [expand, filter_expandFrom how proper]
    change Filter.joined .or ((words segments).map (how.test field)) = _
    rw [Filter.joined_of_fitsIn fit]
    cases taken : words segments with
    | nil => exact absurd taken (words_ne_nil proper)
    | cons first others => cases others <;> rfl

end

/-- Two classes with a character between them stand for four words. -/
theorem leaves_and_filter_of_expand_letters :
    (∀ segment ∈ [Segment.choice ['B', 'b'], .literal ['r'], .choice ['a', 'o']], segment.IsProper) ∧
    (expand .constant [.choice ['B', 'b'], .literal ['r'], .choice ['a', 'o']]).leaves 0 =
      [(2, .constant "Bra"), (2, .constant "Bro"), (2, .constant "bra"), (2, .constant "bro")] ∧
    (expand .constant [.choice ['B', 'b'], .literal ['r'], .choice ['a', 'o']]).filter "Name" =
      .join .or [.comparing "Name" .equal (.string "Bra"), .comparing "Name" .equal (.string "Bro"),
        .comparing "Name" .equal (.string "bra"), .comparing "Name" .equal (.string "bro")] := by
  have proper : ∀ segment ∈ [Segment.choice ['B', 'b'], .literal ['r'], .choice ['a', 'o']],
      segment.IsProper := by
    simp [Segment.IsProper]
  obtain ⟨leaves, -, -, -, filter⟩ := leaves_and_filter_of_expand .whole proper
  exact ⟨proper, leaves, filter "Name"⟩

end Sift

import Sift.Proofs.Filter.Joining
import Sift.Proofs.Grammar.Placement
import Sift.Proofs.Grammar.Printing

namespace Sift

open Token (Stands)

namespace Chain

/-- The logic by which the operands are joined. -/
def logic : Chain → Logic
  | alternatives => .or
  | conditions => .and

/-- The filter of a chain joins those of its operands. -/
theorem filter_join (c : Chain) (left right : Expression) (field : String) :
    (c.join left right).filter field = .joined c.logic [left.filter field, right.filter field] := by
  cases c <;> rfl

/-- What stands on both sides of a separator stands with it as a whole. -/
theorem stands_between (c : Chain) {cs ds : List Char} {spells spells' whole : List Token → Prop}
    (first : Stands cs spells) (second : Stands ds spells')
    (both : ∀ ts us separator, separator.kind = c.separator → spells ts → spells' us →
      whole (ts ++ separator :: us)) : Stands (cs ++ c.mark :: ds) whole := by
  refine first.append (c.scans_mark.stands.both second) ?_
  rintro ts _ spelled ⟨_, us, rfl, ⟨separator, rfl, separates⟩, spelled'⟩
  exact both ts us separator separates spelled spelled'

end Chain

/-- A chain behind another of its kind continues it. The whole leans to the left, so that it is not the join
of the two, but it has the filter of their join. -/
theorem Derives.chained {c : Chain} {ts us : List Token} {left right : Expression} {separator : Token}
    (first : Derives (.chain c) ts left) (separates : separator.kind = c.separator)
    (second : Derives (.chain c) us right) :
    ∃ e, Derives (.chain c) (ts ++ separator :: us) e ∧
      ∀ field, e.filter field = .joined c.logic [left.filter field, right.filter field] := by
  generalize same : Layer.chain c = layer at second
  -- On the chain behind, since its operands go to the end of the one before it one by one.
  induction second with
  | term | interval | group | not => cases same
  | first operand =>
    cases same
    exact ⟨_, .next first separates operand, c.filter_join left _⟩
  | @next _ us before separator' vs operand derived separates' derived' ih =>
    cases same
    obtain ⟨e, chained, meaning⟩ := ih rfl
    have whole := Derives.next chained separates' derived'
    rw [List.append_assoc, List.cons_append] at whole
    refine ⟨_, whole, fun field => ?_⟩
    have normal := Filter.normal_expression field
    calc (c.join e operand).filter field
        = .joined c.logic [.joined c.logic [left.filter field, before.filter field], operand.filter field] := by
          rw [c.filter_join, meaning]
      _ = .joined c.logic [left.filter field, .joined c.logic [before.filter field, operand.filter field]] :=
          Filter.joined_assoc (normal left) (normal before) (normal operand)
      _ = .joined c.logic [left.filter field, (c.join before operand).filter field] := by
          rw [c.filter_join]

namespace Expression

/-- Texts of expressions make expressions in brackets, negated, as two conditions in brackets, and as two
alternatives without any. -/
theorem read_composed {a b : String} {left right : Expression} (first : Expression.read a = .ok left)
    (second : Expression.read b = .ok right) :
    Expression.read ("(" ++ a ++ ")") = .ok (.group left) ∧
    Expression.read ("!(" ++ a ++ ")") = .ok (.not (.group left)) ∧
    Expression.read ("(" ++ a ++ "),(" ++ b ++ ")") = .ok (.and (.group left) (.group right)) ∧
    ∃ e, Expression.read (a ++ "|" ++ b) = .ok e ∧
      ∀ field, e.filter field = .joined .or [left.filter field, right.filter field] := by
  have inFirst := read_eq_ok_iff_stands.mp first
  have inSecond := read_eq_ok_iff_stands.mp second
  have group := stands_group inFirst
  have group' := stands_group inSecond
  refine ⟨?_, read_negation first, ?_, ?_⟩
  · have chars : ("(" ++ a ++ ")").toList = '(' :: (a.toList ++ [')']) := by simp
    apply read_of_stands
    rw [chars]
    exact group
  · have chars : ("(" ++ a ++ "),(" ++ b ++ ")").toList =
        '(' :: (a.toList ++ [')']) ++ Chain.conditions.mark :: '(' :: (b.toList ++ [')']) := by
      simp [Chain.mark]
    rw [read_eq_ok_iff_stands, chars]
    refine Chain.conditions.stands_between group group' fun ts us separator separates derived derived' => ?_
    exact .first (.next (.first derived) separates derived')
  · have chars : (a ++ "|" ++ b).toList = a.toList ++ Chain.alternatives.mark :: b.toList := by
      simp [Chain.mark]
    have whole : Stands (a ++ "|" ++ b).toList fun ts => ∃ e, Derives (.chain .alternatives) ts e ∧
        ∀ field, e.filter field = .joined .or [left.filter field, right.filter field] := by
      rw [chars]
      exact Chain.alternatives.stands_between inFirst inSecond
        fun ts us separator separates derived derived' => derived.chained separates derived'
    obtain ⟨clear, e, derived, meaning⟩ := whole .start
    exact ⟨e, read_eq_ok_iff_derives.mpr ⟨clear, derived⟩, meaning⟩

/-- Two conditions and two alternatives of which one is negated. -/
theorem read_composed_alternatives :
    Expression.read "x,y" = .ok (.and (.constant "x") (.constant "y")) ∧
    Expression.read "!u|v" = .ok (.or (.not (.constant "u")) (.constant "v")) ∧
    Expression.read "!(x,y)" = .ok (.not (.group (.and (.constant "x") (.constant "y")))) ∧
    ∃ e, Expression.read "x,y|!u|v" = .ok e ∧ e.filter "Name" = .join .or
      [.join .and [.comparing "Name" .equal (.string "x"), .comparing "Name" .equal (.string "y")],
        .comparing "Name" .notEqual (.string "u"), .comparing "Name" .equal (.string "v")] := by
  have first : Expression.read "x,y" = .ok (.and (.constant "x") (.constant "y")) := by with_unfolding_all rfl
  have second : Expression.read "!u|v" = .ok (.or (.not (.constant "u")) (.constant "v")) := by with_unfolding_all rfl
  obtain ⟨-, negated, -, e, joined, meaning⟩ := read_composed first second
  exact ⟨first, second, negated, e, joined, meaning "Name"⟩

end Expression

end Sift

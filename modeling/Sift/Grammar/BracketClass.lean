import Sift.Grammar.Failure

namespace Sift

/-- The characters from one to another, both included, in ascending order. Values that no
character has are passed over. -/
def charRange (first last : Char) : List Char :=
  (List.range' first.toNat (last.toNat + 1 - first.toNat)).filterMap fun n =>
    if valid : n.isValidChar then some (Char.ofNatAux n valid) else none

/-- Distinct characters added at the end of a list, those left out that it has already. -/
def addNew (seen members : List Char) : List Char :=
  seen ++ members.filter (· ∉ seen)

/-- The end of a range whose first character has just been read: a dash and a member. -/
def rangeEnd? : List Token → Option (Char × List Token)
  | dash :: last :: rest =>
    if dash.kind = .dash ∧ last.kind.isMember then some (last.char, rest) else none
  | _ => none

theorem rangeEnd?_shorter {ts : List Token} {last : Char} {rest : List Token}
    (found : rangeEnd? ts = some (last, rest)) : rest.length < ts.length := by
  unfold rangeEnd? at found
  split at found
  · split at found
    · cases found
      simp only [List.length_cons]
      omega
    · cases found
  · cases found

/-- The rest of a class after some of its characters. A member with a dash and another member after
it is a range, and a dash in any other place is itself a character. -/
def classMembers (seen : List Char) : List Token → Step (List Char)
  | [] => .missing .closingBracket []
  | t :: ts =>
    if t.kind = .rightBracket then
      if seen.isEmpty then .missing .classMember (t :: ts) else .ok (seen, ts)
    else if t.kind.isMember then
      match _range : rangeEnd? ts with
      | some (last, rest) =>
        if last < t.char then
          .error (.final .ascendingRange (.range t.char last) (t :: ts))
        else classMembers (addNew seen (charRange t.char last)) rest
      | none => classMembers (addNew seen [t.char]) ts
    else .missing .closingBracket (t :: ts)
termination_by ts => ts.length
decreasing_by
  · exact Nat.lt_succ_of_lt (rangeEnd?_shorter ‹_›)
  · exact Nat.lt_succ_self _

/-- A class behind its opening bracket, as in `[abc]` or `[a-f]`: distinct characters in the order in which they
are first written. -/
def bracketClass (ts : List Token) : Step (List Char) :=
  classMembers [] ts

/-- A class takes at least its closing bracket. -/
theorem classMembers_shorter {seen : List Char} {ts : List Token} {members : List Char}
    {rest : List Token} (read : classMembers seen ts = .ok (members, rest)) :
    rest.length < ts.length := by
  fun_induction classMembers seen ts with
  | case1 => cases read
  | case2 => cases read
  | case3 =>
    cases read
    exact Nat.lt_succ_self _
  | case4 => cases read
  | case5 _ _ _ _ _ _ _ range _ ih =>
    have := ih read
    have := rangeEnd?_shorter range
    simp only [List.length_cons]
    omega
  | case6 _ _ _ _ _ _ ih =>
    have := ih read
    simp only [List.length_cons]
    omega
  | case7 => cases read

end Sift

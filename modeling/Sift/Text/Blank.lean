import Sift.Text.Ranges

namespace Sift

/-- The characters with the property `White_Space`. -/
def blankRanges : List (Nat × Nat) :=
  [(0x09, 0x0D), (0x20, 0x20), (0x85, 0x85), (0xA0, 0xA0), (0x1680, 0x1680), (0x2000, 0x200A),
    (0x2028, 0x2029), (0x202F, 0x202F), (0x205F, 0x205F), (0x3000, 0x3000)]

/-- White space as the Unicode property `White_Space` has it. -/
def isBlank (c : Char) : Bool :=
  inRanges c.toNat blankRanges

def trimRight (cs : List Char) : List Char :=
  cs.reverse.dropWhile isBlank |>.reverse

/-- A text without the white space around it. -/
def trim (cs : List Char) : List Char :=
  trimRight (cs.dropWhile isBlank)

def isBlankText (text : String) : Bool :=
  text.toList.all isBlank

theorem trim_of_solid {cs : List Char} (solid : ∀ c ∈ cs, isBlank c = false) : trim cs = cs := by
  have kept : ∀ {ds : List Char}, (∀ d ∈ ds, isBlank d = false) → ds.dropWhile isBlank = ds := by
    intro ds clear
    cases ds with
    | nil => rfl
    | cons d ds => simp [clear d (List.mem_cons_self ..)]
  have backwards : ∀ c ∈ cs.reverse, isBlank c = false := fun c member =>
    solid c (List.mem_reverse.mp member)
  rw [trim, kept solid, trimRight, kept backwards, List.reverse_reverse]

end Sift

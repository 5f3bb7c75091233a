/-
# Text.Ranges -- classes of characters given by ranges of code points

A class of characters is a list of closed ranges of code points.  `inRanges` is
membership in the union of the ranges.
-/
set_option autoImplicit false

namespace ColonLisp.Text

/-- Whether the code point of `c` lies in one of the closed ranges. -/
def inRanges (ranges : List (Nat × Nat)) (c : Char) : Bool :=
  ranges.any fun (first, last) => decide (first ≤ c.toNat) && decide (c.toNat ≤ last)

theorem inRanges_iff (ranges : List (Nat × Nat)) (c : Char) :
    inRanges ranges c = true ↔ ∃ range ∈ ranges, range.1 ≤ c.toNat ∧ c.toNat ≤ range.2 := by
  simp [inRanges]

end ColonLisp.Text

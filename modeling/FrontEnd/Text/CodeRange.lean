/-!
# Ranges of code points

A property of characters is given by the ranges of code points that have it, in rising order, with
both ends of each range included.
-/

namespace FrontEnd.Text

/-- Whether the character lies in one of the ranges. -/
def inRanges (ranges : List (Nat × Nat)) (c : Char) : Bool :=
  ranges.any fun r => r.1 ≤ c.toNat && c.toNat ≤ r.2

/-- A character is in a list of ranges exactly if it lies between the ends of one of them. -/
theorem inRanges_iff {ranges : List (Nat × Nat)} {c : Char} :
    inRanges ranges c = true ↔ ∃ r ∈ ranges, r.1 ≤ c.toNat ∧ c.toNat ≤ r.2 := by
  simp [inRanges]

end FrontEnd.Text

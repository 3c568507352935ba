/-!
# Tables of code points

A property of characters is given by the ranges of code points that have it.  The tables beside this
module list their ranges in ascending order, first and last code point included.

## Main definitions

* `Ranges`: a list of closed ranges of code points
* `Ranges.contains`: whether a character lies in one of the ranges
-/

namespace GoTree.Unicode

/-- Closed ranges of code points. -/
abbrev Ranges := List (Nat × Nat)

/-- Whether the code point of `c` lies in one of the ranges. -/
def Ranges.contains (ranges : Ranges) (c : Char) : Bool :=
  ranges.any fun range => range.1 ≤ c.toNat && c.toNat ≤ range.2

theorem Ranges.contains_iff {ranges : Ranges} {c : Char} :
    ranges.contains c = true ↔ ∃ range ∈ ranges, range.1 ≤ c.toNat ∧ c.toNat ≤ range.2 := by
  simp [Ranges.contains]

end GoTree.Unicode

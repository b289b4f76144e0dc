/-
  Neuroform — sets of code points as closed ranges.
-/

namespace Neuroform.Text

/-- Whether a code point lies in one of the ranges. -/
def inRanges (ranges : List (Nat × Nat)) (n : Nat) : Bool :=
  ranges.any fun (first, last) => first ≤ n && n ≤ last

end Neuroform.Text

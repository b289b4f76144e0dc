/-
  Neuroform — powers of the two bases that numbers are read and written in.
-/

namespace Neuroform

/-- Two to the power `n`. -/
def powerOfTwo (n : Nat) : Nat := Nat.pow 2 n

/-- Ten to the power `n`. -/
def powerOfTen (n : Nat) : Nat := Nat.pow 10 n

end Neuroform

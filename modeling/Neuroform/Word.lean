/-
  Neuroform — machine words.

  Sizes are unsigned words of 64 bits, axes and target shapes hold signed ones.
  Arithmetic on words is exact: a result that is no word is a fault.  Of a sum
  only the total is looked at, because the sums on the way are smaller; a
  product can leave the words before it meets a zero, so it is taken from the
  left, step by step.
-/
import Neuroform.Failure

namespace Neuroform.Word

/-- The number of bits of a word. -/
abbrev bits : Nat := 64

/-- The number of words. -/
abbrev limit : Nat := 0x10000000000000000

/-- The number of words that are not negative when they are read as signed. -/
abbrev signLimit : Nat := 0x8000000000000000

/-- The signed number with the bits of a word. -/
def signed (n : Nat) : Int := (n : Int).bmod limit

/-- The word with the bits of a signed number. -/
def unsigned (i : Int) : Nat := (i % limit).toNat

/-- A computed size, which has to be a word. -/
def ofNat (n : Nat) : Outcome Nat := if n < limit then .ok n else fault

/-- A computed integer, which has to be a signed word. -/
def ofInt (i : Int) : Outcome Int :=
  if -signLimit ≤ i ∧ i < signLimit then .ok i else fault

/-- A one, shifted by fewer bits than a word has. -/
def shiftedOne (n : Nat) : Outcome Nat := if n < bits then .ok (1 <<< n) else fault

/-- The sum of sizes. -/
def sum (sizes : List Nat) : Outcome Nat := ofNat (totalSize sizes)

/-- The product of sizes. -/
def product (sizes : List Nat) : Outcome Nat := sizes.foldlM (fun n d => ofNat (n * d)) 1

/-- The product of integers. -/
def signedProduct (is : List Int) : Outcome Int := is.foldlM (fun n i => ofInt (n * i)) 1

end Neuroform.Word

/-
  Neuroform — positive fractions on decimal grids.

  A positive fraction `num / den` has a decimal exponent, the `k` with
  `10 ^ k ≤ num / den < 10 ^ (k + 1)`, and on each grid of powers of ten two
  neighbours.  A `Decimal` is such a grid point: `digits · 10 ^ exponent`.
-/
import Neuroform.Numeral.Power

namespace Neuroform

/-- The number `digits · 10 ^ exponent`. -/
structure Decimal where
  digits : Nat
  exponent : Int

/-- A fraction of natural numbers, with a positive denominator. -/
structure Fraction where
  num : Nat
  den : Nat

namespace Fraction

/-- The fraction `mantissa · 2 ^ exponent`. -/
def ofBinary (mantissa : Nat) (exponent : Int) : Fraction :=
  ⟨mantissa * powerOfTwo exponent.toNat, powerOfTwo (-exponent).toNat⟩

/-- The fraction divided by `10 ^ k`. -/
def shift (q : Fraction) (k : Int) : Fraction :=
  ⟨q.num * powerOfTen (-k).toNat, q.den * powerOfTen k.toNat⟩

/-- The number of decimal digits of a natural number. -/
def digitCount (n : Nat) : Nat := (Nat.toDigits 10 n).length

/-- The exponent of the leading decimal digit of a positive fraction.  From the
    digit counts of numerator and denominator it is known up to one. -/
def leadingExponent (q : Fraction) : Int :=
  let k : Int := (digitCount q.num : Int) - digitCount q.den
  let s := q.shift k
  if s.den ≤ s.num then k else k - 1

/-- The nearest natural number; a half goes to the even neighbour. -/
def roundHalfEven (q : Fraction) : Nat :=
  let low := q.num / q.den
  let rest := 2 * (q.num % q.den)
  if rest < q.den ∨ (rest = q.den ∧ low % 2 = 0) then low else low + 1

end Fraction
end Neuroform

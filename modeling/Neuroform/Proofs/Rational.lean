/-
  Neuroform — exact arithmetic.

  Where no operation rounds, a positive factor can be taken out of products,
  sums and comparisons (`Exact`), as in every ordered field.  Rational numbers
  are scalars that can be computed with and obey all laws of a field; rational
  functions stand for those that leave the rationals, and zero for negative
  infinity.
-/
import Mathlib
import Neuroform.Scalar
import Neuroform.Scalar.Summation

namespace Neuroform

/-! ## Ordered fields -/

/-- Laws of exact arithmetic. -/
structure Exact (α : Type) [Scalar α] : Prop where
  beq_refl : ∀ x : α, (x == x) = true
  one_mul : ∀ x : α, 1 * x = x
  zero_mul : ∀ x : α, 0 * x = 0
  mul_comm : ∀ x y : α, x * y = y * x
  mul_assoc : ∀ x y z : α, x * y * z = x * (y * z)
  add_mul : ∀ x y z : α, (x + y) * z = x * z + y * z
  div_mul_cancel : ∀ x k : α, 0 < k → x / k * k = x
  mul_pos_iff : ∀ x k : α, 0 < k → (0 < x * k ↔ 0 < x)
  mul_neg_iff : ∀ x k : α, 0 < k → (x * k < 0 ↔ x < 0)

theorem exact_of_field {α : Type} [Field α] [LinearOrder α] [IsStrictOrderedRing α] [Elementary α]
    [Printed α] : Exact α where
  beq_refl := beq_self_eq_true
  one_mul := one_mul
  zero_mul := MulZeroClass.zero_mul
  mul_comm := mul_comm
  mul_assoc := mul_assoc
  add_mul := add_mul
  div_mul_cancel _ _ hk := div_mul_cancel₀ _ hk.ne'
  mul_pos_iff _ _ hk := mul_pos_iff_of_pos_right hk
  mul_neg_iff x k hk := by simpa using mul_lt_mul_iff_left₀ (b := x) (c := 0) hk

namespace Exact
variable {α : Type} [Scalar α] (h : Exact α)
include h

/-- What is scaled up and down by a factor stays the same. -/
theorem div_mul_mul (a x : α) {k : α} (hk : 0 < k) : a / k * (x * k) = a * x := by
  rw [h.mul_comm x, ← h.mul_assoc, h.div_mul_cancel a k hk]

theorem larger_mul (x : α) {k : α} (hk : 0 < k) : larger (x * k) 0 = larger x 0 * k := by
  unfold larger
  by_cases hx : x < 0
  · rw [if_pos hx, if_pos ((h.mul_neg_iff x k hk).2 hx), h.zero_mul]
  · rw [if_neg hx, if_neg (mt (h.mul_neg_iff x k hk).1 hx), if_pos (h.beq_refl _),
      if_pos (h.beq_refl _)]

end Exact

/-! ## Rational numbers -/

instance : Elementary ℚ where
  exp x := 1 + x
  expm1 x := x
  log1p x := x
  tanh x := x
  sqrt x := x
  wholePart x := ⌊x⌋.toNat
  lowest := 0
  arraySum := Summation.ofArray
  arraySum_eq_foldl _ _ _ _ _ := fun h₀ h₁ h₂ => Summation.ofArray_eq_foldl h₀ h₁ h₂ _ _ _

instance : Printed ℚ where
  plain x := s!"{x.num}/{x.den}"
  option x := s!"{x.num}/{x.den}"
  brief x := s!"{x.num}/{x.den}"

end Neuroform

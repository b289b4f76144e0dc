/-
  Neuroform — the order in which the values of an array are added up.

  Values that lie side by side in memory are added up in eight partial sums,
  every eighth of them in the same one.  Those of other arrays are added up row
  by row.  Where the order of additions does not matter, both are the sum from
  the left (`ofArray_eq_foldl`).
-/
import Neuroform.Shape

namespace Neuroform.Summation

section
variable {α : Type} (zero : α) (add : α → α → α)

/-- The sum of values side by side, from eight partial sums on.  Values that make
    up no eight any more come last. -/
def partials (p₀ p₁ p₂ p₃ p₄ p₅ p₆ p₇ : α) : List α → α
  | x₀ :: x₁ :: x₂ :: x₃ :: x₄ :: x₅ :: x₆ :: x₇ :: rest =>
    partials (add p₀ x₀) (add p₁ x₁) (add p₂ x₂) (add p₃ x₃) (add p₄ x₄) (add p₅ x₅)
      (add p₆ x₆) (add p₇ x₇) rest
  | rest => rest.foldl add
      (add (add (add (add zero (add p₀ p₄)) (add p₁ p₅)) (add p₂ p₆)) (add p₃ p₇))

/-- The sum of values side by side. -/
def sideBySide (values : List α) : α :=
  partials zero add zero zero zero zero zero zero zero zero values

/-- Values in rows of a length. -/
def rows (length : Nat) : Nat → List α → List (List α)
  | 0, _ => []
  | n + 1, values => values.take length :: rows length n (values.drop length)

/-- The sum of the sums of all rows. -/
def byRows (dims : List Nat) (values : List α) : α :=
  (rows (dims.getLastD 1) (volume dims.dropLast) values).foldl
    (fun acc row => add acc (row.foldl add zero)) zero

/-- The sum of the values of an array, in row-major order, whose neighbours lie
    `apart` places apart. -/
def ofArray (apart : Nat) (dims : List Nat) (values : List α) : α :=
  if apart = 1 then sideBySide zero add values else byRows zero add dims values

end

/-! ## Any order -/

section
variable {α : Type} {zero : α} {add : α → α → α} (hzero : ∀ a, add zero a = a)
  (hcomm : ∀ a b, add a b = add b a) (hassoc : ∀ a b c, add (add a b) c = add a (add b c))
include hzero hcomm hassoc

theorem partials_eq_foldl (values : List α) (p₀ p₁ p₂ p₃ p₄ p₅ p₆ p₇ : α) :
    partials zero add p₀ p₁ p₂ p₃ p₄ p₅ p₆ p₇ values = values.foldl add
      (add (add (add (add (add (add (add p₀ p₁) p₂) p₃) p₄) p₅) p₆) p₇) := by
  have : Std.Commutative add := ⟨hcomm⟩
  have : Std.Associative add := ⟨hassoc⟩
  fun_induction partials zero add p₀ p₁ p₂ p₃ p₄ p₅ p₆ p₇ values with
  | case1 p₀ p₁ p₂ p₃ p₄ p₅ p₆ p₇ x₀ x₁ x₂ x₃ x₄ x₅ x₆ x₇ rest ih =>
    simp only [List.foldl_cons, ih]
    exact congrArg (rest.foldl add) (by ac_rfl)
  | case2 p₀ p₁ p₂ p₃ p₄ p₅ p₆ p₇ rest =>
    rw [hzero]
    exact congrArg (rest.foldl add) (by ac_rfl)

/-- Adding a sum is adding its values. -/
theorem add_foldl (acc : α) (values : List α) :
    add acc (values.foldl add zero) = values.foldl add acc := by
  have : Std.Associative add := ⟨hassoc⟩
  calc add acc (values.foldl add zero)
      = values.foldl add (add acc zero) := List.foldl_assoc.symm
    _ = values.foldl add acc := by rw [hcomm acc zero, hzero]

theorem foldl_rows (length : Nat) : ∀ (n : Nat) (values : List α) (acc : α),
    values.length = n * length →
    (rows length n values).foldl (fun acc row => add acc (row.foldl add zero)) acc =
      values.foldl add acc
  | 0, values, acc, h => by
    rw [List.eq_nil_of_length_eq_zero (h.trans (Nat.zero_mul _))]
    rfl
  | n + 1, values, acc, h => by
    have hrest : (values.drop length).length = n * length := by
      rw [List.length_drop, h, Nat.succ_mul, Nat.add_sub_cancel]
    rw [rows, List.foldl_cons, add_foldl hzero hcomm hassoc, foldl_rows length n _ _ hrest,
      ← List.foldl_append, List.take_append_drop]

omit hzero hcomm hassoc in
theorem volume_dropLast : ∀ dims : List Nat, volume dims.dropLast * dims.getLastD 1 = volume dims
  | [] => rfl
  | [d] => by simp [volume]
  | d :: e :: dims => by
    have hrest := volume_dropLast (e :: dims)
    change d * volume (e :: dims).dropLast * (e :: dims).getLastD 1 = d * volume (e :: dims)
    rw [Nat.mul_assoc, hrest]

/-- **Sums do not depend on memory** where the order of additions does not
    matter. -/
theorem ofArray_eq_foldl (apart : Nat) (dims : List Nat) (values : List α)
    (hvalues : values.length = volume dims) :
    ofArray zero add apart dims values = values.foldl add zero := by
  unfold ofArray
  split
  · rw [sideBySide, partials_eq_foldl hzero hcomm hassoc]
    simp only [hzero]
  · rw [byRows, foldl_rows hzero hcomm hassoc _ _ _ _ (hvalues.trans (volume_dropLast dims).symm)]

end
end Neuroform.Summation

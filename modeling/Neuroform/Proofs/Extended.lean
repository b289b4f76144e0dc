/-
  Neuroform — comparing numbers that may be infinite or no number at all.

  The laws that numbers of fixed size keep under comparison, whatever their
  arithmetic rounds to, are those of a set that is ordered but for one value,
  which differs from itself (`Comparable`).  Rational numbers with two
  infinities and such a value are scalars that can be computed with and obey
  these laws.
-/
import Neuroform.Proofs.Rational

namespace Neuroform

/-! ## Comparable numbers -/

/-- Laws of comparison.  What differs from itself is below nothing, above
    nothing and passed on by arithmetic; all else is ordered. -/
structure Comparable (α : Type) [Scalar α] : Prop where
  beq_iff : ∀ x y : α, (x == y) = true ↔ x ≤ y ∧ y ≤ x
  lt_iff : ∀ x y : α, x < y ↔ x ≤ y ∧ ¬y ≤ x
  le_trans : ∀ x y z : α, x ≤ y → y ≤ z → x ≤ z
  le_total : ∀ x y : α, isNaN x = false → isNaN y = false → x ≤ y ∨ y ≤ x
  number_of_le : ∀ x y : α, x ≤ y → isNaN x = false ∧ isNaN y = false
  number_zero : isNaN (0 : α) = false
  neg_nonneg : ∀ x : α, x < 0 → 0 ≤ -x
  nan_add : ∀ x y : α, (isNaN x || isNaN y) = true → isNaN (x + y) = true
  nan_sub : ∀ x y : α, (isNaN x || isNaN y) = true → isNaN (x - y) = true
  nan_mul : ∀ x y : α, (isNaN x || isNaN y) = true → isNaN (x * y) = true

namespace Comparable
variable {α : Type} [Scalar α] (h : Comparable α) {x y : α}
include h

theorem le_refl (hx : isNaN x = false) : x ≤ x := (h.le_total x x hx hx).elim id id

theorem not_le_of_nan (hxy : (isNaN x || isNaN y) = true) : ¬x ≤ y := by
  intro hle
  obtain ⟨hx, hy⟩ := h.number_of_le x y hle
  simp [hx, hy] at hxy

/-- The absolute value passes on what is no number. -/
theorem nan_magnitude (hx : isNaN x = true) : isNaN (magnitude x) = true := by
  have hlt : ¬x < 0 := fun hlt => h.not_le_of_nan (by simp [hx]) ((h.lt_iff _ _).1 hlt).1
  rw [magnitude, if_neg hlt]
  exact hx

theorem magnitude_nonneg (hx : isNaN (magnitude x) = false) : 0 ≤ magnitude x := by
  unfold magnitude at hx ⊢
  split at hx
  case isTrue hlt =>
    rw [if_pos hlt]
    exact h.neg_nonneg x hlt
  case isFalse hlt =>
    rw [if_neg hlt]
    by_contra hnot
    exact hlt ((h.lt_iff x 0).2 ⟨(h.le_total x 0 hx h.number_zero).resolve_right hnot, hnot⟩)

/-- The larger of two numbers is one of them, and neither is above it. -/
theorem larger_spec (hx : isNaN x = false) (hy : isNaN y = false) :
    (larger x y = x ∨ larger x y = y) ∧ x ≤ larger x y ∧ y ≤ larger x y := by
  unfold larger
  by_cases hlt : x < y
  · rw [if_pos hlt]
    exact ⟨.inr rfl, ((h.lt_iff x y).1 hlt).1, h.le_refl hy⟩
  · have hself : (x == x) = true := by simpa [isNaN] using hx
    have hle : y ≤ x := by
      by_contra hnot
      exact hlt ((h.lt_iff x y).2 ⟨(h.le_total x y hx hy).resolve_right hnot, hnot⟩)
    rw [if_neg hlt, if_pos hself]
    exact ⟨.inl rfl, h.le_refl hx, hle⟩

end Comparable

/-! ## Extended rational numbers -/

/-- A rational number, one of two infinities, or no number. -/
inductive Extended where
  | finite (q : ℚ)
  | infinite (negative : Bool)
  | nan

namespace Extended

def add : Extended → Extended → Extended
  | finite p, finite q => finite (p + q)
  | finite _, infinite s | infinite s, finite _ => infinite s
  | infinite s, infinite s' => if s = s' then infinite s else nan
  | nan, _ | _, nan => nan

def neg : Extended → Extended
  | finite q => finite (-q)
  | infinite s => infinite !s
  | nan => nan

/-- An infinity with the sign of a product; nothing is zero times infinite. -/
def signed (s : Bool) (q : ℚ) : Extended :=
  if q = 0 then nan else infinite (s ^^ decide (q < 0))

def mul : Extended → Extended → Extended
  | finite p, finite q => finite (p * q)
  | finite q, infinite s | infinite s, finite q => signed s q
  | infinite s, infinite s' => infinite (s ^^ s')
  | nan, _ | _, nan => nan

/-- Zero has no sign, so a quotient by zero has that of the dividend. -/
def div : Extended → Extended → Extended
  | finite p, finite q => if q = 0 then signed false p else finite (p / q)
  | finite _, infinite _ => finite 0
  | infinite s, finite q => infinite (s ^^ decide (q < 0))
  | infinite _, infinite _ | nan, _ | _, nan => nan

def le : Extended → Extended → Bool
  | finite p, finite q => decide (p ≤ q)
  | finite _, infinite s => !s
  | infinite s, finite _ => s
  | infinite s, infinite s' => s || !s'
  | nan, _ | _, nan => false

/-- A function of rational numbers with its values at the infinities. -/
def lift (f : ℚ → ℚ) (top bottom : Extended) : Extended → Extended
  | finite q => finite (f q)
  | infinite false => top
  | infinite true => bottom
  | nan => nan

def text (print : ℚ → String) : Extended → String
  | finite q => print q
  | infinite false => "inf"
  | infinite true => "-inf"
  | nan => "NaN"

instance : Zero Extended := ⟨finite 0⟩
instance : One Extended := ⟨finite 1⟩
instance : Add Extended := ⟨add⟩
instance : Neg Extended := ⟨neg⟩
instance : Sub Extended := ⟨fun x y => add x (neg y)⟩
instance : Mul Extended := ⟨mul⟩
instance : Div Extended := ⟨div⟩
instance : NatCast Extended := ⟨fun n => finite n⟩
instance : IntCast Extended := ⟨fun i => finite i⟩
instance : OfScientific Extended := ⟨fun m s e => finite (OfScientific.ofScientific m s e)⟩
instance : LE Extended := ⟨fun x y => le x y = true⟩
instance : LT Extended := ⟨fun x y => le x y = true ∧ ¬le y x = true⟩
instance : BEq Extended := ⟨fun x y => le x y && le y x⟩

instance : DecidableLE Extended := fun x y => inferInstanceAs (Decidable (le x y = true))

instance : DecidableLT Extended := fun x y =>
  inferInstanceAs (Decidable (le x y = true ∧ ¬le y x = true))

instance : Elementary Extended where
  exp := lift Elementary.exp (infinite false) 0
  expm1 := lift Elementary.expm1 (infinite false) (-1)
  log1p := lift Elementary.log1p (infinite false) nan
  tanh := lift Elementary.tanh 1 (-1)
  sqrt := lift Elementary.sqrt (infinite false) nan
  wholePart
    | finite q => Elementary.wholePart q
    | _ => 0
  lowest := infinite true
  arraySum := Summation.ofArray
  arraySum_eq_foldl _ _ _ _ _ := fun h₀ h₁ h₂ => Summation.ofArray_eq_foldl h₀ h₁ h₂ _ _ _

instance : Printed Extended where
  plain := text Printed.plain
  option := text Printed.option
  brief := text Printed.brief

/-! ## Comparison -/

variable {x y z : Extended}

theorem le_trans (hxy : le x y = true) (hyz : le y z = true) : le x z = true := by
  cases x <;> cases y <;> cases z <;> simp [le] at hxy hyz ⊢ <;> grind

theorem isNaN_iff : isNaN x = true ↔ x = nan := by
  cases x with
  | finite q => simp [isNaN, BEq.beq, le]
  | infinite s => simp [isNaN, BEq.beq, le]
  | nan => simp [isNaN, BEq.beq, le]

theorem number_of_le (h : le x y = true) : isNaN x = false ∧ isNaN y = false := by
  simp only [← Bool.not_eq_true, isNaN_iff]
  constructor
  · rintro rfl
    simp [le] at h
  · rintro rfl
    cases x <;> simp [le] at h

theorem le_total (hx : isNaN x = false) (hy : isNaN y = false) : le x y = true ∨ le y x = true := by
  simp only [← Bool.not_eq_true, isNaN_iff] at hx hy
  cases x <;> cases y <;> simp [le] at hx hy ⊢
  · exact Rat.le_total
  · grind

theorem add_nan : add x nan = nan := by cases x <;> rfl

theorem mul_nan : mul x nan = nan := by cases x <;> rfl

theorem eq_nan_or (h : (isNaN x || isNaN y) = true) : x = nan ∨ y = nan := by
  simpa only [Bool.or_eq_true, isNaN_iff] using h

/-- **Extended rational numbers are comparable.** -/
theorem comparable : Comparable Extended where
  beq_iff x y := Bool.and_eq_true_iff
  lt_iff x y := Iff.rfl
  le_trans _ _ _ := le_trans
  le_total _ _ := le_total
  number_of_le _ _ := number_of_le
  number_zero := rfl
  neg_nonneg x hx := by
    have hle : le x (finite 0) = true := hx.1
    change le (finite 0) (neg x) = true
    cases x with
    | finite q => simpa [le, neg] using hle
    | infinite s => simpa [le, neg] using hle
    | nan => cases hle
  nan_add x y h := by
    refine isNaN_iff.2 ?_
    obtain rfl | rfl := eq_nan_or h
    · rfl
    · exact add_nan
  nan_sub x y h := by
    refine isNaN_iff.2 ?_
    obtain rfl | rfl := eq_nan_or h
    · rfl
    · exact add_nan
  nan_mul x y h := by
    refine isNaN_iff.2 ?_
    obtain rfl | rfl := eq_nan_or h
    · rfl
    · exact mul_nan

instance : PartialEquivBEq Extended where
  symm h := by
    obtain ⟨hxy, hyx⟩ := Bool.and_eq_true_iff.1 h
    exact Bool.and_eq_true_iff.2 ⟨hyx, hxy⟩
  trans h h' := by
    obtain ⟨hxy, hyx⟩ := Bool.and_eq_true_iff.1 h
    obtain ⟨hyz, hzy⟩ := Bool.and_eq_true_iff.1 h'
    exact Bool.and_eq_true_iff.2 ⟨le_trans hxy hyz, le_trans hzy hyx⟩

end Extended
end Neuroform

/-
  Neuroform — where the windows of an axis lie.

  Windows that stay inside the input are those that end on it, and have no
  padding (`PaddedAxis.Inside`).  Windows that cover the input start at every
  step on it; the padding is the least that the last of them needs, half of it on
  either side (`PaddedAxis.Covering`).
-/
import Neuroform.Proofs.Pooling

namespace Neuroform

/-! ## Started steps -/

theorem le_ceilDiv_mul {n step : Nat} (hs : 0 < step) : n ≤ ceilDiv n step * step := by
  have hsplit := Nat.div_add_mod n step
  have hmod := Nat.mod_lt n hs
  rw [mul_comm] at hsplit
  unfold ceilDiv
  by_cases h : n % step = 0
  · rw [if_pos h, add_zero]
    omega
  · rw [if_neg h, Nat.add_mul]
    omega

/-- The started steps are those that start before the end. -/
theorem lt_ceilDiv_iff {o n step : Nat} (hs : 0 < step) : o < ceilDiv n step ↔ o * step < n := by
  constructor
  · intro ho
    have hle : o * step ≤ (ceilDiv n step - 1) * step :=
      Nat.mul_le_mul_right _ (Nat.le_sub_one_of_lt ho)
    exact hle.trans_lt (ceilDiv_lt (Nat.zero_lt_of_lt ho))
  · intro ho
    by_contra hge
    have hle : ceilDiv n step * step ≤ o * step := Nat.mul_le_mul_right _ (not_lt.1 hge)
    have := le_ceilDiv_mul (n := n) hs
    omega

theorem ceilDiv_eq_ceil (n : Nat) {step : Nat} (hs : 0 < step) :
    ceilDiv n step = ⌈(n : ℚ) / step⌉₊ := by
  have hpos : (0 : ℚ) < step := Nat.cast_pos.2 hs
  refine eq_of_forall_lt_iff fun o => ?_
  rw [lt_ceilDiv_iff hs, Nat.lt_ceil, lt_div_iff₀ hpos, ← Nat.cast_mul, Nat.cast_lt]

/-! ## Windows and padding -/

/-- The windows that stay inside an axis: those that end on it, without padding. -/
structure PaddedAxis.Inside (a : PaddedAxis) (w : WindowAxis) : Prop where
  ends : ∀ o, o < a.output ↔ o * w.stride + (w.kernel - 1) * w.dilation < w.length
  before : a.before = 0
  after : a.after = 0

/-- The windows that cover an axis: one for each started step, with no more
    padding than the last of them needs, and an odd padding cell after the axis. -/
structure PaddedAxis.Covering (a : PaddedAxis) (w : WindowAxis) : Prop where
  output : a.output = ⌈(w.length : ℚ) / w.stride⌉₊
  halves : a.after = a.before ∨ a.after = a.before + 1
  least : IsLeast
    {cells | (a.output - 1) * w.stride + (w.kernel - 1) * w.dilation + 1 ≤ w.length + cells}
    (a.before + a.after)

namespace WindowAxis

variable {w : WindowAxis}

theorem lt_output_valid {o : Nat} (hs : 0 < w.stride) :
    o < w.output .valid ↔ o * w.stride + (w.kernel - 1) * w.dilation < w.length := by
  rw [output, lt_ceilDiv_iff hs, reach]
  omega

theorem inside (w : WindowAxis) (hs : 0 < w.stride) : (w.sliding .valid).padded.Inside w :=
  ⟨fun _ => lt_output_valid hs, Nat.zero_div _, Nat.zero_sub _⟩

theorem before_add_after (w : WindowAxis) (p : Padding) :
    (w.sliding p).padded.before + (w.sliding p).padded.after = w.padding p :=
  Nat.add_sub_cancel' (Nat.div_le_self _ _)

/-- The padding makes up for what the windows reach beyond the axis. -/
theorem isLeast_padding (hn : 0 < w.length) (hs : 0 < w.stride) :
    IsLeast {cells | (w.output .same - 1) * w.stride + (w.kernel - 1) * w.dilation + 1 ≤
      w.length + cells} (w.padding .same) := by
  have hpos : 0 < w.output .same := (lt_ceilDiv_iff hs).2 (by omega)
  have hextent : w.extent .same =
      (w.output .same - 1) * w.stride + (w.kernel - 1) * w.dilation + 1 := by
    rw [extent, max_eq_left (Nat.succ_le_of_lt hpos), reach, add_assoc]
  rw [← hextent, padding]
  constructor
  · change w.extent .same ≤ w.length + (w.extent .same - w.length)
    omega
  · intro cells hcells
    change w.extent .same ≤ w.length + cells at hcells
    omega

theorem covering (hn : 0 < w.length) (hs : 0 < w.stride) :
    (w.sliding .same).padded.Covering w where
  output := ceilDiv_eq_ceil _ hs
  halves := by
    have hafter : (w.sliding .same).padded.after = w.padding .same - w.padding .same / 2 := rfl
    have hbefore : (w.sliding .same).padded.before = w.padding .same / 2 := rfl
    omega
  least := by
    rw [before_add_after]
    exact isLeast_padding hn hs

/-! ## Taps -/

/-- All taps of a window that stays inside the axis are on it. -/
theorem under?_valid {o k : Nat} (hs : 0 < w.stride) (ho : o < w.output .valid)
    (hk : k < w.kernel) : o * w.stride + k * w.dilation < w.length ∧
      (w.sliding .valid).under? o k = some (o * w.stride + k * w.dilation) := by
  have hends := (lt_output_valid hs).1 ho
  have hle : k * w.dilation ≤ (w.kernel - 1) * w.dilation :=
    Nat.mul_le_mul_right _ (Nat.le_sub_one_of_lt hk)
  have hcoordinate : w.coordinate .valid o k = ((o * w.stride + k * w.dilation : Nat) : Int) := by
    simp [coordinate, before, padding]
  refine ⟨by omega, ?_⟩
  rw [under?_sliding, hcoordinate, if_pos (by omega), Int.toNat_natCast]

/-- A window whose taps lie side by side has one on a cell of its axis. -/
theorem exists_under? {p : Padding} {o : Nat} (hk : 0 < w.kernel) (hd : w.dilation = 1)
    (ho : o < w.output p) : ∃ k < w.kernel, ∃ i < w.length, (w.sliding p).under? o k = some i := by
  obtain ⟨k, hlt, hin⟩ := w.exists_tap hk hd ho
  refine ⟨k, hlt, (w.coordinate p o k).toNat, by omega, ?_⟩
  rw [under?_sliding, if_pos hin]

/-- The windows on an axis.  Their number and the padding are computed as long as
    the sizes are words; windows without gaps have a tap on the input, and those
    that stay inside it have all of theirs there. -/
theorem axis_geometry (w : WindowAxis) (p : Padding) (hk : 0 < w.kernel) (hs : 0 < w.stride) :
    ((∃ a, p.axis w.length w.kernel w.dilation w.stride = .ok a) ↔ w.Fits p) ∧
    ∀ a, p.axis w.length w.kernel w.dilation w.stride = .ok a →
      (p = .valid → a.Inside w) ∧
      (p = .same → 0 < w.length → a.Covering w) ∧
      (w.dilation = 1 → ∀ o < a.output, ∃ k < w.kernel, ∃ i < w.length,
        (SlidingAxis.mk a w.stride w.dilation).under? o k = some i) ∧
      (p = .valid → ∀ o < a.output, ∀ k < w.kernel, o * w.stride + k * w.dilation < w.length ∧
        (SlidingAxis.mk a w.stride w.dilation).under? o k =
          some (o * w.stride + k * w.dilation)) := by
  constructor
  · constructor
    · rintro ⟨a, h⟩
      exact ((axis_eq_ok_iff hk hs).1 h).1
    · intro hfits
      exact ⟨_, (axis_eq_ok_iff hk hs).2 ⟨hfits, rfl⟩⟩
  · intro a h
    obtain ⟨-, rfl⟩ := (axis_eq_ok_iff hk hs).1 h
    refine ⟨?_, ?_, ?_, ?_⟩
    · rintro rfl
      exact w.inside hs
    · rintro rfl hn
      exact covering hn hs
    · intro hd o ho
      exact exists_under? hk hd ho
    · rintro rfl o ho k hlt
      exact under?_valid hs ho hlt

/-- Three taps in steps of two over five cells need a padding cell on either
    side; three taps with gaps stay inside of seven cells at three places. -/
theorem axis_geometry_of_five_and_seven :
    (Padding.same.axis 5 3 1 2 = .ok ⟨5, 3, 1, 1⟩ ∧
      PaddedAxis.Covering ⟨5, 3, 1, 1⟩ ⟨5, 3, 1, 2⟩ ∧
      ∀ o < 3, ∃ k < 3, ∃ i < 5, (SlidingAxis.mk ⟨5, 3, 1, 1⟩ 2 1).under? o k = some i) ∧
    (Padding.valid.axis 7 3 2 1 = .ok ⟨7, 3, 0, 0⟩ ∧
      PaddedAxis.Inside ⟨7, 3, 0, 0⟩ ⟨7, 3, 2, 1⟩ ∧
      ∀ o < 3, ∀ k < 3, o * 1 + k * 2 < 7 ∧
        (SlidingAxis.mk ⟨7, 3, 0, 0⟩ 1 2).under? o k = some (o * 1 + k * 2)) := by
  have hsame : Padding.same.axis 5 3 1 2 = .ok ⟨5, 3, 1, 1⟩ := rfl
  have hvalid : Padding.valid.axis 7 3 2 1 = .ok ⟨7, 3, 0, 0⟩ := rfl
  obtain ⟨-, hfive⟩ := axis_geometry ⟨5, 3, 1, 2⟩ .same (by decide) (by decide)
  obtain ⟨-, hseven⟩ := axis_geometry ⟨7, 3, 2, 1⟩ .valid (by decide) (by decide)
  obtain ⟨-, hcovering, htap, -⟩ := hfive _ hsame
  obtain ⟨hinside, -, -, htaps⟩ := hseven _ hvalid
  exact ⟨⟨hsame, hcovering rfl (by decide), htap rfl⟩, hvalid, hinside rfl, htaps rfl⟩

end WindowAxis
end Neuroform

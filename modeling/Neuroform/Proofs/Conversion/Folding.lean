/-
  Neuroform — normalizations with fixed statistics fold to a scale and an offset.

  If the factors and offsets of a normalization match its statistics
  (`BatchNorm.Matching`), there is a factor and an offset for every entry that
  together normalize a value (`BatchNorm.exists_affine`).  Repeated over the
  places of a sample, on the axis that is counted on the batch, they normalize
  the samples in the rows of a table (`BatchNorm.Matching.folded`).
-/
import Neuroform.Proofs.Conversion.Affine
import Neuroform.Proofs.Rational

namespace Neuroform

theorem stretchWith_of_length {α : Type} {f : α → α → α} {xs ys : List α}
    (h : xs.length = ys.length) : stretchWith f xs ys = .ok (List.zipWith f xs ys) :=
  if_pos h

theorem getD_zipWith {α : Type} [Zero α] {f : α → α → α} {xs ys : List α} {k : Nat}
    (hx : k < xs.length) (hy : k < ys.length) :
    (List.zipWith f xs ys).getD k 0 = f (xs.getD k 0) (ys.getD k 0) := by
  simp [List.getD_eq_getElem?_getD, hx, hy]

namespace BatchNorm

section
variable {α : Type}

/-- A normalization of one axis whose factors and offsets are as many as its
    statistics. -/
structure Matching (n : BatchNorm α) (axis : Int) : Prop where
  axis : n.axis = [axis]
  variance : n.variance.length = n.mean.length
  gamma : ∀ gamma ∈ n.gamma, gamma.length = n.mean.length
  beta : ∀ beta ∈ n.beta, beta.length = n.mean.length

/-- Accepted samples have as many places on the axis as there are statistics.
    The axis is counted on the batch, whatever its sign; on the samples it is one
    place further in front. -/
theorem Matching.axis_eq {n : BatchNorm α} {axis : Int} {s : Shape} {dims : List Nat}
    {outs : List Shape} (hn : n.Matching axis) (hs : s.Samples dims)
    (ho : n.outputShapes [s] = .ok outs) (hbatch : axisIndex axis s.rank ≠ .ok 0) :
    ∃ a, axisIndex axis (dims.length + 1) = .ok (a + 1) ∧ dims.getD a 0 = n.mean.length := by
  obtain ⟨batch, hdims⟩ := hs
  have hrank : s.rank = dims.length + 1 := Shape.Samples.rank ⟨batch, hdims⟩
  simp only [outputShapes, hn.axis, bind_eq_ok, onlyInput_eq_ok, List.cons.injEq, and_true,
    List.forIn_cons, List.forIn_nil] at ho
  obtain ⟨_, rfl, _, ⟨step, ⟨place, hplace, hlength⟩, -⟩, -⟩ := ho
  rw [hrank] at hplace hbatch
  cases place with
  | zero => exact absurd hplace hbatch
  | succ a =>
    have ha : a < dims.length := Nat.lt_of_succ_lt_succ (axisIndex_lt hplace)
    have hentry : (s.dims[a + 1]?).join = some dims[a] := by simp [hdims, ha]
    rw [hentry] at hlength
    obtain ⟨_, hd, -⟩ := bind_eq_ok.1 hlength
    refine ⟨a, hplace, ?_⟩
    rw [List.getD_eq_getElem _ _ ha]
    exact require_eq_ok.1 hd

end

section
variable {α : Type} [Field α] [LinearOrder α] [Elementary α] [Printed α] {n : BatchNorm α}
  {axis : Int}

/-- A value with the mean taken away and divided by the deviation of an entry,
    times gamma (one if absent) plus beta (zero if absent). -/
def normalized (n : BatchNorm α) (k : Nat) (v : α) : α :=
  n.gamma.elim 1 (·.getD k 0) * (v - n.mean.getD k 0) /
    Elementary.sqrt (n.variance.getD k 0 + n.epsilon) + n.beta.elim 0 (·.getD k 0)

theorem Matching.exists_scale (hn : n.Matching axis) : ∃ scale, n.scale = .ok scale ∧
    scale.length = n.mean.length ∧ ∀ k < n.mean.length, scale.getD k 0 =
      n.gamma.elim 1 (·.getD k 0) / Elementary.sqrt (n.variance.getD k 0 + n.epsilon) := by
  have hdeviation : ∀ k < n.mean.length,
      (n.variance.map fun v => Elementary.sqrt (v + n.epsilon)).getD k 0 =
        Elementary.sqrt (n.variance.getD k 0 + n.epsilon) := fun k hk => by
    simp [List.getD_eq_getElem?_getD, hn.variance ▸ hk]
  unfold scale
  cases hgamma : n.gamma with
  | none =>
    refine ⟨_, rfl, by simp [hn.variance], fun k hk => ?_⟩
    simp [List.getD_eq_getElem?_getD, hn.variance ▸ hk]
  | some gamma =>
    have hlength := hn.gamma gamma hgamma
    refine ⟨_, stretchWith_of_length (by simp [hlength, hn.variance]),
      by simp [hlength, hn.variance], fun k hk => ?_⟩
    rw [getD_zipWith (hlength ▸ hk) (by simpa [hn.variance] using hk), hdeviation k hk]
    rfl

/-- The factor and the offset of an entry normalize. -/
theorem Matching.exists_affine (hn : n.Matching axis) : ∃ scale offset,
    n.affine = .ok (scale, offset) ∧ scale.length = n.mean.length ∧
      offset.length = n.mean.length ∧ ∀ k < n.mean.length, ∀ v,
        scale.getD k 0 * v + offset.getD k 0 = n.normalized k v := by
  obtain ⟨scale, hscale, hlength, hvalue⟩ := hn.exists_scale
  have hmoved := stretchWith_of_length (f := (· * ·)) hlength
  have hcount : (List.zipWith (· * ·) scale n.mean).length = n.mean.length := by simp [hlength]
  have hmove : ∀ k < n.mean.length, (List.zipWith (· * ·) scale n.mean).getD k 0 =
      scale.getD k 0 * n.mean.getD k 0 := fun k hk => getD_zipWith (hlength ▸ hk) hk
  cases hbeta : n.beta with
  | none =>
    refine ⟨scale, (List.zipWith (· * ·) scale n.mean).map (- ·), ?_, hlength, by simp [hlength],
      fun k hk v => ?_⟩
    · rw [affine, hbeta]
      exact bind_eq_ok.2 ⟨_, hscale, bind_eq_ok.2 ⟨_, hmoved, rfl⟩⟩
    · have hoffset : ((List.zipWith (· * ·) scale n.mean).map (- ·)).getD k 0 =
          -(scale.getD k 0 * n.mean.getD k 0) := by
        rw [← hmove k hk]
        simp [List.getD_eq_getElem?_getD, hlength, hk]
      rw [hoffset, hvalue k hk, normalized, hbeta, Option.elim_none]
      ring
  | some beta =>
    have hfits := hn.beta beta hbeta
    refine ⟨scale, List.zipWith (· - ·) beta (List.zipWith (· * ·) scale n.mean), ?_, hlength,
      by simp [hlength, hfits], fun k hk v => ?_⟩
    · rw [affine, hbeta]
      exact bind_eq_ok.2 ⟨_, hscale, bind_eq_ok.2 ⟨_, hmoved, bind_eq_ok.2
        ⟨_, stretchWith_of_length (hfits.trans hcount.symm), rfl⟩⟩⟩
    · rw [getD_zipWith (hfits ▸ hk) (hcount ▸ hk), hmove k hk, hvalue k hk, normalized, hbeta,
        Option.elim_some]
      ring

omit [Field α] [LinearOrder α] [Elementary α] [Printed α] in
/-- Values of an axis that has no more places than values are repeated. -/
theorem exists_spread [Scalar α] {values : List α} {dims : List Nat} {a : Nat}
    (hroom : requireRoom valueBytes dims = .ok ()) (h : dims.getD a 0 ≤ values.length) :
    ∃ spreaded, Rule.spread values dims a = .ok spreaded ∧ spreaded.length = volume dims ∧
      ∀ p ∈ positions dims, spreaded.getD (offset dims p) 0 = values.getD (p.getD a 0) 0 := by
  have hspread : Rule.spread values dims a =
      .ok ((positions dims).map fun p => values.getD (p.getD a 0) 0) :=
    bind_eq_ok.2 ⟨(), hroom, if_pos (.inr h)⟩
  exact ⟨_, hspread, Workspace.spread_eq_ok hspread⟩

/-- A batch is normalized value by value. -/
theorem Matching.exists_forward (hn : n.Matching axis) {x : Grid α} {a : Nat}
    (haxis : axisIndex axis x.rank = .ok a) (hlength : x.shape.getD a 0 = n.mean.length) :
    ∃ y, n.forward [x] = .ok [y] ∧ y.shape = x.shape ∧
      ∀ p ∈ positions x.shape, y.value p = n.normalized (p.getD a 0) (x.value p) := by
  obtain ⟨scale, offset, haffine, hscale, hoffset, hvalue⟩ := hn.exists_affine
  refine ⟨Grid.ofFn x.shape fun p =>
    scale.getD (p.getD a 0) 0 * x.value p + offset.getD (p.getD a 0) 0, ?_, rfl, fun p hp => ?_⟩
  · rw [forward, hn.axis]
    exact bind_eq_ok.2 ⟨x, onlyInput_eq_ok.2 rfl, bind_eq_ok.2 ⟨a, haxis, bind_eq_ok.2
      ⟨_, haffine, if_pos (by rw [hlength, hscale, hoffset, min_self])⟩⟩⟩
  · rw [Grid.value_ofFn _ hp, hvalue _ (hlength ▸ getD_lt_of_mem_positions hp (axisIndex_lt haxis))]

/-- **Normalizations fold.**  The factors and offsets of a normalization with
    matching statistics are repeated over the places of every accepted sample
    that memory can hold.  A table of samples in rows, scaled by the factors and
    moved by the offsets, holds the normalized samples, every value of which is
    normalized by the statistics of its place on the axis. -/
theorem Matching.folded (hn : n.Matching axis) {s : Shape} {dims : List Nat} {outs : List Shape}
    (hs : s.Samples dims) (ho : n.outputShapes [s] = .ok outs)
    (hbatch : axisIndex axis s.rank ≠ .ok 0) (hroom : requireRoom valueBytes dims = .ok ()) :
    ∃ a scale offset scales offsets, axisIndex axis (dims.length + 1) = .ok (a + 1) ∧
      n.affine = .ok (scale, offset) ∧ Rule.spread scale dims a = .ok scales ∧
      Rule.spread offset dims a = .ok offsets ∧
      ∀ (b : Nat) (x : Grid α) (t : Table α), t.Holds b dims x →
        ∃ y u, n.forward [x] = .ok [y] ∧ (Transform.diagonal scales).apply t = .ok u ∧
          (Table.ofFn b (volume dims) fun i j => u.value i j + offsets.getD j 0).Holds b dims y ∧
          ∀ i < b, ∀ p ∈ positions dims,
            y.value (i :: p) = n.normalized (p.getD a 0) (x.value (i :: p)) := by
  obtain ⟨a, haxis, hlength⟩ := hn.axis_eq hs ho hbatch
  obtain ⟨scale, offset, haffine, hscale, hoffset, hvalue⟩ := hn.exists_affine
  obtain ⟨scales, hscales, hcount, hscaleAt⟩ :=
    exists_spread hroom (hlength.trans hscale.symm).le
  obtain ⟨offsets, hoffsets, -, hoffsetAt⟩ :=
    exists_spread hroom (hlength.trans hoffset.symm).le
  refine ⟨a, scale, offset, scales, offsets, haxis, haffine, hscales, hoffsets,
    fun b x t ht => ?_⟩
  have hrank : x.rank = dims.length + 1 := by rw [Grid.rank, ht.shape, List.length_cons]
  obtain ⟨y, hy, hshape, hnormal⟩ := hn.exists_forward (x := x) (hrank ▸ haxis)
    (by rw [ht.shape, List.getD_cons_succ, hlength])
  have hnormal : ∀ i < b, ∀ p ∈ positions dims,
      y.value (i :: p) = n.normalized (p.getD a 0) (x.value (i :: p)) := fun i hi p hp => by
    rw [hnormal _ (ht.shape ▸ cons_mem_positions.2 ⟨hi, hp⟩), List.getD_cons_succ]
  obtain ⟨u, hu, hread⟩ := apply_diagonal (f := t.value)
    ⟨ht.rows, ht.columns.trans hcount.symm, fun _ _ _ _ => rfl⟩
  have ha : a < dims.length := Nat.lt_of_succ_lt_succ (axisIndex_lt haxis)
  refine ⟨y, u, hy, hu, Table.holds_of_values (hshape.trans ht.shape) rfl rfl
    fun i hi p hp => ?_, hnormal⟩
  have hplace := offset_lt hp
  rw [Table.value_ofFn _ hi hplace, hread.value i hi _ (hcount ▸ hplace), ht.value,
    hscaleAt p hp, hoffsetAt p hp, mul_comm,
    hvalue _ (hlength ▸ getD_lt_of_mem_positions hp ha), hnormal i hi p hp]

/-- Statistics of two rows, which are the second axis of a batch from the end. -/
def twoRows : BatchNorm ℚ := ⟨[-2], 1, some [4, 15], some [1, 0], [1, 2], [1, 4]⟩

/-- Two rows of two values, normalized by a factor and an offset for each row. -/
theorem Matching.folded_twoRows :
    twoRows.Matching (-2) ∧ Shape.Samples ⟨[none, some 2, some 2]⟩ [2, 2] ∧
    twoRows.outputShapes [⟨[none, some 2, some 2]⟩] = .ok [⟨[none, some 2, some 2]⟩] ∧
    axisIndex (-2) 3 ≠ .ok 0 ∧ requireRoom valueBytes [2, 2] = .ok () ∧
    ∃ y u, twoRows.forward [⟨[1, 2, 2], #[1, 2, 3, 4], rfl⟩] = .ok [y] ∧
      (Transform.diagonal [2, 2, 3, 3]).apply ⟨1, 4, #[1, 2, 3, 4], rfl⟩ = .ok u ∧
      (Table.ofFn 1 4 fun i j =>
        u.value i j + ([-1, -1, -6, -6] : List ℚ).getD j 0).Holds 1 [2, 2] y ∧
      y.value [0, 1, 0] = 15 * (3 - 2) / (4 + 1) + 0 := by
  have hmatching : twoRows.Matching (-2) := ⟨rfl, rfl, by rintro _ ⟨⟩; rfl, by rintro _ ⟨⟩; rfl⟩
  have hsamples : Shape.Samples ⟨[none, some 2, some 2]⟩ [2, 2] := ⟨none, rfl⟩
  have haxis : axisIndex (-2) 3 = .ok 1 := rfl
  have hbatch : axisIndex (-2) 3 ≠ .ok 0 := by simp [haxis]
  refine ⟨hmatching, hsamples, rfl, hbatch, rfl, ?_⟩
  obtain ⟨a, scale, offset, scales, offsets, hplace, haffine, hscales, hoffsets, h⟩ :=
    hmatching.folded hsamples rfl hbatch rfl
  obtain rfl : 0 = a := Nat.succ.inj (Except.ok.inj (haxis.symm.trans hplace))
  have hvalues : twoRows.affine.toOption = some ([2, 3], [-1, -6]) := by decide +kernel
  obtain ⟨rfl, rfl⟩ := Prod.mk.inj (Except.ok.inj ((toOption_eq_some.1 hvalues).symm.trans haffine))
  obtain rfl := Except.ok.inj hscales
  obtain rfl := Except.ok.inj hoffsets
  obtain ⟨y, u, hy, hu, hsum, hvalue⟩ := h 1 ⟨[1, 2, 2], #[1, 2, 3, 4], rfl⟩
    ⟨1, 4, #[1, 2, 3, 4], rfl⟩ ⟨rfl, rfl, rfl, rfl⟩
  exact ⟨y, u, hy, hu, hsum, hvalue 0 Nat.one_pos [1, 0] (by decide)⟩

end
end BatchNorm
end Neuroform

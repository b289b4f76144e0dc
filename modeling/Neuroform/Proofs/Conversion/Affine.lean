/-
  Neuroform — conversion of dense layers and normalizations realizes them.

  The kernel of a dense layer is on the connection from its input, and the
  target holds the biases.  A normalization scales its input on the way to a
  passthrough node, to which a constant node adds the offsets.
-/
import Neuroform.Proofs.Conversion.Pointwise

namespace Neuroform

section
variable {α : Type} [Scalar α]

omit [Scalar α] in
theorem Dense.outputShapes_one {d : Dense α} {s : Shape} {k : Nat} {outs : List Shape}
    (hs : s.Samples [k]) (h : d.outputShapes [s] = .ok outs) :
    k = d.kernel.rows ∧ ∀ s' ∈ outs, s'.Samples [d.units] := by
  obtain ⟨batch, hs⟩ := hs
  simp only [Dense.outputShapes, bind_eq_ok, onlyInput_eq_ok, List.cons.injEq, and_true,
    orRefuse_eq_ok] at h
  obtain ⟨_, rfl, last, hlast, h⟩ := h
  obtain rfl : some k = last := by simpa [hs] using hlast
  obtain ⟨_, hk, h⟩ := bind_eq_ok.1 h
  obtain rfl := pure_eq_ok.1 h
  exact ⟨require_eq_ok.1 hk, fun s' hs' => ⟨batch, by simp [List.mem_singleton.1 hs', hs]⟩⟩

/-- What a dense layer makes of samples of one axis, before its activation. -/
theorem Dense.value_moved {d : Dense α} {x moved z : Grid α} {rows : Table α} {b : Nat}
    (hx : x.shape = [b, d.kernel.rows])
    (hrows : Table.ofGrid (x.size / max d.kernel.rows 1) d.kernel.rows x = .ok rows)
    (hmoved : (match d.bias with
        | none => .ok (rows.mul d.kernel).toGrid
        | some bias => (rows.mul d.kernel).toGrid.absorb (· + ·) (Grid.ofList bias)) =
          (.ok moved : Outcome (Grid α)))
    (hz : moved.reshape (d.outputDims x.shape) = .ok z)
    (hbias : ∀ bs ∈ d.bias, bs.length = d.units) {i j : Nat} (hi : i < b) (hj : j < d.units) :
    z.value [i, j] = (d.bias.elim id fun bs v => v + bs.getD j 0)
      (Table.dot d.kernel.rows (fun k => x.value [i, k]) fun k => d.kernel.value k j) := by
  obtain ⟨-, hzs, hzc⟩ := Grid.reshape_eq_ok.1 hz
  rw [Dense.outputDims, if_neg (by simp [hx]), hx] at hzs
  -- there are values only if every sample is a row
  have hmapped : moved.shape = [rows.rows, d.units] := by
    cases hb : d.bias with
    | none =>
      rw [hb] at hmoved
      obtain rfl := Except.ok.inj hmoved
      rfl
    | some bias =>
      rw [hb] at hmoved
      exact Grid.shape_absorb hmoved
  have hcount : rows.rows = b := by
    have hsize := z.size_cells
    rw [hzc, moved.size_cells, hmapped, hzs] at hsize
    have hsize : rows.rows * d.units = b * d.units := by simpa using hsize
    exact Nat.eq_of_mul_eq_mul_right (by omega) hsize
  obtain ⟨-, hcolumns, hcells⟩ := Table.ofGrid_eq_ok.1 hrows
  have hproduct : (rows.mul d.kernel).value i j =
      Table.dot d.kernel.rows (fun k => x.value [i, k]) fun k => d.kernel.value k j := by
    have hread : rows.value i = fun k => x.value [i, k] := funext fun k => by
      simp [Table.value, Grid.value, hcolumns, hcells, hx, offset]
    rw [Table.mul, Table.value_ofFn _ (hcount.symm ▸ hi) (show j < d.kernel.columns from hj),
      hcolumns, hread]
  have hmove : z.value [i, j] = moved.value [i, j] := by
    simp [Grid.value, hzc, hzs, hmapped, offset]
  rw [hmove, ← hproduct, ← Table.value_toGrid]
  cases hb : d.bias with
  | none =>
    rw [hb] at hmoved
    obtain rfl := Except.ok.inj hmoved
    rfl
  | some bias =>
    rw [hb] at hmoved
    have hp : [i, j] ∈ positions (rows.mul d.kernel).toGrid.shape :=
      mem_positions.2 (.cons (hcount.symm ▸ hi) (.cons hj .nil))
    rw [(Grid.value_absorb hmoved).2 _ hp, Grid.stretchedValue_row i (hbias bias hb ▸ hj)]
    rfl

end

namespace Workspace

open Rule

variable {α : Type} [Field α] [LinearOrder α] [Elementary α] [Printed α] {w w' : Workspace α}
  {fed : States α} {b : Nat} {i : InvocationId} {ins : List (List Nat)}
  {xs : List (Grid α)} {out : List Nat} {x y : Grid α} {v : View}

/-- A dense layer on samples of one axis is the target of its mapped input. -/
theorem Staged.realized_dense {d : Dense α} (hs : Staged w fed b i (.dense d) ins xs out y)
    (hone : ∀ dims ∈ ins, dims.length = 1)
    (h : (convertDense d i).exec w = (.ok v, w')) (hfits : w'.network.sketch.Fits b) :
    Realized w w' fed b v out y := by
  obtain ⟨dims, x, s, s', rfl, rfl, hx, hdims, ho, hout⟩ := hs.single fun shapes outs ho => by
    obtain ⟨s, hs, -⟩ := bind_eq_ok.1 ho
    exact ⟨s, onlyInput_eq_ok.1 hs⟩
  obtain ⟨k, rfl⟩ := List.length_eq_one_iff.1 (hone dims (by simp))
  obtain ⟨rfl, hunits⟩ := Dense.outputShapes_one hdims ho
  obtain rfl := hout.unique (hunits s' (by simp))
  obtain ⟨rows, moved, z, y', hrows, hmoved, hz, hy, hsingle⟩ := Dense.forward_eq_ok hs.makes
  obtain rfl := List.singleton_inj.1 hsingle
  obtain ⟨output, w₁, ht, h⟩ := Step.exec_bind_eq_ok.1 h
  obtain ⟨c, w₂, hw, h⟩ := Step.exec_bind_eq_ok.1 h
  obtain ⟨rfl, rfl⟩ := Step.exec_pure_eq_ok.1 h
  obtain ⟨hbias, rfl, hd⟩ := hs.buildTarget ht
  obtain ⟨u, _, _, hdims', hx', hc, hd, -⟩ := hs.wireInput hd hw
  obtain rfl := Option.some.inj hdims'
  obtain rfl := Option.some.inj hx'
  obtain ⟨t, ht, hold⟩ := hd.steady (leadsFrom_target (by simp [Sketch.LeadsFrom, View.full])) hc
  obtain ⟨mapped, happly, hread⟩ := apply_dense d.kernel.transpose
    (f := t.value) ⟨hold.rows, hold.columns.trans (mul_one _), fun _ _ _ _ => rfl⟩
    (show requireRoom valueBytes [b, d.units] = .ok () by simpa using hd.room_target hfits)
  have hzs : z.shape = [b, d.units] := by
    rw [(Grid.reshape_eq_ok.1 hz).2.1, hx.shape]
    rfl
  refine hs.realized_wired (f := fun i j => Table.dot d.kernel.rows (t.value i)
    (d.kernel.transpose.value j)) hfits hd hbias (by simp [View.full]) ?_
    ⟨hzs, (Activation.shape_apply hy) ▸ hs.output.addressable⟩ (fun i hi p hp => ?_)
    (Nonlinearity.acts_native hy)
  · rw [volume_cons, volume_nil, mul_one]
    exact adds_full ht happly hread
  · obtain ⟨j, _, hj, hnil, rfl⟩ := List.forall₂_cons_right_iff.1 (mem_positions.1 hp)
    obtain rfl := List.forall₂_nil_right_iff.1 hnil
    have hplace : offset [d.units] [j] = j := by simp [offset]
    rw [Dense.value_moved hx.shape hrows hmoved hz
        (fun bs hbs => by simpa using hbias bs hbs) hi hj,
      hplace]
    have hdot : Table.dot d.kernel.rows (fun k => x.value [i, k]) (fun k => d.kernel.value k j) =
        Table.dot d.kernel.rows (t.value i) (d.kernel.transpose.value j) :=
      dot_congr (fun k _ => by simpa [offset] using (hold.value i [k]).symm)
        fun k hk => (Table.value_ofFn (fun j k => d.kernel.value k j) hj hk).symm
    cases d.bias with
    | none => exact hdot.trans (add_zero _).symm
    | some bias => exact congrArg (· + _) hdot

omit [Field α] [LinearOrder α] [Elementary α] [Printed α] in
/-- The values of an axis at the places of a box. -/
theorem spread_eq_ok [Scalar α] {values spreaded : List α} {dims : List Nat} {axis : Nat}
    (h : spread values dims axis = .ok spreaded) : spreaded.length = volume dims ∧
      ∀ p ∈ positions dims, spreaded.getD (offset dims p) 0 = values.getD (p.getD axis 0) 0 := by
  obtain ⟨_, -, h⟩ := bind_eq_ok.1 h
  split at h
  case isTrue =>
    obtain rfl := Except.ok.inj h
    refine ⟨by rw [List.length_map, length_positions], fun p hp => ?_⟩
    simp [getElem?_positions hp]
  case isFalse => simp at h

/-- A normalization is a passthrough node that the scaled input and the offsets
    are added up in. -/
theorem Staged.realized_batchNorm {n : BatchNorm α} {scale shift : List α}
    (haffine : n.affine = .ok (scale, shift))
    (hs : Staged w fed b i (.batchNorm n) ins xs out y)
    (h : (convertBatchNorm n.axis scale shift i).exec w = (.ok v, w'))
    (hfits : w'.network.sketch.Fits b) : Realized w w' fed b v out y := by
  obtain ⟨dims, x, s, s', rfl, rfl, hx, hdims, ho, hout⟩ := hs.single fun shapes outs ho => by
    obtain ⟨s, hs, -⟩ := BatchNorm.outputShapes_eq_ok ho
    exact ⟨s, hs⟩
  obtain ⟨_, hs', houts⟩ := BatchNorm.outputShapes_eq_ok ho
  obtain rfl := List.singleton_inj.1 hs'
  obtain rfl := List.singleton_inj.1 houts
  obtain rfl := hdims.unique hout
  obtain ⟨axis, place, _, _, haxis, hplace, haffine', hmade⟩ := BatchNorm.forward_eq_ok hs.makes
  obtain ⟨rfl, rfl⟩ := Prod.mk.inj (Except.ok.inj (haffine.symm.trans haffine'))
  have hy := List.singleton_inj.1 hmade
  rw [convertBatchNorm, Step.exec_get_bind] at h
  obtain ⟨dims', hdims', h⟩ := Step.exec_lift_bind_eq_ok.1 h
  obtain rfl := List.singleton_inj.1 (hs.inputDims dims' hdims')
  obtain ⟨axis', hhead, h⟩ := Step.exec_lift_bind_eq_ok.1 h
  obtain rfl : axis = axis' := by simpa [haxis] using orFault_eq_ok.1 hhead
  obtain ⟨place', hplace', h⟩ := Step.exec_lift_bind_eq_ok.1 h
  rw [hx.rank] at hplace
  obtain rfl := Except.ok.inj (hplace.symm.trans hplace')
  obtain ⟨_, hpos, h⟩ := Step.exec_lift_bind_eq_ok.1 h
  obtain ⟨scales, hscale, h⟩ := Step.exec_lift_bind_eq_ok.1 h
  obtain ⟨hscaled, hscale⟩ := spread_eq_ok hscale
  obtain ⟨shifts, hshift, h⟩ := Step.exec_lift_bind_eq_ok.1 h
  obtain ⟨hshifted, hshift⟩ := spread_eq_ok hshift
  obtain ⟨output, w₁, ht, h⟩ := Step.exec_bind_eq_ok.1 h
  obtain ⟨-, rfl, hd⟩ := hs.buildTarget ht
  rw [Step.exec_get_bind] at h
  obtain ⟨label, -, h⟩ := Step.exec_lift_bind_eq_ok.1 h
  obtain ⟨node, w₂, hn, h⟩ := Step.exec_bind_eq_ok.1 h
  obtain ⟨rfl, hdn⟩ := draws_addObject hn
  obtain ⟨_, w₃, hc, h⟩ := Step.exec_bind_eq_ok.1 h
  obtain ⟨hdc, -⟩ := draws_connect hc
  obtain ⟨_, w₄, hw, h⟩ := Step.exec_bind_eq_ok.1 h
  obtain ⟨rfl, rfl⟩ := Step.exec_pure_eq_ok.1 h
  obtain ⟨u, _, _, hu, hu', hcarried, hd', -⟩ := hs.wireInput ((hd.trans hdn).trans hdc) hw
  obtain rfl := Option.some.inj hu
  obtain rfl := Option.some.inj hu'
  have hnext : w₁.next = ⟨w.next.index + 1⟩ := hd.next
  -- the wires of the offsets and of the scaled input
  have hd : w.Draws (targetPart w.next dims none (.activation .linear) ++
      ⟨[.node (.constant shifts)], [⟨.full ⟨w.next.index + 1⟩, .full w.next, .identity⟩,
        ⟨.full u, .full w.next, .diagonal scales⟩]⟩) w₄ := hnext ▸ hd'
  obtain ⟨t, ht, hold⟩ := hd.steady (leadsFrom_target (by simp [Sketch.LeadsFrom, View.full]))
    hcarried
  have hnone : w₄.network.sketch.into ⟨w.next.index + 1⟩ = [] := by
    rw [hd.into hs.checked (Nat.le_add_right _ _), Sketch.into]
    simp [targetPart, View.full, (next_ne w 0).symm]
  obtain ⟨t', ht', hread'⟩ := settles_constant (b := b) (hd.kind? 1) hnone
    (hs.unfed ⟨w.next.index + 1⟩ (Nat.le_add_right _ _))
  refine hs.realized_target (f := fun i j => shifts.getD j 0 + t.value i j * scales.getD j 0)
    hfits hd
    (by simp) (fun e he => .inl ?_) (fun j hj => ?_) ?_ hs.output (fun i hi p hp => ?_) rfl
  · rcases List.mem_cons.1 he with rfl | he
    · rfl
    · rw [List.mem_singleton.1 he]
      rfl
  · obtain rfl : j = 0 := by simpa using hj
    exact ⟨t', ht'⟩
  · obtain ⟨scaled, happly, hread⟩ := apply_diagonal (hscaled ▸ hold.reads)
    have hall := (adds_full (o := w.next) (φ := .identity) (Sketch.steady_eq_some.2 ht') rfl
      (hshifted ▸ hread')).append
      (adds_full (o := w.next) ht happly (hscaled ▸ hread))
    rwa [Sketch.into, List.filter_eq_self.2 (by simp [View.full])]
  · have hmem : i :: p ∈ positions x.shape := hx.shape ▸ cons_mem_positions.2 ⟨hi, hp⟩
    obtain ⟨place, rfl⟩ := Nat.exists_eq_add_of_lt (require_eq_ok.1 hpos)
    rw [hy, Grid.value_ofFn _ hmem, hscale p hp, hshift p hp, hold.value]
    simp [add_comm, mul_comm]

end Workspace
end Neuroform

/-
  Neuroform — what objects make of their input, value by value.

  A passthrough node hands its input on.  An ensemble drives each neuron by its
  input times a gain plus a bias.  A tensor node reads the rows of its input as
  samples of a batch.
-/
import Neuroform.Proofs.Network.Carry

namespace Neuroform

variable {α : Type}

/-! ## Nodes and ensembles -/

theorem commonRev_row (r c : Nat) : Grid.commonRev [c, r] [c] = some [c, r] := by
  simp [Grid.commonRev]

/-- A table is combined with a list, which stretches to all of its rows. -/
theorem combine_row [Zero α] {x : Grid α} {r c : Nat} {f : Nat → Nat → α} {ys : List α}
    (φ : α → α → α) (hs : x.shape = [r, c]) (hy : ys.length = c)
    (hx : ∀ i < r, ∀ j < c, x.value [i, j] = f i j) :
    ∃ z, x.combine φ (Grid.ofList ys) = .ok z ∧ z.shape = [r, c] ∧
      ∀ i < r, ∀ j < c, z.value [i, j] = φ (f i j) (ys.getD j 0) := by
  have hcommon : Grid.commonShape? x.shape (Grid.ofList ys).shape = some [r, c] := by
    simp [Grid.commonShape?, hs, Grid.ofList, hy, commonRev_row]
  refine ⟨_, bind_eq_ok.2 ⟨_, orFault_eq_ok.2 hcommon, rfl⟩, rfl, fun i hi j hj => ?_⟩
  have hp : [i, j] ∈ positions [r, c] := by simp [mem_positions, hi, hj]
  have hleft : Grid.stretchedPosition x.shape [i, j] = [i, j] :=
    Grid.stretchedPosition_self (hs.symm ▸ hp)
  rw [Grid.value_ofFn _ hp, Grid.stretchedValue, hleft, hx i hi j hj,
    Grid.stretchedValue_row i (hy ▸ hj)]

section
variable [Scalar α] {input : Table α} {fed : Option (Table α)} {b n : Nat} {f : Nat → Nat → α}

theorem react_passthrough : (ObjectKind.node (.passthrough n)).react fed b input = .ok input := rfl

theorem react_constant (values : List α) : ∃ t,
    (ObjectKind.node (.constant values)).react none b input = .ok t ∧
      t.Reads b values.length fun _ j => values.getD j 0 :=
  ⟨Table.ofFn b values.length fun _ j => values.getD j 0, rfl, Table.reads_ofFn⟩

/-- The rates of the neurons of an ensemble. -/
theorem react_neurons {e : Ensemble α} (hg : e.gain.length = n) (hb : e.bias.length = n)
    (hi : input.Reads b n f) : ∃ t, (ObjectKind.neurons e).react fed b input = .ok t ∧
      t.Reads b n fun i j => e.neuron.rate (f i j * e.gain.getD j 0 + e.bias.getD j 0) := by
  obtain ⟨rfl, rfl, hv⟩ := hi
  obtain ⟨driven, hdriven, hds, hdv⟩ := combine_row (· * ·) (x := input.toGrid) rfl hg
    fun i hi j hj => (Table.value_toGrid input i j).trans (hv i hi j hj)
  obtain ⟨current, hcurrent, hcs, hcv⟩ := combine_row (· + ·) hds hb hdv
  obtain ⟨t, ht, hread⟩ := Table.exists_ofGrid (x := current.map e.neuron.rate)
    (f := fun i j => e.neuron.rate (f i j * e.gain.getD j 0 + e.bias.getD j 0)) hcs
    fun i hi j hj => by
      have hp : [i, j] ∈ positions current.shape := by simp [hcs, mem_positions, hi, hj]
      rw [Grid.value_map hp, hcv i hi j hj]
  have hrates : e.rates input = .ok (current.map e.neuron.rate) :=
    bind_eq_ok.2 ⟨driven, hdriven, bind_eq_ok.2 ⟨current, hcurrent, rfl⟩⟩
  have htable : Network.tableOf (current.map e.neuron.rate) = .ok t := by
    have hs : (current.map e.neuron.rate).shape = [input.rows, input.columns] := hcs
    rw [Network.tableOf, hs]
    exact ht
  exact ⟨t, bind_eq_ok.2 ⟨_, hrates, htable⟩, hread⟩

/-! ## Tensor nodes -/

omit [Scalar α] in
/-- A table that holds a batch is laid out as that batch. -/
theorem reshape_of_holds {dims : List Nat} {x : Grid α} (h : input.Holds b dims x)
    (ha : addressable (b :: dims)) : input.toGrid.reshape (b :: dims) = .ok x := by
  obtain ⟨rows, columns, cells, hs⟩ := input
  obtain ⟨shape, xcells, hx⟩ := x
  obtain ⟨hshape, rfl, rfl, hcells⟩ := h
  obtain rfl : shape = rows :: dims := hshape
  obtain rfl : cells = xcells := hcells
  exact dif_pos ⟨ha, hx.symm⟩

omit [Scalar α] in
/-- Samples of fitting size are the rows of a table. -/
theorem exists_holds {dims : List Nat} {y : Grid α} (hy : y.shape = b :: dims)
    (hn : volume dims = n) : ∃ t, Table.ofGrid b n y = .ok t ∧ t.Holds b dims y := by
  have hsize : y.cells.size = b * n := by rw [y.size_cells, hy, volume_cons, hn]
  exact ⟨⟨b, n, y.cells, hsize⟩, dif_pos hsize, hy, rfl, hn.symm, rfl⟩

theorem react_tensorNode {node : TensorNode α} {x y : Grid α} {dims : List Nat}
    (hx : input.Holds b node.shapeIn x) (ha : addressable (b :: node.shapeIn))
    (hxy : node.function.eval x = .ok y) (hy : y.shape = b :: dims) (hya : addressable y.shape)
    (hn : volume dims = node.sizeOut) :
    ∃ t, (ObjectKind.tensorNode node).react fed b input = .ok t ∧ t.Holds b dims y := by
  obtain ⟨t, ht, hold⟩ := exists_holds hy hn
  have hsize : y.size = b * node.sizeOut := by
    rw [Grid.size, y.size_cells, hy, volume_cons, hn]
  have hcount := ofNat_of_addressable hya
  rw [hy, volume_cons, hn] at hcount
  refine ⟨t, bind_eq_ok.2 ⟨x, reshape_of_holds hx ha, bind_eq_ok.2 ⟨y, within_eq_ok.2 hxy,
    bind_eq_ok.2 ⟨_, hcount, bind_eq_ok.2 ⟨(), require_eq_ok.2 hsize, ht⟩⟩⟩⟩, hold⟩

end
end Neuroform

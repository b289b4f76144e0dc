/-
  Neuroform — primitive layers on batches.
-/
import Neuroform.Proofs.Layer.Rearrangement
import Neuroform.Proofs.Layer.Sampling

namespace Neuroform

variable {α : Type} [Scalar α]

/-- From batches of the samples that its input shapes stand for, an operation
    makes one array of the shape that it declares. -/
def Operation.Declares (op : Operation α) (b : Nat) (shapes : List Shape) : Prop :=
  ∀ {ins : List (List Nat)} {outs : List Shape} {xs ys : List (Grid α)},
    List.Forall₂ Shape.Samples shapes ins → op.outputShapes shapes = .ok outs → 0 < b →
    List.Forall₂ (fun dims x => Grid.Batch x b dims) ins xs → op.forward xs = .ok ys →
    ∃ s y dims, outs = [s] ∧ ys = [y] ∧ y.Batch b dims ∧ s.matchesDims y.shape

/-- A layer is applied to samples as they are meant to be: what an input layer
    passes on has its declared dimensions, a dense layer without an axis of
    features behind the batch has a unit for each sample, batches are not joined,
    up-sampling repeats the nearest value unless it is one of images, and a layer
    of the caller makes one array of the shape that it declares. -/
def Primitive.Regular (b : Nat) (shapes : List Shape) : Primitive α → Prop
  | .input l => ∀ s ∈ shapes, s.withoutBatch = l.shape.withoutBatch
  | .dense d => ∀ s ∈ shapes, s.rank = 1 → d.units = b
  | .concatenate c => ∀ s ∈ shapes, axisIndex c.axis s.rank ≠ .ok 0
  | .upSampling u => u.rank ≠ 2 → u.interpolation = .nearest
  | .custom op => op.Declares b shapes
  | _ => True

/-- The dimensions of an array of a shape are those that are known of it. -/
theorem Shape.samples_of_matchesDims {s : Shape} {b : Nat} {dims known : List Nat}
    (h : s.matchesDims (b :: dims)) (hk : s.withoutBatch = .concrete known) : s.Samples dims := by
  obtain ⟨_ | ⟨d, ds⟩⟩ := s
  · simp [matchesDims] at h
  obtain rfl : ds = known.map some := congrArg Shape.dims hk
  refine ⟨d, congrArg (fun ds : List Nat => d :: ds.map some) ?_⟩
  simp only [matchesDims, List.length_cons, List.length_map, Bool.and_eq_true, beq_iff_eq,
    Nat.add_right_cancel_iff, List.zip_cons_cons, List.all_cons] at h
  obtain ⟨hlen, -, hall⟩ := h
  refine List.forall₂_eq_eq_eq ▸ List.forall₂_iff_zip.2 ⟨hlen, fun {k n} hkn => ?_⟩
  have hmem : (some k, n) ∈ (known.map some).zip dims := by
    rw [List.zip_map_left]
    exact List.mem_map_of_mem (f := Prod.map some id) hkn
  simpa using List.all_eq_true.1 hall _ hmem

omit [Scalar α] in
/-- An operation that declares all dimensions of its output makes batches. -/
theorem Operation.Declares.batches {op : Operation α} {b : Nat} {shapes : List Shape}
    (h : op.Declares b shapes) (hknown : ∀ s, op.outputShapes shapes = .ok [s] →
      ∃ dims, s.withoutBatch = .concrete dims) : op.Batches b shapes := by
  intro ins outs xs ys hins ho hb hxs hf
  obtain ⟨s, y, dims, rfl, rfl, hy, hmatches⟩ := h hins ho hb hxs hf
  obtain ⟨dims', hdims⟩ := hknown s ho
  rw [hy.shape] at hmatches
  exact ⟨s, dims, y, rfl, Shape.samples_of_matchesDims hmatches hdims, rfl, hy⟩

/-- Every regular layer makes one batch of its output shape, if the dimensions
    are known that a layer of the caller declares. -/
theorem Primitive.Regular.batches {b : Nat} {shapes : List Shape} {p : Primitive α}
    (h : p.Regular b shapes)
    (hknown : ∀ op, p = .custom op → ∀ s, op.outputShapes shapes = .ok [s] →
      ∃ dims, s.withoutBatch = .concrete dims) : p.operation.Batches b shapes := by
  cases p with
  | input l => exact l.batches_operation h
  | dense d => exact Dense.batches_operation h
  | conv c => exact Conv.batches_operation
  | pool p => exact Pool.batches_operation
  | activation l => exact ActivationLayer.batches_operation
  | merge m => exact Merge.batches_operation
  | batchNorm n => exact BatchNorm.batches_operation
  | concatenate c => exact Concatenate.batches_operation h
  | flatten => exact batches_flatten
  | reshape r => exact Reshape.batches_operation
  | relu l => exact Relu.batches_operation
  | leakyRelu l => exact LeakyRelu.batches_operation
  | upSampling u => exact UpSampling.batches_operation
  | zeroPadding z => exact ZeroPadding.batches_operation
  | custom op => exact Operation.Declares.batches h (hknown op rfl)

end Neuroform

/-
  Neuroform — layers of pointwise, affine and moving kind on batches.

  Each of these layers makes one batch of the samples that its output shape
  stands for (`Operation.Batches`), a dense layer if there are sample axes and a
  concatenation if its axis is one of the samples.
-/
import Neuroform.Proofs.Layer.Batch

namespace Neuroform

variable {α : Type} {shapes : List Shape} {b : Nat}

/-- An operation with a single input. -/
theorem Operation.batches_of_only {op : Operation α}
    (only : ∀ outs, op.outputShapes shapes = .ok outs → ∃ s, shapes = [s])
    (h : ∀ {s : Shape} {dims : List Nat} {outs : List Shape} {x : Grid α}
      {ys : List (Grid α)}, shapes = [s] → s.Samples dims → op.outputShapes [s] = .ok outs → 0 < b →
      x.Batch b dims → op.forward [x] = .ok ys →
      ∃ s' out y, outs = [s'] ∧ s'.Samples out ∧ ys = [y] ∧ y.Batch b out) :
    op.Batches b shapes := by
  intro ins outs xs ys hs ho hb hx hf
  obtain ⟨s, rfl⟩ := only outs ho
  obtain ⟨dims, _, hdims, hnil, rfl⟩ := List.forall₂_cons_left_iff.1 hs
  obtain rfl := List.forall₂_nil_left_iff.1 hnil
  obtain ⟨x, _, hxd, hnil, rfl⟩ := List.forall₂_cons_left_iff.1 hx
  obtain rfl := List.forall₂_nil_left_iff.1 hnil
  exact h rfl hdims ho hb hxd hf

/-- An operation with a single input, whose shape it keeps. -/
theorem Operation.batches_of_sameShape {op : Operation α} {layer : String}
    (same : op.outputShapes = sameShape layer)
    (h : ∀ {x : Grid α} {ys : List (Grid α)}, op.forward [x] = .ok ys →
      ∃ y, ys = [y] ∧ y.shape = x.shape) : op.Batches b shapes := by
  refine Operation.batches_of_only (fun outs ho => ?_) fun {s dims outs x ys} _ hs ho _ hx hf => ?_
  · rw [same] at ho
    obtain ⟨s, hs, -⟩ := bind_eq_ok.1 ho
    exact ⟨s, onlyInput_eq_ok.1 hs⟩
  · rw [same] at ho
    obtain ⟨_, hs', ho⟩ := bind_eq_ok.1 ho
    obtain rfl := List.singleton_inj.1 (onlyInput_eq_ok.1 hs')
    obtain rfl := pure_eq_ok.1 ho
    obtain ⟨y, rfl, hy⟩ := h hf
    exact ⟨s, dims, y, rfl, hs, rfl, hy.trans hx.shape, hy ▸ hx.addressable⟩

/-! ## Pointwise layers -/

/-- What an input layer passes on has its declared shape. -/
theorem InputLayer.batches_operation {l : InputLayer}
    (h : ∀ s ∈ shapes, s.withoutBatch = l.shape.withoutBatch) :
    (l.operation : Operation α).Batches b shapes := by
  intro ins outs xs ys hs ho hb hx hf
  obtain ⟨x, hhead, hf⟩ := bind_eq_ok.1 hf
  obtain rfl := pure_eq_ok.1 hf
  rw [orRefuse_eq_ok] at hhead
  obtain ⟨xs, rfl⟩ := List.head?_eq_some_iff.1 hhead
  obtain ⟨dims, _, hxd, -, rfl⟩ := List.forall₂_cons_right_iff.1 hx
  obtain ⟨s, _, hsd, -, rfl⟩ := List.forall₂_cons_right_iff.1 hs
  simp only [operation, InputLayer.outputShapes, bind_eq_ok, List.head?_cons, require_eq_ok] at ho
  obtain ⟨_, -, _, hrank, ho⟩ := ho
  obtain rfl := pure_eq_ok.1 ho
  have hsame := h s (by simp)
  refine ⟨_, dims, x, rfl, ?_, rfl, hxd⟩
  -- the declared shape has as many axes, so it has a batch axis, too
  rw [hsd.rank] at hrank
  rw [hsd.withoutBatch] at hsame
  obtain ⟨⟨_ | ⟨batch, declared⟩⟩⟩ := l
  · simp [Shape.rank] at hrank
  · simp only [Shape.withoutBatch, Shape.concrete, List.tail_cons, Shape.mk.injEq] at hsame
    exact ⟨batch, congrArg (batch :: ·) hsame.symm⟩

variable [Scalar α]

theorem ActivationLayer.shape_forward {l : ActivationLayer} {x : Grid α} {ys : List (Grid α)}
    (h : l.operation.forward [x] = .ok ys) : ∃ y, ys = [y] ∧ y.shape = x.shape := by
  simp only [operation, bind_eq_ok, onlyInput_eq_ok, List.cons.injEq, and_true] at h
  obtain ⟨_, rfl, y, hy, h⟩ := h
  exact ⟨y, (pure_eq_ok.1 h).symm, Activation.shape_apply hy⟩

theorem Relu.shape_forward {l : Relu α} {x : Grid α} {ys : List (Grid α)}
    (h : l.operation.forward [x] = .ok ys) : ∃ y, ys = [y] ∧ y.shape = x.shape := by
  obtain ⟨_, hx, h⟩ := bind_eq_ok.1 h
  obtain rfl := List.singleton_inj.1 (onlyInput_eq_ok.1 hx)
  exact ⟨_, (pure_eq_ok.1 h).symm, rfl⟩

theorem LeakyRelu.shape_forward {l : LeakyRelu α} {x : Grid α} {ys : List (Grid α)}
    (h : l.operation.forward [x] = .ok ys) : ∃ y, ys = [y] ∧ y.shape = x.shape := by
  obtain ⟨_, hx, h⟩ := bind_eq_ok.1 h
  obtain rfl := List.singleton_inj.1 (onlyInput_eq_ok.1 hx)
  exact ⟨_, (pure_eq_ok.1 h).symm, rfl⟩

theorem ActivationLayer.batches_operation {l : ActivationLayer} :
    (l.operation : Operation α).Batches b shapes :=
  Operation.batches_of_sameShape rfl l.shape_forward

theorem Relu.batches_operation {l : Relu α} : l.operation.Batches b shapes :=
  Operation.batches_of_sameShape rfl l.shape_forward

theorem LeakyRelu.batches_operation {l : LeakyRelu α} : l.operation.Batches b shapes :=
  Operation.batches_of_sameShape rfl l.shape_forward

omit [Scalar α] in
theorem Grid.shape_absorb [Zero α] {f : α → α → α} {x y z : Grid α} (h : x.absorb f y = .ok z) :
    z.shape = x.shape := by
  unfold Grid.absorb at h
  split at h
  · rw [← Except.ok.inj h]; rfl
  · simp at h

theorem Merge.forward_eq_ok {m : Merge} {x : Grid α} {xs ys : List (Grid α)}
    (h : m.forward (x :: xs) = .ok ys) :
    ∃ sum, xs.foldlM (fun acc x => acc.absorb (· + ·) x) x = .ok sum ∧ (m = .add → ys = [sum]) ∧
      (m = .average → ys = [sum.map (· / ((xs.length + 1 : Nat) : α))]) := by
  obtain ⟨sum, hsum, h⟩ := bind_eq_ok.1 h
  refine ⟨sum, hsum, ?_⟩
  cases m
  · exact ⟨fun _ => (pure_eq_ok.1 h).symm, nofun⟩
  · exact ⟨nofun, fun _ => (pure_eq_ok.1 h).symm⟩

omit [Scalar α] in
theorem forIn_require_eq_ok {β κ : Type} [IsCause κ] {P : β → Prop} [DecidablePred P]
    {cause : β → κ} : ∀ {xs : List β} {u : PUnit}, (forIn xs PUnit.unit (fun x _ => do
      require (P x) (cause x)
      return ForInStep.yield PUnit.unit) : Outcome PUnit) = .ok u → ∀ x ∈ xs, P x
  | [], _, _ => by simp
  | x :: xs, u, h => by
    rw [List.forIn_cons] at h
    obtain ⟨r, hr, h⟩ := bind_eq_ok.1 h
    obtain ⟨_, hx, hr⟩ := bind_eq_ok.1 hr
    obtain rfl := pure_eq_ok.1 hr
    rintro y (_ | ⟨_, hy⟩)
    · exact require_eq_ok.1 hx
    · exact forIn_require_eq_ok h y hy

/-- Merged inputs have samples of one shape. -/
theorem Merge.outputShapes_eq_ok {m : Merge} {outs : List Shape}
    (h : m.outputShapes shapes = .ok outs) : ∃ first rest, shapes = first :: rest ∧
      outs = [first] ∧ ∀ s ∈ rest, s.withoutBatch = first.withoutBatch := by
  obtain ⟨first, second, rest, rfl⟩ : ∃ first second rest, shapes = first :: second :: rest := by
    rcases shapes with _ | ⟨first, _ | ⟨second, rest⟩⟩
    · simp [Merge.outputShapes] at h
    · simp [Merge.outputShapes] at h
    · exact ⟨_, _, _, rfl⟩
  obtain ⟨_, hsame, h⟩ := bind_eq_ok.1 h
  exact ⟨first, second :: rest, rfl, (pure_eq_ok.1 h).symm, forIn_require_eq_ok hsame⟩

/-- Merging leaves the shape of the first input alone. -/
theorem Merge.shape_forward {m : Merge} {x : Grid α} {xs ys : List (Grid α)}
    (h : m.forward (x :: xs) = .ok ys) : ∃ y, ys = [y] ∧ y.shape = x.shape := by
  obtain ⟨sum, hsum, hadd, haverage⟩ := Merge.forward_eq_ok h
  have hshape : sum.shape = x.shape := (foldlM_keeps (P := fun z : Grid α => z.shape = x.shape)
    (R := fun _ _ => True) (Q := fun _ _ => True) (fun _ => trivial) (fun _ _ => trivial)
    (fun _ _ => trivial) (fun _ _ c d hc h => ⟨(Grid.shape_absorb h).trans hc, trivial, trivial⟩)
    hsum rfl).1
  cases m with
  | add => exact ⟨sum, hadd rfl, hshape⟩
  | average => exact ⟨_, haverage rfl, hshape⟩

theorem Merge.batches_operation {m : Merge} : (m.operation : Operation α).Batches b shapes := by
  intro ins outs xs ys hs ho hb hx hf
  change m.outputShapes shapes = _ at ho
  change m.forward xs = _ at hf
  obtain ⟨first, rest, rfl, rfl, -⟩ := Merge.outputShapes_eq_ok ho
  obtain ⟨dims, _, hdims, -, rfl⟩ := List.forall₂_cons_left_iff.1 hs
  obtain ⟨x, xs, hxd, -, rfl⟩ := List.forall₂_cons_left_iff.1 hx
  obtain ⟨y, rfl, hy⟩ := Merge.shape_forward hf
  exact ⟨first, dims, y, rfl, hdims, rfl, hy.trans hxd.shape, hy ▸ hxd.addressable⟩

/-! ## Dense layers and normalizations -/

omit [Scalar α] in
theorem Grid.reshape_eq_ok {x y : Grid α} {dims : List Nat} : x.reshape dims = .ok y ↔
    addressable dims ∧ y.shape = dims ∧ y.cells = x.cells := by
  obtain ⟨shape, cells, hc⟩ := y
  unfold Grid.reshape
  split
  case isTrue h =>
    constructor
    · rintro ⟨⟩
      exact ⟨h.1, rfl, rfl⟩
    · rintro ⟨-, rfl, rfl⟩
      rfl
  case isFalse h =>
    constructor
    · simp
    · rintro ⟨ha, rfl, rfl⟩
      exact absurd ⟨ha, hc.symm⟩ h

/-- A dense layer maps the rows of features by its kernel and moves them by its
    bias. -/
theorem Dense.forward_eq_ok {d : Dense α} {x : Grid α} {ys : List (Grid α)}
    (h : d.forward [x] = .ok ys) : ∃ rows moved z y,
      Table.ofGrid (x.size / max d.kernel.rows 1) d.kernel.rows x = .ok rows ∧
      (match d.bias with
        | none => .ok (rows.mul d.kernel).toGrid
        | some bias => (rows.mul d.kernel).toGrid.absorb (· + ·) (Grid.ofList bias)) =
          (.ok moved : Outcome (Grid α)) ∧
      moved.reshape (d.outputDims x.shape) = .ok z ∧ d.activation.apply z = .ok y ∧ ys = [y] := by
  cases hbias : d.bias <;>
    simp only [Dense.forward, hbias, bind_eq_ok, onlyInput_eq_ok, List.cons.injEq, and_true] at h
  all_goals
    obtain ⟨_, rfl, rows, hrows, _, -, moved, hmoved, z, hz, y, hy, h⟩ := h
    exact ⟨rows, moved, z, y, hrows, hmoved, hz, hy, (pure_eq_ok.1 h).symm⟩

omit [Scalar α] in
/-- A dense layer declares its units as the last dimension. -/
theorem Dense.outputShapes_eq_ok {d : Dense α} {outs : List Shape}
    (h : d.outputShapes shapes = .ok outs) :
    ∃ s, shapes = [s] ∧ s.dims ≠ [] ∧ outs = [⟨s.dims.dropLast ++ [some d.units]⟩] := by
  simp only [Dense.outputShapes, bind_eq_ok, onlyInput_eq_ok, orRefuse_eq_ok] at h
  obtain ⟨s, rfl, last, hlast, h⟩ := h
  have hne : s.dims ≠ [] := fun hnil => by simp [hnil] at hlast
  cases last with
  | none => exact ⟨s, rfl, hne, (pure_eq_ok.1 h).symm⟩
  | some features =>
    obtain ⟨_, -, h⟩ := bind_eq_ok.1 h
    exact ⟨s, rfl, hne, (pure_eq_ok.1 h).symm⟩

theorem Dense.shape_forward {d : Dense α} {x : Grid α} {ys : List (Grid α)}
    (h : d.forward [x] = .ok ys) :
    ∃ y, ys = [y] ∧ y.shape = d.outputDims x.shape ∧ addressable y.shape := by
  obtain ⟨rows, moved, z, y, -, -, hz, hy, rfl⟩ := Dense.forward_eq_ok h
  obtain ⟨ha, hzs, -⟩ := Grid.reshape_eq_ok.1 hz
  have hshape := (Activation.shape_apply hy).trans hzs
  exact ⟨y, rfl, hshape, hshape ▸ ha⟩

/-- Dense layers need a sample axis that holds the features; without one, their
    units take the place of the batch. -/
theorem Dense.batches_operation {d : Dense α} (h : ∀ s ∈ shapes, s.rank = 1 → d.units = b) :
    d.operation.Batches b shapes := by
  refine Operation.batches_of_only (fun outs ho => ?_)
    fun {s dims outs x ys} hsh hs ho _ hx hf => ?_
  · obtain ⟨s, hs, -⟩ := Dense.outputShapes_eq_ok ho
    exact ⟨s, hs⟩
  obtain ⟨_, hs', -, rfl⟩ := Dense.outputShapes_eq_ok ho
  obtain rfl := List.singleton_inj.1 hs'
  obtain ⟨y, rfl, hshape, ha⟩ := Dense.shape_forward hf
  rw [hx.shape, Dense.outputDims, if_neg (by simp)] at hshape
  have hrank := hs.rank
  obtain ⟨batch, hsd⟩ := hs
  cases dims with
  | nil =>
    have hunits := h s (by simp [hsh]) hrank
    exact ⟨_, [], y, rfl, ⟨some d.units, by simp [hsd]⟩, rfl, by simpa [hunits] using hshape, ha⟩
  | cons k dims =>
    exact ⟨_, (k :: dims).dropLast ++ [d.units], y, rfl, ⟨batch, by simp [hsd]⟩, rfl,
      by simpa using hshape, ha⟩

/-- A normalization scales and moves every value by the statistics of its place
    on the axis. -/
theorem BatchNorm.forward_eq_ok {n : BatchNorm α} {x : Grid α} {ys : List (Grid α)}
    (h : n.forward [x] = .ok ys) : ∃ axis place scale offset, n.axis = [axis] ∧
      axisIndex axis x.rank = .ok place ∧ n.affine = .ok (scale, offset) ∧
      ys = [Grid.ofFn x.shape fun p =>
        scale.getD (p.getD place 0) 0 * x.value p + offset.getD (p.getD place 0) 0] := by
  simp only [BatchNorm.forward, bind_eq_ok, onlyInput_eq_ok, List.cons.injEq, and_true] at h
  obtain ⟨_, rfl, h⟩ := h
  split at h
  case h_1 axis haxis =>
    obtain ⟨place, hplace, ⟨scale, offset⟩, haffine, h⟩ := by simpa only [bind_eq_ok] using h
    dsimp only at h
    split at h
    · exact ⟨axis, place, scale, offset, haxis, hplace, haffine, (pure_eq_ok.1 h).symm⟩
    · simp at h
  case h_2 => simp at h

omit [Scalar α] in
theorem BatchNorm.outputShapes_eq_ok {n : BatchNorm α} {outs : List Shape}
    (h : n.outputShapes shapes = .ok outs) : ∃ s, shapes = [s] ∧ outs = [s] := by
  obtain ⟨s, hs, h⟩ := bind_eq_ok.1 h
  obtain ⟨_, -, h⟩ := bind_eq_ok.1 h
  exact ⟨s, onlyInput_eq_ok.1 hs, (pure_eq_ok.1 h).symm⟩

theorem BatchNorm.batches_operation {n : BatchNorm α} : n.operation.Batches b shapes := by
  refine Operation.batches_of_only (fun outs ho => ?_) fun {s dims outs x ys} _ hs ho _ hx hf => ?_
  · obtain ⟨s, hs, -⟩ := BatchNorm.outputShapes_eq_ok ho
    exact ⟨s, hs⟩
  · obtain ⟨_, hs', rfl⟩ := BatchNorm.outputShapes_eq_ok ho
    obtain rfl := List.singleton_inj.1 hs'
    obtain ⟨_, _, _, _, -, -, -, rfl⟩ := BatchNorm.forward_eq_ok hf
    exact ⟨s, dims, _, rfl, hs, rfl, hx.shape, hx.addressable⟩

end Neuroform

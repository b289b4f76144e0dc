/-
  Neuroform — shape inference is sound.

  A layer infers the shapes of its outputs from shapes whose dimensions may be
  unresolved, and makes its outputs from arrays.  For each layer that is not
  given by the caller, what it makes of arrays that match the former matches
  the latter (`Operation.Infers`).  The axes have to be of positive length:
  the volume of the samples of an empty batch is not seen in the array.
-/
import Neuroform.Proofs.Layer.Rearrangement
import Neuroform.Proofs.Layer.Sampling
import Neuroform.Proofs.Rational

namespace Neuroform

variable {α : Type}

/-- From arrays that match the shapes of its inputs, an operation makes arrays
    that match the shapes that it infers. -/
def Operation.Infers (op : Operation α) : Prop :=
  ∀ {shapes outs : List Shape} {xs ys : List (Grid α)},
    List.Forall₂ (fun s x => s.Matches x.shape) shapes xs → (∀ x ∈ xs, ∀ d ∈ x.shape, 0 < d) →
    op.outputShapes shapes = .ok outs → op.forward xs = .ok ys →
    List.Forall₂ (fun s y => s.Matches y.shape) outs ys

/-- An operation with a single input. -/
theorem Operation.infers_of_only {op : Operation α} {layer : String}
    {infer : Shape → Outcome (List Shape)}
    (only : op.outputShapes = fun shapes => onlyInput layer shapes >>= infer)
    (h : ∀ {s : Shape} {outs : List Shape} {x : Grid α} {ys : List (Grid α)},
      s.Matches x.shape → (∀ d ∈ x.shape, 0 < d) → op.outputShapes [s] = .ok outs →
      op.forward [x] = .ok ys → ∃ s' y, outs = [s'] ∧ ys = [y] ∧ s'.Matches y.shape) :
    op.Infers := by
  intro shapes outs xs ys hx hpos ho hf
  have honly := ho
  rw [only] at honly
  obtain ⟨s, hs, -⟩ := bind_eq_ok.1 honly
  obtain rfl := onlyInput_eq_ok.1 hs
  obtain ⟨x, _, hsx, hnil, rfl⟩ := List.forall₂_cons_left_iff.1 hx
  obtain rfl := List.forall₂_nil_left_iff.1 hnil
  obtain ⟨s', y, rfl, rfl, hmatches⟩ := h hsx (hpos x (by simp)) ho hf
  exact .cons hmatches .nil

/-- An operation with a single input, whose shape it keeps. -/
theorem Operation.infers_of_sameShape {op : Operation α} {layer : String}
    (same : op.outputShapes = sameShape layer)
    (h : ∀ {x : Grid α} {ys : List (Grid α)}, op.forward [x] = .ok ys →
      ∃ y, ys = [y] ∧ y.shape = x.shape) : op.Infers := by
  refine Operation.infers_of_only same fun {s outs x ys} hs _ ho hf => ?_
  rw [same] at ho
  obtain ⟨_, hs', ho⟩ := bind_eq_ok.1 ho
  obtain rfl := List.singleton_inj.1 (onlyInput_eq_ok.1 hs')
  obtain rfl := pure_eq_ok.1 ho
  obtain ⟨y, rfl, hy⟩ := h hf
  exact ⟨s, y, rfl, rfl, hy ▸ hs⟩

section
variable [Scalar α]

/-! ## Pointwise, affine and moving layers -/

/-- Features become units. -/
theorem Dense.infers_operation {d : Dense α} : d.operation.Infers := by
  refine Operation.infers_of_only rfl fun {s outs x ys} hs _ ho hf => ?_
  obtain ⟨_, hs', hne, rfl⟩ := Dense.outputShapes_eq_ok ho
  obtain rfl := List.singleton_inj.1 hs'
  obtain ⟨y, rfl, hy, -⟩ := Dense.shape_forward hf
  have hx : ¬ x.shape.isEmpty := by
    rw [List.isEmpty_iff_length_eq_zero, ← hs.length_eq]
    exact fun h => hne (List.eq_nil_of_length_eq_zero h)
  refine ⟨_, y, rfl, rfl, ?_⟩
  rw [hy, Dense.outputDims, if_neg hx]
  exact List.rel_append (forall₂_dropLast hs) (.cons (by simp) .nil)

/-- All inputs of a merge are added to the first one. -/
theorem Merge.infers_operation {m : Merge} : (m.operation : Operation α).Infers := by
  intro shapes outs xs ys hx _ ho hf
  obtain ⟨first, rest, rfl, rfl, -⟩ := Merge.outputShapes_eq_ok ho
  obtain ⟨x, xs, hfirst, -, rfl⟩ := List.forall₂_cons_left_iff.1 hx
  obtain ⟨y, rfl, hy⟩ := Merge.shape_forward hf
  exact .cons (hy ▸ hfirst) .nil

theorem BatchNorm.infers_operation {n : BatchNorm α} : n.operation.Infers := by
  refine Operation.infers_of_only rfl fun {s outs x ys} hs _ ho hf => ?_
  obtain ⟨_, hs', rfl⟩ := BatchNorm.outputShapes_eq_ok ho
  obtain rfl := List.singleton_inj.1 hs'
  obtain ⟨_, _, _, _, -, -, -, rfl⟩ := BatchNorm.forward_eq_ok hf
  exact ⟨s, _, rfl, rfl, hs⟩

/-! ## Concatenation, flattening and reshaping -/

omit [Scalar α] in
/-- What is known of the first shape and of each one behind it matches the
    dimensions that the arrays are joined to. -/
theorem Concatenate.matches_joinAll {a rank : Nat} {others : List Shape} {xs : List (Grid α)}
    (hx : List.Forall₂ (fun s x => s.Matches x.shape) others xs) :
    ∀ {ds r : List (Option Nat)} {ns : List Nat}, List.Forall₂ MatchesLength ds ns →
      rank = ns.length → a < ns.length → (∀ x ∈ xs, x.shape.eraseIdx a = ns.eraseIdx a) →
      joinAll a rank ds others = .ok r →
      List.Forall₂ MatchesLength r
        (ns.set a (ns.getD a 0 + totalSize (xs.map (·.shape.getD a 0)))) := by
  induction hx with
  | nil =>
    intro ds r ns hds _ ha _ h
    obtain rfl := foldlM_nil_eq_ok.1 h
    simpa [ha] using hds
  | @cons other x others xs hox _ ih =>
    intro ds r ns hds hrank ha herase h
    obtain ⟨ds', hr, hd, h⟩ := joinAll_cons_eq_ok h
    have hxa : a < x.shape.length := by rw [← hox.rank, hr, hrank]; exact ha
    have hset := eq_set_of_eraseIdx (herase x (by simp)) (List.getElem?_eq_getElem hxa) ha
    rw [Shape.Matches, hset] at hox
    have hrest := ih (matches_joinDims hd hds hox ha) (by simpa using hrank) (by simpa using ha)
      (fun z hz => by rw [herase z (List.mem_cons_of_mem _ hz), List.eraseIdx_set_eq]) h
    simpa [ha, hxa, Nat.add_assoc] using hrest

theorem Concatenate.infers_operation {c : Concatenate} : (c.operation : Operation α).Infers := by
  intro shapes outs xs ys hx _ ho hf
  obtain ⟨first, others, axis, r, rfl, haxis, hr, rfl⟩ := Concatenate.outputShapes_eq_ok ho
  obtain ⟨x, xs, hfirst, hothers, rfl⟩ := List.forall₂_cons_left_iff.1 hx
  obtain ⟨axis', haxis', -, herase, rfl⟩ := Concatenate.forward_eq_ok hf
  rw [Grid.rank, ← hfirst.rank] at haxis'
  obtain rfl := Except.ok.inj (haxis.symm.trans haxis')
  have hlt := axisIndex_lt haxis
  exact .cons (matches_joinAll hothers hfirst hfirst.rank (hfirst.rank ▸ hlt) herase hr) .nil

omit [Scalar α] in
theorem infers_flatten : (flatten : Operation α).Infers := by
  refine Operation.infers_of_only rfl fun {s outs x ys} hs hpos ho hf => ?_
  simp only [flatten, Shape.batch, bind_eq_ok, onlyInput_eq_ok, List.cons.injEq, and_true,
    exists_eq_left', orFault_eq_ok, pure_eq_ok] at ho
  obtain ⟨batch, hbatch, v, hv, rfl⟩ := ho
  obtain ⟨ds, hds⟩ := List.head?_eq_some_iff.1 hbatch
  obtain ⟨n, ns, hx, hn, hns⟩ := hs.batched hds
  obtain ⟨y, rfl, hy, -⟩ := flatten_forward (hpos n (by simp [hx])) hx hf
  refine ⟨_, y, rfl, rfl, ?_⟩
  rw [hy.shape]
  refine .cons hn (.cons (fun k hk => ?_) .nil)
  exact hns.volume?_eq (hk ▸ hv)

omit [Scalar α] in
/-- Samples of known volume have the shape that the target is resolved to. -/
theorem Reshape.infers_operation {r : Reshape} : (r.operation : Operation α).Infers := by
  refine Operation.infers_of_only rfl fun {s outs x ys} hs hpos ho hf => ?_
  simp only [operation, outputShapes, Shape.batch, bind_eq_ok, onlyInput_eq_ok, List.cons.injEq,
    and_true, exists_eq_left', orFault_eq_ok] at ho
  obtain ⟨batch, hbatch, v, hv, ho⟩ := ho
  obtain ⟨ds, hds⟩ := List.head?_eq_some_iff.1 hbatch
  obtain ⟨n, ns, hx, hn, hns⟩ := hs.batched hds
  obtain ⟨out, y, hout, rfl, hy, -⟩ := Reshape.forward_eq_ok (hpos n (by simp [hx])) hx hf
  cases v with
  | none =>
    obtain rfl := pure_eq_ok.1 ho
    refine ⟨_, y, rfl, rfl, ?_⟩
    rw [hy.shape]
    exact .cons hn (matches_unresolved hout)
  | some v =>
    obtain ⟨out', hout', ho⟩ := bind_eq_ok.1 ho
    obtain rfl := pure_eq_ok.1 ho
    obtain rfl := hns.volume?_eq hv
    obtain rfl := Except.ok.inj (hout.symm.trans hout')
    refine ⟨_, y, rfl, rfl, ?_⟩
    rw [hy.shape]
    exact .cons hn forall₂_matchesLength_some

/-! ## Windows, up-sampling and padding -/

theorem Conv.infers_operation {c : Conv α} : c.operation.Infers := by
  refine Operation.infers_of_only rfl fun {s outs x ys} hs hpos ho hf => ?_
  obtain ⟨parts, hparts, hrank, houts⟩ := Conv.outputShapes_eq_ok ho
  obtain ⟨n, ns, _, hx, -, hn, -, hspatial⟩ := hs.splitChannels hparts
  obtain ⟨axes, y, haxes, rfl, hy⟩ := Conv.batch_forward (hpos n (by simp [hx])) hx hf
  have hdims := Geometry.length_outputDims haxes
  have hrank' := hspatial.length_eq
  rw [← hrank', hrank] at hdims hy
  refine ⟨_, y, houts hspatial haxes, rfl, ?_⟩
  rw [hy.shape]
  exact Shape.matches_join hn (matchesLength_some.2 rfl)
    (forall₂_knownLengths (hrank.trans hdims.symm))

theorem Pool.infers_operation {p : Pool} : (p.operation : Operation α).Infers := by
  refine Operation.infers_of_only rfl fun {s outs x ys} hs hpos ho hf => ?_
  cases he : p.extent with
  | everywhere rank =>
    obtain ⟨parts, hparts, rfl⟩ := Pool.outputShapes_everywhere he ho
    obtain ⟨n, ns, c, hx, hc, hn, hch, -⟩ := hs.splitChannels hparts
    obtain ⟨y, rfl, hy⟩ := Pool.batch_everywhere he (hpos n (by simp [hx])) hx hf
    rw [Layout.getD_channelAxis hc] at hy
    refine ⟨_, y, rfl, rfl, ?_⟩
    rw [hy.shape]
    exact .cons hn (.cons hch .nil)
  | windows size strides padding =>
    obtain ⟨parts, hparts, houts⟩ := Pool.outputShapes_windows he ho
    obtain ⟨n, ns, c, hx, hc, hn, hch, hspatial⟩ := hs.splitChannels hparts
    obtain ⟨c', axes, y, hc', haxes, rfl, hy⟩ :=
      Pool.batch_windows he (hpos n (by simp [hx])) hx hf
    obtain rfl := Option.some.inj (hc.symm.trans hc')
    refine ⟨_, y, houts hspatial haxes, rfl, ?_⟩
    rw [hy.shape]
    exact Shape.matches_join hn hch (forall₂_knownLengths
      (hspatial.length_eq.trans (Geometry.length_outputDims haxes).symm))

theorem UpSampling.infers_operation {u : UpSampling} : (u.operation : Operation α).Infers := by
  refine Operation.infers_of_only rfl fun {s outs x ys} hs hpos ho hf => ?_
  obtain ⟨parts, hparts, hlen, houts⟩ := UpSampling.outputShapes_eq_ok ho
  obtain ⟨n, ns, c, hx, hc, hn, hch, hspatial⟩ := hs.splitChannels hparts
  obtain ⟨y, rfl, hy⟩ := UpSampling.batch_forward (hpos n (by simp [hx])) hx hc hf
  have hrank := hspatial.length_eq
  refine ⟨_, y, houts hspatial, rfl, ?_⟩
  rw [hy.shape]
  exact Shape.matches_join hn hch (forall₂_knownLengths (by simp [← hrank, hlen]))

theorem ZeroPadding.infers_operation {z : ZeroPadding} : (z.operation : Operation α).Infers := by
  refine Operation.infers_of_only rfl fun {s outs x ys} hs _ ho hf => ?_
  obtain ⟨parts, hparts, hlen, houts⟩ := ZeroPadding.outputShapes_eq_ok ho
  obtain ⟨n, ns, c, hx, hc, hn, hch, hspatial⟩ := hs.splitChannels hparts
  have hrank := hspatial.length_eq
  obtain ⟨y, rfl, hy⟩ := ZeroPadding.batch_forward hx hc (hrank ▸ hlen) hf
  refine ⟨_, y, houts hspatial, rfl, ?_⟩
  rw [hy.shape]
  exact Shape.matches_join hn hch (forall₂_knownLengths (by simp [paddedDims, ← hrank, hlen]))

/-! ## Primitive layers -/

/-- A layer that computes something by itself: neither the entry of a model nor a
    layer of the caller. -/
def Primitive.IsBuiltIn : Primitive α → Prop
  | .input _ => False
  | .custom _ => False
  | _ => True

theorem Primitive.IsBuiltIn.infers {p : Primitive α} (h : p.IsBuiltIn) : p.operation.Infers := by
  cases p with
  | input l => exact h.elim
  | dense d => exact d.infers_operation
  | conv c => exact c.infers_operation
  | pool p => exact p.infers_operation
  | activation l => exact Operation.infers_of_sameShape rfl l.shape_forward
  | merge m => exact m.infers_operation
  | batchNorm n => exact n.infers_operation
  | concatenate c => exact c.infers_operation
  | flatten => exact infers_flatten
  | reshape r => exact r.infers_operation
  | relu l => exact Operation.infers_of_sameShape rfl l.shape_forward
  | leakyRelu l => exact Operation.infers_of_sameShape rfl l.shape_forward
  | upSampling u => exact u.infers_operation
  | zeroPadding z => exact z.infers_operation
  | custom op => exact h.elim

/-- **Shape inference is sound.**  What a layer makes of arrays without empty
    axes that have the shapes of its inputs has the shapes that it infers, one
    for each array. -/
theorem Primitive.forall₂_matchesDims {p : Primitive α} (hp : p.IsBuiltIn)
    {shapes outs : List Shape} {xs ys : List (Grid α)}
    (hx : List.Forall₂ (fun s x => s.matchesDims x.shape) shapes xs)
    (hpos : ∀ x ∈ xs, ∀ d ∈ x.shape, 0 < d)
    (ho : p.operation.outputShapes shapes = .ok outs) (hf : p.operation.forward xs = .ok ys) :
    outs.length = ys.length ∧ List.Forall₂ (fun s y => s.matchesDims y.shape) outs ys := by
  simp only [Shape.matchesDims_iff] at hx ⊢
  have hout := hp.infers hx hpos ho hf
  exact ⟨hout.length_eq, hout⟩

end

/-- Averages of squares, at every other place of the first axis. -/
def averagedSquares : Pool := ⟨.average, .windows [2, 2] [2, 1] .same, .channelsLast⟩

/-- Of a sample with an axis of unknown length, the number of windows along the
    other axis is inferred. -/
theorem forall₂_matchesDims_averagedSquares : ∃ ys : List (Grid ℚ),
    (Primitive.pool averagedSquares : Primitive ℚ).operation.outputShapes
      [⟨[none, some 3, none, some 1]⟩] = .ok [⟨[none, some 2, none, some 1]⟩] ∧
    (Primitive.pool averagedSquares).operation.forward [Grid.fill [1, 3, 2, 1] 1] = .ok ys ∧
    1 = ys.length ∧ List.Forall₂ (fun (s : Shape) y => s.matchesDims y.shape)
      [⟨[none, some 2, none, some 1]⟩] ys := by
  have hsome : ((Primitive.pool averagedSquares).operation.forward
      [(Grid.fill [1, 3, 2, 1] 1 : Grid ℚ)]).toOption.isSome := by decide +kernel
  obtain ⟨ys, hys⟩ := Option.isSome_iff_exists.1 hsome
  have hf := toOption_eq_some.1 hys
  have hpos : ∀ x ∈ [(Grid.fill [1, 3, 2, 1] 1 : Grid ℚ)], ∀ d ∈ x.shape, 0 < d := by
    simp [Grid.fill]
  have hbuiltIn : (Primitive.pool averagedSquares : Primitive ℚ).IsBuiltIn := trivial
  have hx : List.Forall₂ (fun (s : Shape) (x : Grid ℚ) => s.matchesDims x.shape)
      [⟨[none, some 3, none, some 1]⟩] [Grid.fill [1, 3, 2, 1] 1] := .cons rfl .nil
  exact ⟨ys, rfl, hf, Primitive.forall₂_matchesDims hbuiltIn hx hpos rfl hf⟩

end Neuroform

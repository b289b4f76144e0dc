/-
  Neuroform — concatenations along the batch axis.

  The native rule does not join batches (`Rule.draws_convertConcatenate`), but
  a layer that it declines may be wrapped.  The tensor node then stacks the rows
  of its inputs (`WrappedLayer.size_of_stacked`), which are more values than a
  node returns, so no run gets past it.
-/
import Neuroform.Proofs.Conversion.Packing
import Neuroform.Proofs.Conversion.Slabs
import Neuroform.Proofs.Network.Simulate

namespace Neuroform

variable {α : Type}

/-! ## Tensor nodes -/

section
variable [Scalar α] {b : Nat} {layer : WrappedLayer α} {c : Concatenate} {out : List Nat}
  {input : Grid α}

/-- A concatenation that joins batches gives as many rows as all of its inputs
    have. -/
theorem WrappedLayer.size_of_stacked (hlayer : layer.layer = .concatenate c)
    (hins : ∃ dims rest, layer.inputShapes = out :: dims :: rest)
    (haxis : axisIndex c.axis (out.length + 1) = .ok 0) {shapeIn : List Nat}
    (hinput : input.shape = b :: shapeIn) {y : Grid α} (h : layer.eval input = .ok y) :
    y.size = layer.inputShapes.length * b * volume out := by
  obtain ⟨name, p, trainable, ins⟩ := layer
  obtain ⟨dims, rest, rfl⟩ := hins
  obtain rfl : p = .concatenate c := hlayer
  obtain ⟨xs, hsplit, h⟩ := bind_eq_ok.1 h
  obtain ⟨ys, hforward, hy⟩ := bind_eq_ok.1 h
  have hforward : c.forward xs = .ok ys := within_eq_ok.1 hforward
  obtain ⟨b', hb, hcut⟩ := bind_eq_ok.1 hsplit
  rw [hinput, orFault_eq_ok] at hb
  obtain rfl : b = b' := Option.some.inj hb
  obtain ⟨y', rfl, hshape⟩ := Concatenate.forward_batches haxis (batches_of_cut hcut) hforward
  obtain rfl : y' = y := Option.some.inj (orRefuse_eq_ok.1 hy)
  rw [Grid.size, y'.size_cells, hshape, volume_cons]

/-- These are more values than a tensor node returns. -/
theorem Network.react_ne_ok_of_stacked (hlayer : layer.layer = .concatenate c)
    (hins : ∃ dims rest, layer.inputShapes = out :: dims :: rest)
    (haxis : axisIndex c.axis (out.length + 1) = .ok 0) (hb : 0 < b) (hv : 0 < volume out)
    {o : Object α} {shapeIn : List Nat}
    (hk : o.kind = .tensorNode ⟨shapeIn, volume out, .layer layer⟩) {fed : Option (Table α)}
    {x t : Table α} : Network.react o fed b x ≠ .ok t := by
  intro h
  simp only [Network.react, hk] at h
  obtain ⟨input, hinput, h⟩ := bind_eq_ok.1 h
  obtain ⟨y, hy, h⟩ := bind_eq_ok.1 h
  obtain ⟨expected, hexpected, h⟩ := bind_eq_ok.1 h
  obtain ⟨_, hsize, -⟩ := bind_eq_ok.1 h
  obtain ⟨-, hshape, -⟩ := Grid.reshape_eq_ok.1 hinput
  have hstacked := WrappedLayer.size_of_stacked hlayer hins haxis hshape (within_eq_ok.1 hy)
  obtain ⟨-, rfl⟩ := ofNat_eq_ok.1 hexpected
  rw [require_eq_ok.1 hsize, Nat.mul_assoc] at hstacked
  -- there are at least two inputs, and at least one value
  have hone : layer.inputShapes.length = 1 :=
    (Nat.mul_eq_right (Nat.mul_pos hb hv).ne').1 hstacked.symm
  obtain ⟨dims, rest, hins⟩ := hins
  simp [hins] at hone

end

/-! ## Conversions -/

/-- An application of a concatenation joins batches: its axis, counted on the
    output, is the first one. -/
def Graph.JoinsBatches (g : Graph α) (c : Concatenate) (i : InvocationId) : Prop :=
  ∃ inv t s, g.record? i = some inv ∧ inv.outputs = [t] ∧ g.shape? t = some s ∧
    axisIndex c.axis s.rank = .ok 0

/-- There is one axis more than samples have. -/
theorem Graph.JoinsBatches.axis_eq_zero {g : Graph α} {c : Concatenate} {i : InvocationId}
    {out : List Nat} (h : g.JoinsBatches c i) (hout : g.OutputDims i out) :
    axisIndex c.axis (out.length + 1) = .ok 0 := by
  obtain ⟨inv, t, s, hr, ht, hs, haxis⟩ := h
  obtain ⟨inv', t', hr', ht', s', hs', hdims⟩ := hout
  obtain rfl := Option.some.inj (hr.symm.trans hr')
  obtain rfl : t = t' := by simpa [ht] using ht'
  obtain rfl := Option.some.inj (hs.symm.trans hs')
  have hpos : 0 < s.dims.length := axisIndex_lt haxis
  have hlength : s.dims.length - 1 = out.length := by
    simpa [Shape.withoutBatch, Shape.concrete] using congrArg (·.dims.length) hdims
  have hrank : s.rank = out.length + 1 := by
    simp only [Shape.rank]
    omega
  rwa [hrank] at haxis

namespace Session

open Neuroform.Graph Workspace

section
variable [Scalar α] {g : Graph α} {settings : Settings α} {entries : List (Entry α)}
  {w : Workspace α} {e : Entry α} {i : InvocationId} {c : Concatenate}

/-- In a finished network, a wrapped invocation has a tensor node. -/
theorem Run.wrapped (h : Run g settings entries w) (hnodup : (converted entries).Nodup)
    (he : e ∈ entries) (hwrapped : e.wrapped = true) {p : Primitive α}
    (hk : g.kind? e.invocation.layer = some (.primitive p)) :
    ∃ inv layer out shapeIn o, g.record? e.invocation = some inv ∧ layer.layer = p ∧
      List.Forall₂ g.Dims inv.inputs layer.inputShapes ∧ g.OutputDims e.invocation out ∧
      w.views.lookup e.invocation = some [.full o] ∧
      w.network.sketch.kind? o = some (.tensorNode ⟨shapeIn, volume out, .layer layer⟩) := by
  obtain ⟨before, w₀, w₁, p', conv, v, -, hrun, hchosen, hran, -, -, hgrows, hlook⟩ :=
    h.exists_turn hnodup he
  obtain rfl : p = p' := by simpa using hk.symm.trans hchosen.kind
  have hconversion := hwrapped ▸ hchosen.conversion
  cases hconversion
  obtain ⟨inv, layer, out, shapeIn, parts, hr, hlayer, hdims, hout, -, -, rfl, -, hkind, -⟩ :=
    Rule.draws_convertWrapped hrun.feedforward.checked hran
  rw [hrun.graph_eq] at hr hdims hout
  exact ⟨inv, layer, out, shapeIn, _, hr, hlayer, hdims, hout, hlook, hgrows.kind? hkind⟩

/-- A concatenation that joins batches is not converted natively. -/
theorem Run.wrapped_of_joinsBatches (h : Run g settings entries w)
    (hnodup : (converted entries).Nodup) (he : e ∈ entries)
    (hk : g.kind? e.invocation.layer = some (.primitive (.concatenate c)))
    (hj : g.JoinsBatches c e.invocation) : e.wrapped = true := by
  by_contra hnative
  obtain ⟨inv, ins, out, a, _, _, _, -, -, hout, haxis, -⟩ :=
    h.slabs hnodup he (Bool.eq_false_iff.2 hnative) hk
  have hzero := haxis.symm.trans (hj.axis_eq_zero hout)
  exact absurd (Except.ok.inj hzero) (Nat.succ_ne_zero a)

/-- A concatenation is wrapped only where that is allowed, and if the axis names
    the batch in the first application of the layer. -/
theorem Picked.batch {layer : Layer α} {l : LayerId} {r : Rule α}
    (h : Picked g settings l true r) (hl : g.layer l = .ok layer)
    (hk : layer.kind = .primitive (.concatenate c)) :
    settings.allowFallback = true ∧
      Rule.namesBatch c.axis (Rule.firstOutputRank? g layer) = true := by
  obtain ⟨p, conv, hchosen, -⟩ := h.rule
  refine ⟨hchosen.fallback rfl, ?_⟩
  by_contra hn
  exact h.declined rfl layer hl (takes_concatenate hk (Bool.eq_false_iff.2 hn))

/-- A conversion that has met a concatenation which joins batches has wrapped
    it. -/
theorem wrapped_of_convert {l : LayerId} {m : ModelDef} {order : List Provenance} {s : Session α}
    (hg : g.Sound) (hm : g.model? l = some m)
    (ho : g.trace (m.outputs ++ m.inputs) = .ok order) (hi : i ∈ sources order)
    (hk : g.kind? i.layer = some (.primitive (.concatenate c))) (hj : g.JoinsBatches c i)
    (hc : convert g l settings Registry.standard = .ok s) :
    ∃ entries, ∃ e ∈ entries, e.invocation = i ∧ e.wrapped = true ∧
      (converted entries).Nodup ∧ Run g settings entries s.workspace ∧
      ∃ r, Picked g settings i.layer true r := by
  obtain ⟨order', entries, s₁, ho', hdone, hwalked, -, hends⟩ := convert_eq_ok hg hm hc
  obtain rfl := Except.ok.inj (ho.symm.trans ho')
  obtain ⟨htraced, -, -, -⟩ := trace_eq_ok hg ho
  obtain ⟨e, he, rfl⟩ := List.mem_map.1 (hdone ▸ hi : i ∈ converted entries)
  have hnodup : (converted entries).Nodup := hdone ▸ htraced.nodup
  have hrun := hends.run hwalked
  have hw := hrun.wrapped_of_joinsBatches hnodup he hk hj
  obtain ⟨r, -, hpicked⟩ := hwalked.used e he
  exact ⟨entries, e, he, rfl, hw, hnodup, hrun, r, hw ▸ hpicked⟩

end

variable [Scalar α] {g : Graph α} {l : LayerId} {m : ModelDef} {order : List Provenance}
  {i : InvocationId} {layer : Layer α} {c : Concatenate}

/-- **Batches are not joined.**  A conversion fails that meets a concatenation
    along the batch axis, unless layers may be wrapped and that axis is named in
    the first application of the layer.  If it succeeds then, there is a tensor
    node for the concatenation, and as soon as that has any values to return, the
    network cannot be run. -/
theorem batches_not_joined (hg : g.Reachable) (hm : g.model? l = some m)
    (ho : g.trace (m.outputs ++ m.inputs) = .ok order) (hi : i ∈ sources order)
    (hl : g.layer i.layer = .ok layer) (hk : layer.kind = .primitive (.concatenate c))
    (hj : g.JoinsBatches c i) (settings : Settings α) :
    (settings.allowFallback = false ∨
      Rule.namesBatch c.axis (Rule.firstOutputRank? g layer) = false →
      ∀ s, convert g l settings Registry.standard ≠ .ok s) ∧
    ∀ s, convert g l settings Registry.standard = .ok s →
      ∃ o out shapeIn wrapped, g.OutputDims i out ∧
        s.workspace.views.lookup i = some [.full o] ∧ wrapped.layer = .concatenate c ∧
        s.network.sketch.kind? o = some (.tensorNode ⟨shapeIn, volume out, .layer wrapped⟩) ∧
        ∀ fed b, 0 < b → 0 < volume out → ∀ outs, s.network.predict fed b ≠ .ok outs := by
  have hkind := kind?_eq_some.2 ⟨layer, hl, hk⟩
  refine ⟨fun hdeclined s hc => ?_, fun s hc => ?_⟩
  · obtain ⟨_, _, -, -, -, -, -, r, hpicked⟩ := wrapped_of_convert hg.sound hm ho hi hkind hj hc
    obtain ⟨hallowed, hnamed⟩ := hpicked.batch hl hk
    rcases hdeclined with h | h
    · simp [hallowed] at h
    · simp [hnamed] at h
  · obtain ⟨entries, e, he, rfl, hw, hnodup, hrun, -⟩ :=
      wrapped_of_convert hg.sound hm ho hi hkind hj hc
    obtain ⟨inv, wrapped, out, shapeIn, o, hr, hlayer, hdims, hout, hlook, hnode⟩ :=
      hrun.wrapped hnodup he hw hkind
    have haxis := hj.axis_eq_zero hout
    obtain ⟨shapes, s', hinferred, hins, hsamples, -⟩ :=
      hg.sound.inferred_concatenate hkind hr hdims hout
    refine ⟨o, out, shapeIn, wrapped, hout, hlook, hlayer, hnode, fun fed b hb hv outs h => ?_⟩
    obtain ⟨x, hx, hk⟩ := Network.kind?_sketch.1 hnode
    obtain ⟨input, t, ht⟩ := Network.exists_react hrun.feedforward.checked.linked h hx
    exact Network.react_ne_ok_of_stacked hlayer
      (Concatenate.samples_of_batches hinferred hins hsamples haxis) haxis hb hv hk ht

/-- Two inputs of two values, which are joined along the batch axis. -/
def joinedBatches : List (BuildStep ℚ) :=
  [.input "a" [2], .input "b" [2], .wire "c" (.concatenate ⟨0⟩) [⟨0⟩, ⟨1⟩],
    .model "m" [⟨0⟩, ⟨1⟩] [⟨2⟩]]

/-- They are converted where layers may be wrapped, to a network that cannot be
    run. -/
theorem batches_not_joined_twoInputs :
    (∀ s, convert (build joinedBatches) ⟨3⟩ { Settings.standard with allowFallback := false }
      Registry.standard ≠ .ok s) ∧
    ∃ s, convert (build joinedBatches) ⟨3⟩ Settings.standard Registry.standard = .ok s ∧
      ∀ fed outs, s.network.predict fed 1 ≠ .ok outs := by
  have hmodel : (build joinedBatches).model? ⟨3⟩ =
      some ⟨[⟨0⟩, ⟨1⟩], [⟨2⟩], [⟨0⟩, ⟨1⟩, ⟨2⟩], false⟩ := by decide +kernel
  have htrace : (build joinedBatches).trace [⟨2⟩, ⟨0⟩, ⟨1⟩] =
      .ok [⟨⟨0⟩, 0, 0⟩, ⟨⟨1⟩, 0, 0⟩, ⟨⟨2⟩, 0, 0⟩] := toOption_eq_some.1 (by decide +kernel)
  have hkind : (build joinedBatches).kind? ⟨2⟩ = some (.primitive (.concatenate ⟨0⟩)) := by
    set_option maxRecDepth 1000 in rfl
  have hrecord : (build joinedBatches).record? ⟨⟨2⟩, 0⟩ = some ⟨[⟨0⟩, ⟨1⟩], [⟨2⟩]⟩ := by
    decide +kernel
  have hshape : (build joinedBatches).shape? ⟨2⟩ = some (.batched [2]) := by decide +kernel
  have hok : ((convert (build joinedBatches) ⟨3⟩ Settings.standard Registry.standard).map
      fun _ => ()).toOption = some () := by decide +kernel
  obtain ⟨layer, hl, hk⟩ := kind?_eq_some.1 hkind
  obtain ⟨s, hs, -⟩ := map_eq_ok.1 (toOption_eq_some.1 hok)
  have hjoined := batches_not_joined (i := ⟨⟨2⟩, 0⟩) (reachable_build joinedBatches) hmodel htrace
    (by simp [sources, Provenance.source]) hl hk ⟨_, _, _, hrecord, rfl, hshape, rfl⟩
  obtain ⟨o, out, _, _, hout, -, -, -, hrun⟩ := (hjoined _).2 s hs
  obtain rfl := OutputDims.unique ⟨_, _, hrecord, rfl, .batched [2], hshape, rfl⟩ hout
  exact ⟨(hjoined _).1 (.inl rfl), s, hs, fun fed => hrun fed 1 Nat.one_pos (by decide)⟩

end Session
end Neuroform

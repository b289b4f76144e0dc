/-
  Neuroform — the trained parameters of converted models.

  The parameters of a converted network are those of the parts that the
  invocations on the trace have added (`Run.parameters_eq`).  A wrapped layer
  that is not trainable adds none; a native conversion does not look at the
  flag and adds them all.
-/
import Neuroform.Proofs.Conversion.Walk
import Neuroform.Proofs.Graph.Counting

namespace Neuroform

variable {α : Type} [Scalar α]

/-- What a part of a network contributes to its trained parameters. -/
def Network.contribution (n : Network α) (p : Part α) : Nat :=
  if n.inferenceOnly then 0 else p.trained

namespace Session

open Neuroform.Graph

variable {g : Graph α} {settings : Settings α} {entries : List (Entry α)} {w : Workspace α}

namespace Run

/-- A converted network is made of what its entries have added. -/
theorem network_eq (h : Run g settings entries w) : ∃ label probes, w.network =
    { (Network.empty label settings.inferenceOnly).extend (.join (entries.map (·.part))) with
      probes } := by
  induction h with
  | start label => exact ⟨label, #[], (Network.extend_empty _).symm⟩
  | note _ _ probes ih =>
    obtain ⟨label, _, hn⟩ := ih
    exact ⟨label, probes, by rw [hn]⟩
  | @convert entries w w' e _ _ _ _ _ _ hpart ih =>
    obtain ⟨label, probes, hn⟩ := ih
    refine ⟨label, probes, ?_⟩
    rw [List.map_append, List.map_singleton, Part.join_snoc, ← Network.extend_extend]
    change w'.network = _
    rw [hpart, hn]
    rfl

/-- Only invocations of layers are converted. -/
theorem layer_of_mem (h : Run g settings entries w) {e : Entry α} (he : e ∈ entries) :
    ∃ layer, g.layer e.invocation.layer = .ok layer := by
  induction h with
  | start => simp at he
  | note _ _ _ ih => exact ih he
  | convert _ chosen _ _ ih =>
    rcases List.mem_append.1 he with he | he
    · exact ih he
    obtain rfl := List.mem_singleton.1 he
    obtain ⟨layer, hl, -⟩ := kind?_eq_some.1 chosen.kind
    exact ⟨layer, hl⟩

/-- **What an entry adds**: the parameters of its layer, unless that is wrapped
    and fixed. -/
theorem contribution_eq (h : Run g settings entries w) {e : Entry α} (he : e ∈ entries)
    {layer : Layer α} (hl : g.layer e.invocation.layer = .ok layer) :
    w.network.contribution e.part =
      if settings.inferenceOnly || (e.wrapped && !layer.trainable) then 0
      else layer.parameterCount := by
  obtain ⟨label, probes, hn⟩ := h.network_eq
  have hinference : w.network.inferenceOnly = settings.inferenceOnly := by rw [hn]; rfl
  suffices htrained : settings.inferenceOnly = false → e.part.trained =
      if e.wrapped && !layer.trainable then 0 else layer.parameterCount by
    unfold Network.contribution
    cases hi : settings.inferenceOnly with
    | true => simp [hinference, hi]
    | false => simp [hinference, hi, htrained hi]
  intro hi
  clear hn hinference
  induction h with
  | start => simp at he
  | note _ _ _ ih => exact ih he
  | @convert entries w w' e' p c v run chosen ran hpart ih =>
    rcases List.mem_append.1 he with he | he
    · exact ih he
    obtain rfl := List.mem_singleton.1 he
    obtain ⟨-, part, hpart', htrained⟩ :=
      (chosen.conversion.builds (run.graph_eq.symm ▸ hl)).of_ok ran
    obtain rfl := Network.extend_inj.1 (hpart.symm.trans hpart')
    have hk : layer.kind = .primitive p :=
      Option.some.inj ((kind?_of_layer hl).symm.trans chosen.kind)
    have hcount : layer.parameterCount = p.operation.parameterCount := by
      simp [Layer.parameterCount, hk, LayerKind.operation?]
    rw [htrained, hcount]
    cases hw : e.wrapped with
    | true => cases layer.trainable <;> rfl
    | false =>
      cases p with
      | batchNorm n => exact absurd (hi.symm.trans (chosen.fixed hw n rfl)) (by simp)
      | _ => rfl

/-- All entries together contribute the parameters of the network. -/
theorem parameters_eq (h : Run g settings entries w) : w.network.trainableParameterCount =
    Word.ofNat (totalSize (entries.map fun e => w.network.contribution e.part)) := by
  obtain ⟨label, probes, hn⟩ := h.network_eq
  have hcount : w.network.trainableParameterCount = ((Network.empty label
      settings.inferenceOnly).extend (.join (entries.map (·.part)))).trainableParameterCount := by
    rw [hn]
    rfl
  have hinference : w.network.inferenceOnly = settings.inferenceOnly := by rw [hn]; rfl
  rw [hcount, Network.trainableParameterCount_extend, Part.trained_join, List.map_map]
  unfold Network.contribution
  cases hi : settings.inferenceOnly with
  | true => simp [hinference, hi, totalSize_eq_sum]
  | false => simp [hinference, hi, Function.comp_def]

end Run

/-! ## Fixed layers -/

/-- **Fixed layers are counted, unless they are wrapped**: converting an
    invocation of a layer that is not trainable adds all parameters of the layer
    to those of a network for training if it is native, and none if the layer is
    wrapped. -/
theorem fixed_layers_counted (h : g.Reachable) {l : LayerId} {m : ModelDef}
    (hm : g.model? l = some m) {s : Session α}
    (hc : convert g l settings Registry.standard = .ok s) :
    ∃ order entries, g.trace (m.outputs ++ m.inputs) = .ok order ∧
      converted entries = sources order ∧ Run g settings entries s.workspace ∧
      s.network.trainableParameterCount =
        Word.ofNat (totalSize (entries.map fun e => s.network.contribution e.part)) ∧
      ∀ e ∈ entries, ∀ layer, g.layer e.invocation.layer = .ok layer → layer.trainable = false →
        s.network.contribution e.part =
          if settings.inferenceOnly || e.wrapped then 0 else layer.parameterCount := by
  obtain ⟨order, ho, entries, hs, hdone⟩ :=
    (convert_spec h.sound hm (S := False) False.elim).1 s hc
  refine ⟨order, entries, ho, hdone, hs.run, hs.run.parameters_eq, fun e he layer hl hfixed => ?_⟩
  rw [Session.network, hs.run.contribution_eq he hl, hfixed, Bool.not_false, Bool.and_true]

/-- A model of one dense layer with two parameters, which is not trainable. -/
def fixedDense : List (BuildStep ℚ) :=
  [.input "x" [1], .wire "d" (.dense ⟨⟨1, 1, #[2], rfl⟩, some [3], .linear, default⟩) [⟨0⟩],
    .model "m" [⟨0⟩] [⟨1⟩], .setTrainable ⟨1⟩ false]

/-- The fixed layer is not counted in its model, but in the converted
    network. -/
theorem fixed_layers_counted_dense : (build fixedDense).trainableParameterCount ⟨2⟩ = .ok 0 ∧
    ∃ s entries, convert (build fixedDense) ⟨2⟩ Settings.standard Registry.standard = .ok s ∧
      s.network.trainableParameterCount = .ok 2 ∧
      Run (build fixedDense) Settings.standard entries s.workspace ∧
      ∃ e ∈ entries, ∃ layer, (build fixedDense).layer e.invocation.layer = .ok layer ∧
        layer.trainable = false ∧ s.network.contribution e.part = 2 := by
  have hcount : (do (← convert (build fixedDense) ⟨2⟩ Settings.standard
      Registry.standard).network.trainableParameterCount : Outcome Nat).toOption = some 2 := by
    decide +kernel
  have hmodel : (build fixedDense).model? ⟨2⟩ = some ⟨[⟨0⟩], [⟨1⟩], [⟨0⟩, ⟨1⟩], false⟩ := by cbv
  have htrace : (build fixedDense).trace [⟨1⟩, ⟨0⟩] = .ok [⟨⟨0⟩, 0, 0⟩, ⟨⟨1⟩, 0, 0⟩] := by cbv
  have hinput : ∃ layer, (build fixedDense).layer ⟨0⟩ = .ok layer ∧ layer.parameterCount = 0 :=
    ⟨_, rfl, rfl⟩
  have hdense : ∃ layer, (build fixedDense).layer ⟨1⟩ = .ok layer ∧ layer.trainable = false :=
    ⟨_, rfl, rfl⟩
  obtain ⟨s, hs, hcount⟩ := bind_eq_ok.1 (toOption_eq_some.1 hcount)
  refine ⟨by cbv, s, ?_⟩
  obtain ⟨order, entries, horder, hdone, hrun, htotal, hfixed⟩ :=
    fixed_layers_counted (reachable_build fixedDense) hmodel hs
  refine ⟨entries, hs, hcount, hrun, ?_⟩
  obtain rfl := Except.ok.inj (htrace.symm.trans horder)
  obtain ⟨e₀, _, rfl, he₀, h⟩ := List.map_eq_cons_iff.1 hdone
  obtain ⟨e₁, _, rfl, he₁, h⟩ := List.map_eq_cons_iff.1 h
  obtain rfl := List.map_eq_nil_iff.1 h
  obtain ⟨input, hl₀, hnone⟩ := hinput
  have h₀ := hrun.contribution_eq (e := e₀) (by simp) (by rw [he₀]; exact hl₀)
  rw [hnone, ite_self] at h₀
  obtain ⟨dense, hl₁, hflag⟩ := hdense
  refine ⟨e₁, by simp, dense, by rw [he₁]; exact hl₁, hflag, ?_⟩
  -- the entry of the input contributes nothing to the two parameters
  obtain ⟨-, htwo⟩ := ofNat_eq_ok.1 (htotal.symm.trans hcount)
  simpa [Session.network, h₀] using htwo

/-! ## Trainable layers -/

omit [Scalar α] in
/-- Weights may be added up over what they belong to, if each one that counts
    is met once. -/
theorem sum_map_eq {β κ : Type} [DecidableEq β] [DecidableEq κ] {f : β → κ} {weight : κ → Nat}
    {xs : List β} {ks : List κ} (hxs : xs.Nodup) (hks : ks.Nodup)
    (hmem : ∀ x ∈ xs, f x ∈ ks)
    (hone : ∀ k ∈ ks, weight k ≠ 0 → ∃! x, x ∈ xs ∧ f x = k) :
    (xs.map fun x => weight (f x)).sum = (ks.map weight).sum := by
  rw [← List.sum_toFinset _ hxs, ← List.sum_toFinset _ hks]
  refine Finset.sum_bij_ne_zero (fun x _ _ => f x) ?_ ?_ ?_ ?_
  · intro x hx _
    exact List.mem_toFinset.2 (hmem x (List.mem_toFinset.1 hx))
  · intro x hx hw y hy _ he
    have hx' := List.mem_toFinset.1 hx
    exact (hone _ (hmem x hx') hw).unique ⟨hx', rfl⟩ ⟨List.mem_toFinset.1 hy, he.symm⟩
  · intro k hk hw
    obtain ⟨x, ⟨hx, rfl⟩, -⟩ := hone k (List.mem_toFinset.1 hk) hw
    exact ⟨x, List.mem_toFinset.2 hx, hw, rfl⟩
  · exact fun _ _ _ => rfl

/-- **Parameters are kept**: if all layers are trainable and every primitive
    layer of a model that has parameters is applied once on its trace, a network
    for training that the model is converted to has the parameters of the
    model. -/
theorem parameters_kept (h : g.Reachable) (ht : g.AllTrainable) {l : LayerId} {m : ModelDef}
    (hm : g.model? l = some m) (hroots : g.Rooted m) (hi : settings.inferenceOnly = false)
    (hone : ∀ order seen count, g.trace (m.outputs ++ m.inputs) = .ok order →
      g.countUnique (g.layers.size + 1) ([], 0) m.layers = .ok (seen, count) →
      ∀ k ∈ seen, ∀ layer, g.layer k = .ok layer → layer.kind.isModel = false →
        layer.parameterCount ≠ 0 → ∃! i, i ∈ sources order ∧ i.layer = k)
    {s : Session α} (hc : convert g l settings Registry.standard = .ok s) :
    s.network.trainableParameterCount = g.trainableParameterCount l := by
  obtain ⟨order, ho, entries, hs, hdone⟩ :=
    (convert_spec h.sound hm (S := False) False.elim).1 s hc
  obtain ⟨seen, hcount, hseen, hsub, htotal⟩ := countUnique_seen h.sound ht hm
  obtain ⟨htraced, hbehind, -, -⟩ := trace_eq_ok h.sound ho
  have hnested : ∀ k ∈ seen, ∀ m, g.model? k = some m → m.layers ⊆ seen :=
    fun k hk => hseen.nested k hk (by simp)
  have hcontribution : ∀ e ∈ entries,
      s.workspace.network.contribution e.part = g.weight e.invocation.layer := by
    intro e he
    obtain ⟨layer, hl⟩ := hs.run.layer_of_mem he
    rw [hs.run.contribution_eq he hl, weight_of_layer hl,
      ht layer (Array.mem_of_getElem? (layer_eq_ok.1 hl)), hi]
    simp
  rw [htotal, Session.network, hs.run.parameters_eq, List.map_congr_left hcontribution]
  refine congrArg Word.ofNat ?_
  have hmap : entries.map (fun e => g.weight e.invocation.layer) =
      (sources order).map fun i => g.weight i.layer := by
    rw [← hdone, converted, List.map_map]
    rfl
  rw [hmap]
  refine sum_map_eq htraced.nodup hseen.nodup (fun i hi => ?_) fun k hk hw => ?_
  · exact ((hbehind i).1 hi).layer_mem h.sound hm hroots hsub hnested
  · obtain ⟨layer, hl⟩ : ∃ layer, g.layer k = .ok layer :=
      ⟨_, layer_eq_ok.2 (Array.getElem?_eq_getElem (hseen.known k hk))⟩
    refine hone order seen _ ho hcount k hk layer hl ?_ (weight_of_layer hl ▸ hw)
    -- a model has no parameters of its own
    cases hm : layer.kind.model? with
    | none => simpa [LayerKind.isModel] using hm
    | some m => exact absurd (weight_of_model (by rw [model?_of_layer hl, hm])) hw

/-- A model around a call of one with a dense layer. -/
def nestedDense : List (BuildStep ℚ) :=
  [.input "x" [1], .wire "d" (.dense ⟨⟨1, 1, #[2], rfl⟩, some [3], .linear, default⟩) [⟨0⟩],
    .model "inner" [⟨0⟩] [⟨1⟩], .input "u" [1], .call ⟨2⟩ [⟨2⟩], .model "outer" [⟨2⟩] [⟨5⟩]]

/-- The dense layer is applied again by the call, which the outer model traces;
    the parameters of the layer are counted once. -/
theorem parameters_kept_nested : (build nestedDense).trainableParameterCount ⟨4⟩ = .ok 2 ∧
    ∃ s, convert (build nestedDense) ⟨4⟩ Settings.standard Registry.standard = .ok s ∧
      s.network.trainableParameterCount = .ok 2 := by
  have hok : (do pure (← convert (build nestedDense) ⟨4⟩ Settings.standard
      Registry.standard).outputs.length : Outcome Nat).toOption = some 1 := by decide +kernel
  have hcount : (build nestedDense).trainableParameterCount ⟨4⟩ = .ok 2 := by cbv
  have hmodel : (build nestedDense).model? ⟨4⟩ = some ⟨[⟨2⟩], [⟨5⟩], [⟨3⟩, ⟨2⟩], false⟩ := by cbv
  have htrace : (build nestedDense).trace [⟨5⟩, ⟨2⟩] =
      .ok [⟨⟨3⟩, 0, 0⟩, ⟨⟨0⟩, 1, 0⟩, ⟨⟨1⟩, 1, 0⟩] := by cbv
  have hseen : (build nestedDense).countUnique ((build nestedDense).layers.size + 1) ([], 0)
      [⟨3⟩, ⟨2⟩] = .ok ([⟨1⟩, ⟨0⟩, ⟨2⟩, ⟨3⟩], 2) := by cbv
  have hweights : [⟨0⟩, ⟨2⟩, ⟨3⟩].map (build nestedDense).weight = [0, 0, 0] := by cbv
  have htrain : (build nestedDense).layers.all (·.trainable) := by cbv
  obtain ⟨s, hs, -⟩ := bind_eq_ok.1 (toOption_eq_some.1 hok)
  refine ⟨hcount, s, hs, hcount ▸ parameters_kept (reachable_build nestedDense)
    (Array.all_eq_true'.1 htrain) hmodel ?_ rfl ?_ hs⟩
  · intro t ht
    obtain rfl : t = ⟨2⟩ := by simpa using ht
    exact ⟨_, _, rfl, rfl, rfl⟩
  · intro order seen count horder hcounted k hk layer hl _ hzero
    obtain rfl := Except.ok.inj (htrace.symm.trans horder)
    obtain ⟨rfl, rfl⟩ := Prod.mk.inj (Except.ok.inj (hseen.symm.trans hcounted))
    rw [← weight_of_layer hl] at hzero
    rcases List.mem_cons.1 hk with rfl | hk
    · exact ⟨⟨⟨1⟩, 1⟩, by decide, by simp [sources, Provenance.source]⟩
    · have hmem : (build nestedDense).weight k ∈ [0, 0, 0] := hweights ▸ List.mem_map_of_mem hk
      exact absurd (by simpa using hmem) hzero

end Session
end Neuroform

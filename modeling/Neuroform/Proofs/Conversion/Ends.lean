/-
  Neuroform — the inputs and outputs of a converted model.

  Behind the walk through a model its inputs are looked up and its outputs are
  probed (`Ends`).  There is a probe for every output that the model lists, but
  only the last one of a tensor can be found.
-/
import Neuroform.Proofs.Conversion.Picks

namespace Neuroform

/-! ## Tables -/

theorem TensorTable.lookup_insert {ν : Type} (table : TensorTable ν) (t u : TensorId) (v : ν) :
    (table.insert t v).lookup u = if u = t then some v else table.lookup u := by
  rw [TensorTable.insert, List.lookup_cons]
  by_cases h : u = t
  · simp [h]
  · rw [if_neg h, beq_false_of_ne h]
    exact lookup_filter_ne h

namespace Session

open Neuroform.Graph

variable {α : Type} [Scalar α] {g : Graph α} {settings : Settings α}
  {entries : List (Entry α)} {s s' : Session α} {l : LayerId} {m : ModelDef}

/-! ## Binding -/

/-- The last place of a tensor in a list. -/
def LastAt (ts : List TensorId) (t : TensorId) (k : Nat) : Prop :=
  ts[k]? = some t ∧ t ∉ ts.drop (k + 1)

theorem lastAt_snoc (ts : List TensorId) (t : TensorId) : LastAt (ts ++ [t]) t ts.length := by
  constructor
  · simp
  · simp

theorem LastAt.snoc {ts : List TensorId} {t u : TensorId} {k : Nat} (h : LastAt ts t k)
    (hne : t ≠ u) : LastAt (ts ++ [u]) t k := by
  obtain ⟨hk, hlast⟩ := h
  have hlt : k < ts.length := (List.getElem?_eq_some_iff.1 hk).1
  constructor
  · rw [List.getElem?_append_left hlt, hk]
  · rw [List.drop_append_of_le_length hlt]
    simpa [hne] using hlast

/-- A session binds the inputs and outputs of a model that another one has
    walked through, and does nothing else. -/
structure Ends (m : ModelDef) (s₁ s : Session α) : Prop where
  model : s.model = s₁.model
  workspace : ∃ probes, s.workspace =
    { s₁.workspace with network := { s₁.network with probes } }
  inputs : ∀ t ∈ m.inputs, ∃ v, s₁.workspace.tensorView t = .ok v ∧ s.inputs.lookup t = some v
  probes : List.Forall₂ (fun t p => s₁.workspace.tensorView t = .ok p.target) m.outputs
    s.network.probes.toList
  synapses : ∀ p ∈ s.network.probes, s₁.workspace.synapseOf p.target = .ok p.synapse
  outputs : ∀ t ∈ m.outputs, ∃ k, LastAt m.outputs t k ∧ s.outputs.lookup t = some ⟨k⟩

omit [Scalar α] in
/-- Looking up inputs changes their table only. -/
theorem bindInputs_eq_ok {ts : List TensorId} (h : (ts.forM bindInput).exec s = (.ok ⟨⟩, s')) :
    ∃ inputs, s' = { s with inputs } ∧
      ∀ t ∈ ts, ∃ v, s.workspace.tensorView t = .ok v ∧ inputs.lookup t = some v := by
  refine Step.forM_keeps (I := fun done s' => ∃ inputs, s' = { s with inputs } ∧
    ∀ t ∈ done, ∃ v, s.workspace.tensorView t = .ok v ∧ inputs.lookup t = some v) h
    ⟨s.inputs, rfl, by simp⟩ ?_
  rintro done t rest _ s₂ - ⟨inputs, rfl, hdone⟩ hround
  rw [bindInput, Step.exec_get_bind] at hround
  obtain ⟨v, hv, hround⟩ := Step.exec_lift_bind_eq_ok.1 hround
  obtain ⟨-, rfl⟩ := Prod.mk.inj hround
  refine ⟨TensorTable.insert inputs t v, rfl, ?_⟩
  intro u hu
  rw [TensorTable.lookup_insert]
  by_cases hut : u = t
  · exact ⟨v, hut ▸ hv, if_pos hut⟩
  · rw [if_neg hut]
    exact hdone u ((List.mem_append.1 hu).resolve_right (by simpa using hut))

omit [Scalar α] in
/-- Probing outputs adds a probe for each of them, with the synapse of what it
    shows, and changes nothing else but their table. -/
theorem bindOutputs_eq_ok {ts : List TensorId} (h : (ts.forM bindOutput).exec s = (.ok ⟨⟩, s'))
    (hp : s.network.probes = #[]) : ∃ outputs probes, s' = { s with
        outputs, workspace := { s.workspace with network := { s.network with probes } } } ∧
      List.Forall₂ (fun t p => s.workspace.tensorView t = .ok p.target) ts probes.toList ∧
      (∀ p ∈ probes, s.workspace.synapseOf p.target = .ok p.synapse) ∧
      ∀ t ∈ ts, ∃ k, LastAt ts t k ∧ outputs.lookup t = some ⟨k⟩ := by
  refine Step.forM_keeps (I := fun done s' => ∃ outputs probes, s' = { s with
      outputs, workspace := { s.workspace with network := { s.network with probes } } } ∧
    List.Forall₂ (fun t p => s.workspace.tensorView t = .ok p.target) done probes.toList ∧
    (∀ p ∈ probes, s.workspace.synapseOf p.target = .ok p.synapse) ∧
    ∀ t ∈ done, ∃ k, LastAt done t k ∧ outputs.lookup t = some ⟨k⟩) h
    ⟨s.outputs, #[], by rw [← hp]; rfl, by simp, by simp, by simp⟩ ?_
  rintro done t rest _ s₂ - ⟨outputs, probes, rfl, hprobes, hfilters, hdone⟩ hround
  rw [bindOutput, Step.exec_get_bind] at hround
  obtain ⟨v, hv, hround⟩ := Step.exec_lift_bind_eq_ok.1 hround
  obtain ⟨synapse, hsynapse, hround⟩ := Step.exec_lift_bind_eq_ok.1 hround
  obtain ⟨probe, s₃, hadd, hround⟩ := Step.exec_bind_eq_ok.1 hround
  obtain ⟨-, rfl⟩ := Prod.mk.inj hround
  obtain ⟨n, hnet, rfl⟩ := onNetwork_eq_ok.1 hadd
  obtain ⟨-, rfl, rfl⟩ := (Network.atomic_addProbe v synapse).of_ok hnet
  have hlen : done.length = probes.size := by simpa using hprobes.length_eq
  refine ⟨TensorTable.insert outputs t ⟨probes.size⟩, probes.push ⟨v, synapse⟩, rfl, ?_, ?_, ?_⟩
  · rw [Array.toList_push]
    exact List.rel_append hprobes (.cons hv .nil)
  · intro p hmem
    rcases Array.mem_push.1 hmem with hmem | rfl
    · exact hfilters p hmem
    · exact hsynapse
  intro u hu
  rw [TensorTable.lookup_insert]
  by_cases hut : u = t
  · rw [if_pos hut, ← hlen, hut]
    exact ⟨done.length, lastAt_snoc done t, rfl⟩
  · rw [if_neg hut]
    obtain ⟨k, hk, hlook⟩ := hdone u ((List.mem_append.1 hu).resolve_right (by simpa using hut))
    exact ⟨k, hk.snoc hut, hlook⟩

omit [Scalar α] in
/-- Noting the views of all converted invocations changes their table only. -/
theorem bindLayers_eq_ok (h : bindLayers.exec s = (.ok ⟨⟩, s')) :
    ∃ layers, s' = { s with layers } := by
  rw [bindLayers, Step.exec_get_bind] at h
  obtain ⟨_, s₂, hloop, h⟩ := Step.exec_bind_eq_ok.1 h
  obtain ⟨-, rfl⟩ := Step.exec_pure_eq_ok.1 h
  refine Step.forIn_keeps (I := fun _ _ s' => ∃ layers, s' = { s with layers }) hloop
    ⟨s.layers, rfl⟩ ?_
  rintro - ⟨i, views⟩ - c _ r s₃ - ⟨layers, rfl⟩ hround
  obtain ⟨inv, -, hround⟩ := Step.exec_lift_bind_eq_ok.1 hround
  obtain ⟨_, s₄, hloop, hround⟩ := Step.exec_bind_eq_ok.1 hround
  obtain ⟨rfl, rfl⟩ := Step.exec_pure_eq_ok.1 hround
  refine ⟨c, rfl, ?_⟩
  refine Step.forIn_keeps (I := fun _ _ s' => ∃ layers, s' = { s with layers }) hloop
    ⟨layers, rfl⟩ ?_
  rintro - ⟨t, v⟩ - c' _ r s₅ - ⟨layers', rfl⟩ hround
  obtain ⟨_, s₆, hmod, hround⟩ := Step.exec_bind_eq_ok.1 hround
  obtain ⟨rfl, rfl⟩ := Step.exec_pure_eq_ok.1 hround
  obtain ⟨-, rfl⟩ := Prod.mk.inj hmod
  exact ⟨c', rfl, _, rfl⟩

/-! ## Whole models -/

/-- Binding the inputs and outputs of a model that has been walked through. -/
theorem ends_eq_ok (hs : Walked g settings entries s)
    (h : (do
      m.inputs.forM bindInput
      m.outputs.forM bindOutput
      bindLayers : Step (Session α) Unit).exec s = (.ok ⟨⟩, s')) : Ends m s s' := by
  obtain ⟨_, s₁, hin, h⟩ := Step.exec_bind_eq_ok.1 h
  obtain ⟨_, s₂, hout, h⟩ := Step.exec_bind_eq_ok.1 h
  obtain ⟨inputs, rfl, hinputs⟩ := bindInputs_eq_ok hin
  obtain ⟨outputs, probes, rfl, hprobes, hsynapses, houtputs⟩ := bindOutputs_eq_ok hout hs.probes
  obtain ⟨layers, rfl⟩ := bindLayers_eq_ok h
  exact ⟨rfl, ⟨probes, rfl⟩, hinputs, hprobes, hsynapses, houtputs⟩

/-- Only models are converted. -/
theorem exists_model {registry : Registry α} (h : convert g l settings registry = .ok s) :
    ∃ m, g.model? l = some m := by
  obtain ⟨s₀, hstart, -⟩ := bind_eq_ok.1 h
  exact (start_eq_ok hstart).1

/-- **A conversion that succeeds** has walked through its model, and bound the
    inputs and outputs of it. -/
theorem convert_eq_ok (hg : g.Sound) (hm : g.model? l = some m)
    (h : convert g l settings Registry.standard = .ok s) :
    ∃ order entries s₁, g.trace (m.outputs ++ m.inputs) = .ok order ∧
      converted entries = sources order ∧ Walked g settings entries s₁ ∧ s₁.model = l ∧
      Ends m s₁ s := by
  obtain ⟨s₀, hstart, h⟩ := bind_eq_ok.1 h
  obtain ⟨_, hrun, h⟩ := bind_eq_ok.1 h
  obtain ⟨hs₀, hmodel⟩ := walked_start hstart
  have hall : convertAll.exec s₀ = (.ok ⟨⟩, s) := Prod.ext hrun (pure_eq_ok.1 h)
  rw [convertAll, Step.exec_get_bind] at hall
  obtain ⟨m', hm', hall⟩ := Step.exec_lift_bind_eq_ok.1 hall
  rw [hs₀.run.graph_eq, hmodel] at hm'
  obtain rfl := Option.some.inj (hm.symm.trans (modelDef_eq_ok.1 hm'))
  obtain ⟨c, s₁, hc, hall⟩ := Step.exec_bind_eq_ok.1 hall
  rw [hmodel] at hc
  have hfinds := getConverter_eq_ok hs₀.registry hs₀.run hc
  obtain ⟨⟨wrapped, hfits⟩, -⟩ := hs₀.finds hfinds
  obtain rfl : c = .model l := by
    cases c with
    | rule r =>
      obtain ⟨p, _, hchosen, -⟩ := hfits.rule
      simp [model?, hchosen.kind, LayerKind.model?] at hm
    | model l' => exact congrArg Converter.model hfits.1
  have hs₁ := hs₀.model hfinds
  have hmodel₁ := hfinds.same.1
  obtain ⟨o, s₂, hwalk, hbind⟩ := Step.exec_bind_eq_ok.1 hall
  obtain ⟨order, entries, ho, hdone, hmodel₂, hs₂⟩ := hs₁.convertModel hg hm hwalk
  have hl : s₂.model = l := hmodel₂.trans (hmodel₁.trans hmodel)
  refine ⟨order, entries, ?_⟩
  dsimp only at hbind
  split at hbind
  · obtain ⟨_, s₃, hwarn, hends⟩ := Step.exec_bind_eq_ok.1 hbind
    obtain ⟨-, rfl⟩ := Prod.mk.inj hwarn
    exact ⟨_, ho, hdone, hs₂.sequential, hl, ends_eq_ok hs₂.sequential hends⟩
  · exact ⟨s₂, ho, hdone, hs₂, hl, ends_eq_ok hs₂ hbind⟩

/-- What has been converted is not changed at the ends of a model. -/
theorem Ends.run {s₁ : Session α} (he : Ends m s₁ s) (hs : Walked g settings entries s₁) :
    Run g settings entries s.workspace := by
  obtain ⟨probes, hw⟩ := he.workspace
  rw [hw]
  exact hs.run.note s₁.workspace.warnings probes

omit [Scalar α] in
/-- The inputs of a converted model are held by the views of their tensors. -/
theorem Ends.view_of_input {s₁ : Session α} (he : Ends m s₁ s) {t : TensorId}
    (ht : t ∈ m.inputs) : ∃ v, s.inputs.lookup t = some v ∧ s.workspace.tensorView t = .ok v := by
  obtain ⟨probes, hw⟩ := he.workspace
  obtain ⟨v, hv, hlook⟩ := he.inputs t ht
  exact ⟨v, hlook, hw ▸ hv⟩

end Session
end Neuroform

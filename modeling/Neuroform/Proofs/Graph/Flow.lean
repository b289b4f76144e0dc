/-
  Neuroform — evaluation along a trace.

  A model can also be evaluated one primitive invocation after the other, in
  the order of the trace of its outputs, every input being read at the
  primitive output behind it.  If its own inputs come from entries that nothing
  feeds, this gives what the model predicts.
-/
import Neuroform.Proofs.Graph.Reachable
import Neuroform.Proofs.Graph.Trace
import Neuroform.Proofs.Graph.Values
import Neuroform.Proofs.Rational

namespace Neuroform

/-- Values of outputs of primitive invocations; the latest entry of one counts. -/
abbrev Flow (α : Type) := List (Provenance × Grid α)

/-- The results of an invocation. -/
def Flow.of {α : Type} (i : InvocationId) (results : List (Grid α)) : Flow α :=
  results.zipIdx.map fun (v, k) => (⟨i.layer, i.invocation, k⟩, v)

namespace Graph
variable {α : Type} [Scalar α]

/-! ## The evaluation -/

/-- The value of a tensor, read at the primitive output that it is. -/
def readThrough (g : Graph α) (flow : Flow α) (t : TensorId) : Outcome (Grid α) := do
  orRefuse (flow.lookup (← g.resolveProvenance t)) (GraphCause.noValue t)

/-- Evaluates a primitive invocation, unless it is fed. -/
def evaluateSource (g : Graph α) (fed flow : Flow α) (p : Provenance) : Outcome (Flow α) := do
  if p.source ∈ fed.map (·.1.source) then return flow
  let layer ← g.layer p.layer
  let invocation ← layer.invocation p.invocation
  let operation ← orRefuse layer.kind.operation? (GraphCause.notPrimitive layer.text)
  let inputs ← invocation.inputs.mapM (g.readThrough flow)
  let results ← (operation.forward inputs).within (.evaluating layer.text)
  require (results.length = invocation.outputs.length)
    (GraphCause.producedCount layer.text results.length invocation.outputs.length)
  return Flow.of p.source results ++ flow

/-- The values fed to the producers of the inputs of a model, the last one
    first. -/
def fedFlow (g : Graph α) (m : ModelDef) (inputs : List (Grid α)) : Outcome (Flow α) :=
  (m.inputs.zip inputs).reverse.mapM fun (t, v) => do return (← g.producer t, v)

/-- Evaluates a model along the trace of its outputs. -/
def predictByTrace (g : Graph α) (model : LayerId) (inputs : List (Grid α)) :
    Outcome (List (Grid α)) := do
  let m ← g.modelDef model
  let fed ← g.fedFlow m inputs
  let flow ← (← g.trace m.outputs).foldlM (g.evaluateSource fed) fed
  m.outputs.mapM (g.readThrough flow)

/-- Nothing feeds the entries that the inputs of a model come from. -/
def Rooted (g : Graph α) (m : ModelDef) : Prop :=
  ∀ x ∈ m.inputs, ∃ p inv, g.producer? x = some p ∧ g.record? p.source = some inv ∧ inv.inputs = []

/-- What an output of a primitive invocation evaluates to. -/
def Gives (g : Graph α) (fed : Valuation α) (p : Provenance) (v : Grid α) : Prop :=
  ∃ t, g.producer? t = some p ∧ g.model? p.layer = none ∧ g.Evaluates fed t v

section
variable {g : Graph α} {fed : Valuation α} {t : TensorId} {v : Grid α}

omit [Scalar α] in
theorem lookup_flowOf {i : InvocationId} {rs : List (Grid α)} {p : Provenance} :
    (Flow.of i rs).lookup p = if p.source = i then rs[p.output]? else none := by
  have hmem : ∀ w, (p, w) ∈ Flow.of i rs ↔ p.source = i ∧ rs[p.output]? = some w := by
    intro w
    obtain ⟨l, n, k⟩ := p
    obtain ⟨l', n'⟩ := i
    simp only [Flow.of, List.mem_map, Prod.exists, List.mem_zipIdx_iff_getElem?, Prod.mk.injEq,
      Provenance.mk.injEq, Provenance.source, InvocationId.mk.injEq]
    constructor
    · rintro ⟨_, _, hk, ⟨rfl, rfl, rfl⟩, rfl⟩
      exact ⟨⟨rfl, rfl⟩, hk⟩
    · rintro ⟨⟨rfl, rfl⟩, hk⟩
      exact ⟨w, k, hk, ⟨rfl, rfl, rfl⟩, rfl⟩
  split
  case isTrue h =>
    cases hv : rs[p.output]? with
    | none =>
      refine lookup_eq_none_of_fst fun e he hp => ?_
      have := (hmem e.2).1 (hp ▸ he)
      simp [hv] at this
    | some w =>
      refine lookup_of_mem ((hmem w).2 ⟨h, hv⟩) fun w' hw' => ?_
      exact Option.some.inj (((hmem w').1 hw').2.symm.trans hv)
  case isFalse h =>
    refine lookup_eq_none_of_fst fun e he hp => h ?_
    exact ((hmem e.2).1 (hp ▸ he)).1

/-! ## What is behind outputs has values -/

/-- What a tensor evaluates to is given by the primitive output behind it. -/
theorem Evaluates.gives (hf : g.FedAtEntries fed) (h : g.Evaluates fed t v) :
    ∃ p, g.Resolves t p ∧ g.Gives fed p v := by
  induction h with
  | @fed t v h =>
    obtain ⟨p, hp, d, hd⟩ := hf t v h
    have hprim : g.model? p.layer = none := by simp [model?, hd, LayerKind.model?]
    exact ⟨p, .here hp hprim, t, hp, hprim, .fed h⟩
  | inside unfed producer model inner _ ih =>
    obtain ⟨p, hp, hg⟩ := ih
    exact ⟨p, .through producer model inner hp, hg⟩
  | @forward t p _ _ _ _ _ unfed producer record operation arity inputs results count value =>
    have hprim := model?_eq_none_of_operation? operation
    exact ⟨p, .here producer hprim, t, producer, hprim,
      .forward unfed producer record operation arity inputs results count value⟩

/-- An output of a primitive invocation that is not fed is what its layer makes
    of the inputs. -/
theorem Evaluates.made {p : Provenance} {inv : Invocation} (h : g.Evaluates fed t v)
    (hu : fed.lookup t = none) (hp : g.producer? t = some p) (hprim : g.model? p.layer = none)
    (hr : g.record? p.source = some inv) : ∃ op vs rs, g.operation? p.layer = some op ∧
      List.Forall₂ (g.Evaluates fed) inv.inputs vs ∧ op.forward vs = .ok rs ∧
      rs.length = inv.outputs.length ∧ rs[p.output]? = some v := by
  cases h with
  | fed h => simp [hu] at h
  | inside _ producer model =>
    obtain rfl := Option.some.inj (hp.symm.trans producer)
    simp [hprim] at model
  | forward _ producer record operation arity inputs results count value =>
    obtain rfl := Option.some.inj (hp.symm.trans producer)
    obtain rfl := Option.some.inj (hr.symm.trans record)
    exact ⟨_, _, _, operation, inputs_iff.2 ⟨arity, inputs⟩, results, count, value⟩

/-- Nothing feeds the entries that are fed. -/
def RootsFed (g : Graph α) (fed : Valuation α) : Prop :=
  ∀ t v, fed.lookup t = some v → ∃ p inv, g.producer? t = some p ∧ g.IsEntry p.layer ∧
    g.record? p.source = some inv ∧ inv.inputs = []

omit [Scalar α] in
theorem RootsFed.fedAtEntries (h : g.RootsFed fed) : g.FedAtEntries fed := fun t v ht =>
  let ⟨p, _, hp, he, _⟩ := h t v ht; ⟨p, hp, he⟩

theorem Gives.inputs (hf : g.RootsFed fed) {p : Provenance} (h : g.Gives fed p v)
    {inv : Invocation} (hr : g.record? p.source = some inv) :
    ∀ u ∈ inv.inputs, ∃ w, g.Evaluates fed u w := by
  obtain ⟨t, hp, hprim, hev⟩ := h
  intro u hu
  cases ht : fed.lookup t with
  | some w =>
    obtain ⟨q, inv', hq, -, hr', hnil⟩ := hf t w ht
    obtain rfl := Option.some.inj (hp.symm.trans hq)
    obtain rfl := Option.some.inj (hr.symm.trans hr')
    simp [hnil] at hu
  | none =>
    obtain ⟨op, vs, rs, -, hvs, -⟩ := hev.made ht hp hprim hr
    obtain ⟨w, -, hw⟩ := forall₂_mem_left hvs u hu
    exact ⟨w, hw⟩

section
variable (hf : g.RootsFed fed) {ts : List TensorId} (hts : ∀ t ∈ ts, ∃ v, g.Evaluates fed t v)
include hf hts

/-- Every invocation behind tensors with values gives some. -/
theorem Behind.gives {i : InvocationId} (h : g.Behind ts i) :
    ∃ p v, p.source = i ∧ g.Gives fed p v := by
  have hread : ∀ {t p}, (∃ v, g.Evaluates fed t v) → g.resolveProvenance t = .ok p →
      ∃ v, g.Gives fed p v := by
    rintro t p ⟨v, hv⟩ hp
    obtain ⟨q, hq, hg⟩ := hv.gives hf.fedAtEntries
    obtain rfl := (followInner_eq_ok hp).unique hq
    exact ⟨v, hg⟩
  induction h with
  | root ht hp =>
    obtain ⟨v, hv⟩ := hread (hts _ ht) hp
    exact ⟨_, v, rfl, hv⟩
  | input _ hr hu hp ih =>
    obtain ⟨q, v, rfl, hg⟩ := ih
    obtain ⟨w, hw⟩ := hread (hg.inputs hf hr _ hu) hp
    exact ⟨_, w, rfl, hw⟩

theorem Needed.evaluates (h : g.Needed ts t) : ∃ v, g.Evaluates fed t v := by
  rcases h with ht | ⟨i, inv, hb, hr, hu⟩
  · exact hts t ht
  · obtain ⟨p, v, rfl, hg⟩ := hb.gives hf hts
    exact hg.inputs hf hr t hu

/-- The trace of tensors with values succeeds. -/
theorem exists_trace (hs : g.Sound) : ∃ order, g.trace ts = .ok order := by
  cases h : g.trace ts with
  | ok order => exact ⟨order, rfl⟩
  | error e =>
    obtain ⟨-, u, hu, hloose⟩ := trace_error hs h
    obtain ⟨v, hv⟩ := hu.evaluates hf hts
    obtain ⟨p, hp, -⟩ := hv.gives hf.fedAtEntries
    exact absurd ((resolveProvenance_eq_ok hs).2 hp) (hloose p)

end

/-! ## What is fed -/

/-- A flow has what all outputs of some invocations give. -/
def Flows (g : Graph α) (fed : Valuation α) (done : List InvocationId) (flow : Flow α) : Prop :=
  ∀ p v, g.Gives fed p v → p.source ∈ done → flow.lookup p = some v

/-- The producers of fed tensors, with the same values. -/
def FedBy (g : Graph α) (fed : Valuation α) (fedFlow : Flow α) : Prop :=
  List.Forall₂ (fun e e' => g.producer? e.1 = some e'.1 ∧ e.2 = e'.2) fed fedFlow

omit [Scalar α] in
theorem fedFlow_eq_ok {m : ModelDef} {inputs : List (Grid α)} {fedFlow : Flow α} :
    g.fedFlow m inputs = .ok fedFlow ↔ g.FedBy (m.inputs.zip inputs).reverse fedFlow := by
  have hf : (fun (e : TensorId × Grid α) e' =>
      (do return (← g.producer e.1, e.2) : Outcome (Provenance × Grid α)) = .ok e') =
      fun e e' => g.producer? e.1 = some e'.1 ∧ e.2 = e'.2 := by
    ext e e'
    simp only [bind_eq_ok, producer_eq_ok, pure_eq_ok, Prod.ext_iff]
    constructor
    · rintro ⟨p, hp, rfl, hv⟩; exact ⟨hp, hv⟩
    · rintro ⟨hp, hv⟩; exact ⟨e'.1, hp, rfl, hv⟩
  rw [Graph.fedFlow, mapM_forall₂, FedBy, ← hf]

namespace FedBy
variable {fedFlow : Flow α} (h : g.FedBy fed fedFlow)
include h

omit [Scalar α] in
theorem source_mem (ht : fed.lookup t = some v) {p : Provenance} (hp : g.producer? t = some p) :
    p.source ∈ fedFlow.map (·.1.source) := by
  obtain ⟨e, he, hpe, -⟩ := forall₂_mem_left h (t, v) (mem_of_lookup ht)
  obtain rfl := Option.some.inj (hp.symm.trans hpe)
  exact List.mem_map_of_mem he

omit [Scalar α] in
theorem unfed {p : Provenance} (hp : g.producer? t = some p)
    (hu : p.source ∉ fedFlow.map (·.1.source)) : fed.lookup t = none := by
  cases ht : fed.lookup t with
  | none => rfl
  | some v => exact absurd (h.source_mem ht hp) hu

theorem lookup (hs : g.Sound) {p : Provenance} (hp : g.producer? t = some p)
    (ht : fed.lookup t = some v) : fedFlow.lookup p = some v := by
  induction h with
  | nil => simp at ht
  | @cons e e' fed fedFlow he hrest ih =>
    obtain ⟨hpe, hve⟩ := he
    rw [List.lookup_cons] at ht ⊢
    by_cases htu : t = e.1
    · subst htu
      obtain rfl := Option.some.inj (hp.symm.trans hpe)
      simpa [hve] using ht
    · have hpq : ¬ p = e'.1 := by
        rintro rfl
        -- a primitive output is a single tensor
        obtain ⟨inv, hr, hout, -⟩ := hs.made hp
        obtain ⟨-, hout'⟩ := hs.made_of_producer hpe hr
        exact htu (Option.some.inj (hout.symm.trans hout'))
      rw [beq_eq_false_iff_ne.2 htu] at ht
      rw [beq_eq_false_iff_ne.2 hpq]
      exact ih ht

/-- In the beginning all that is fed flows. -/
theorem flows (hs : g.Sound) (hf : g.RootsFed fed) :
    g.Flows fed (fedFlow.map (·.1.source)) fedFlow := by
  rintro p v ⟨t, hp, hprim, hev⟩ hmem
  obtain ⟨e, he, hep⟩ := List.mem_map.1 hmem
  obtain ⟨e', he', hpe', -⟩ := forall₂_mem_left (List.Forall₂.flip h) e he
  obtain ⟨w, hw⟩ := exists_lookup_of_mem he'
  obtain ⟨q, inv, hq, ⟨d, hd⟩, hr, -⟩ := hf _ w hw
  obtain rfl := Option.some.inj (hpe'.symm.trans hq)
  -- the fed entry has one output, which is the tensor
  obtain ⟨-, -, t', ht', -⟩ := hs.entry hd hr
  obtain ⟨-, hout'⟩ := hs.made_of_producer hq hr
  obtain ⟨-, hout⟩ := hs.made_of_producer hp (hep ▸ hr)
  rw [ht'] at hout hout'
  have ht : t = e'.1 := (List.mem_singleton.1 (List.mem_of_getElem? hout)).trans
    (List.mem_singleton.1 (List.mem_of_getElem? hout')).symm
  subst ht
  obtain rfl := hev.unique (.fed hw)
  exact h.lookup hs hp hw

end FedBy

/-! ## Evaluation along the trace -/

/-- Tensors whose primitive outputs are in a flow are read with their values. -/
theorem readThrough_eq_ok (hs : g.Sound) (hf : g.FedAtEntries fed) {done : List InvocationId}
    {flow : Flow α} (h : g.Flows fed done flow) (hv : g.Evaluates fed t v)
    (hdone : ∀ p, g.resolveProvenance t = .ok p → p.source ∈ done) :
    g.readThrough flow t = .ok v := by
  obtain ⟨p, hp, hg⟩ := hv.gives hf
  have hp' := (resolveProvenance_eq_ok hs).2 hp
  exact bind_eq_ok.2 ⟨p, hp', orRefuse_eq_ok.2 (h p v hg (hdone p hp'))⟩

/-- One step along the trace: an invocation behind the producers of its inputs
    is evaluated, and all its outputs flow. -/
theorem evaluateSource_flows (hs : g.Sound) (hf : g.RootsFed fed) {fedFlow flow : Flow α}
    {done : List InvocationId} {p : Provenance} {inv : Invocation}
    (hfed : g.FedBy fed fedFlow) (hdone : ∀ i ∈ fedFlow.map (·.1.source), i ∈ done)
    (h : g.Flows fed done flow) (hr : g.record? p.source = some inv)
    (hg : ∃ q v, q.source = p.source ∧ g.Gives fed q v)
    (hin : ∀ u ∈ inv.inputs, ∀ q, g.resolveProvenance u = .ok q → q.source ∈ done) :
    ∃ flow', g.evaluateSource fedFlow flow p = .ok flow' ∧ g.Flows fed (done ++ [p.source]) flow' := by
  unfold evaluateSource
  split
  case isTrue hmem =>
    refine ⟨flow, rfl, fun q v hq hd => h q v hq ?_⟩
    rcases List.mem_append.1 hd with hd | hd
    · exact hd
    · exact List.mem_singleton.1 hd ▸ hdone _ hmem
  case isFalse hmem =>
    have hmade : ∀ q v, q.source = p.source → g.Gives fed q v → ∃ op vs rs,
        g.operation? p.layer = some op ∧ List.Forall₂ (g.Evaluates fed) inv.inputs vs ∧
        op.forward vs = .ok rs ∧ rs.length = inv.outputs.length ∧ rs[q.output]? = some v := by
      intro q v hqp hgives
      have hlayer : q.layer = p.layer := congrArg InvocationId.layer hqp
      obtain ⟨t, hq, hprim, hev⟩ := hgives
      rw [← hlayer]
      exact hev.made (hfed.unfed hq (hqp ▸ hmem)) hq hprim (hqp ▸ hr)
    obtain ⟨q, v, hqp, hgives⟩ := hg
    obtain ⟨op, vs, rs, hop, hvs, hrs, hlen, -⟩ := hmade q v hqp hgives
    obtain ⟨k, hk, ho⟩ := Option.bind_eq_some_iff.1 hop
    obtain ⟨layer, hl, rfl⟩ := kind?_eq_some.1 hk
    have hread : inv.inputs.mapM (g.readThrough flow) = .ok vs := by
      refine mapM_forall₂.2 (forall₂_of_getElem? hvs.length_eq fun n u w hu hw => ?_)
      obtain ⟨w', hw', hev⟩ := forall₂_getElem? hvs hu
      obtain rfl := Option.some.inj (hw.symm.trans hw')
      exact readThrough_eq_ok hs hf.fedAtEntries h hev (hin u (List.mem_of_getElem? hu))
    refine ⟨Flow.of p.source rs ++ flow, ?_, fun q' v' hg' hd => ?_⟩
    · simp only [bind_eq_ok, orRefuse_eq_ok, within_eq_ok, require_eq_ok, pure_eq_ok]
      exact ⟨layer, hl, inv, (layer_invocation hl).2 hr, op, ho, vs, hread, rs, hrs, ⟨⟩, hlen, rfl⟩
    · rw [List.lookup_append, lookup_flowOf]
      split
      case isTrue he =>
        -- all outputs are made of the same inputs
        obtain ⟨op', vs', rs', hop', hvs', hrs', -, hv'⟩ := hmade q' v' he hg'
        obtain rfl := Option.some.inj (hop.symm.trans hop')
        obtain rfl := Evaluates.unique_all hvs hvs'
        obtain rfl := Except.ok.inj (hrs.symm.trans hrs')
        rw [hv']
        rfl
      case isFalse he =>
        refine h q' v' hg' ((List.mem_append.1 hd).resolve_right fun hd => ?_)
        exact he (List.mem_singleton.1 hd)

/-- A run along the trace gives a flow of all that is behind the outputs. -/
theorem evaluateSources_flows (hs : g.Sound) (hf : g.RootsFed fed) {fedFlow : Flow α}
    (hfed : g.FedBy fed fedFlow) {ts : List TensorId} (hts : ∀ t ∈ ts, ∃ v, g.Evaluates fed t v)
    {order : List Provenance} (horder : g.WalksBack ts order) :
    ∃ flow, order.foldlM (g.evaluateSource fedFlow) fedFlow = .ok flow ∧
      g.Flows fed (fedFlow.map (·.1.source) ++ sources order) flow := by
  suffices hrun : ∀ rest done flow, order = done ++ rest →
      g.Flows fed (fedFlow.map (·.1.source) ++ sources done) flow →
      ∃ flow', rest.foldlM (g.evaluateSource fedFlow) flow = .ok flow' ∧
        g.Flows fed (fedFlow.map (·.1.source) ++ sources order) flow' from
    hrun order [] fedFlow rfl (by simpa [sources] using hfed.flows hs hf)
  intro rest
  induction rest with
  | nil =>
    intro done flow ho h
    rw [List.append_nil] at ho
    exact ⟨flow, rfl, ho ▸ h⟩
  | cons p rest ih =>
    intro done flow ho h
    obtain ⟨inv, hr, hbefore⟩ := horder.producers done p rest ho
    have hbehind : g.Behind ts p.source := (horder.behind _).1 (by simp [ho, sources])
    obtain ⟨flow', hstep, hflows⟩ := evaluateSource_flows hs hf hfed
      (fun i hi => List.mem_append_left _ hi) h hr (hbehind.gives hf hts) fun u hu q hq => by
        obtain ⟨q', hq', hmem⟩ := hbefore u hu
        obtain rfl := Except.ok.inj (hq.symm.trans hq')
        exact List.mem_append_right _ hmem
    obtain ⟨final, hrest, hfinal⟩ := ih (done ++ [p]) flow' (by simp [ho]) (by
      rw [sources_append, ← List.append_assoc]
      exact hflows)
    exact ⟨final, foldlM_cons_eq_ok.2 ⟨flow', hstep, hrest⟩, hfinal⟩

theorem rootsFed (hs : g.Sound) {l : LayerId} {m : ModelDef} (hm : g.model? l = some m)
    (hroots : g.Rooted m) (vs : List (Grid α)) : g.RootsFed (m.inputs.zip vs).reverse := by
  intro t v ht
  have hmem := (List.of_mem_zip (List.mem_reverse.1 (mem_of_lookup ht))).1
  obtain ⟨p, hp, he⟩ := (hs.model hm).entry t hmem
  obtain ⟨q, inv, hq, hr, hnil⟩ := hroots t hmem
  obtain rfl := Option.some.inj (hp.symm.trans hq)
  exact ⟨p, inv, hp, he, hr, hnil⟩

/-- **Evaluation along the trace** gives what a model predicts, if nothing feeds
    the entries that its inputs come from. -/
theorem predictByTrace_of_predict (h : g.Reachable) {l : LayerId} {m : ModelDef}
    (hm : g.model? l = some m) (hroots : g.Rooted m) {inputs ws : List (Grid α)}
    (hp : g.predict l inputs = .ok ws) : g.predictByTrace l inputs = .ok ws := by
  have hs := h.sound
  obtain ⟨m', hm', -, hws⟩ := predict_sound hs hp
  obtain rfl := Option.some.inj (hm.symm.trans hm')
  have hf := rootsFed hs hm hroots inputs
  have hts : ∀ t ∈ m.outputs, ∃ v, g.Evaluates (m.inputs.zip inputs).reverse t v := fun t ht => by
    obtain ⟨v, -, hv⟩ := forall₂_mem_left hws t ht
    exact ⟨v, hv⟩
  obtain ⟨order, ho⟩ := exists_trace hf hts hs
  have hwalks := walksBack_of_trace hs ho
  obtain ⟨fedFlow, hfed⟩ : ∃ fedFlow, g.FedBy (m.inputs.zip inputs).reverse fedFlow := by
    refine exists_forall₂ fun e he => ?_
    obtain ⟨w, hw⟩ := exists_lookup_of_mem he
    obtain ⟨p, hp, -⟩ := hf.fedAtEntries e.1 w hw
    exact ⟨(p, e.2), hp, rfl⟩
  obtain ⟨flow, hflow, hflows⟩ := evaluateSources_flows hs hf hfed hts hwalks
  simp only [predictByTrace, bind_eq_ok, modelDef_eq_ok]
  refine ⟨m, hm, fedFlow, fedFlow_eq_ok.2 hfed, order, ho, flow, hflow, mapM_forall₂.2 ?_⟩
  refine forall₂_of_getElem? hws.length_eq fun n t w ht hw => ?_
  obtain ⟨w', hw', hev⟩ := forall₂_getElem? hws ht
  obtain rfl := Option.some.inj (hw.symm.trans hw')
  refine readThrough_eq_ok hs hf.fedAtEntries hflows hev fun p hp => ?_
  exact List.mem_append_right _ ((hwalks.behind _).2 (.root (List.mem_of_getElem? ht) hp))

end

/-- The model around a call of a rectifier, on two samples. -/
theorem predictByTrace_of_predict_nested :
    (build nested : Graph ℚ).predict ⟨4⟩ [⟨[2, 1], #[-3, 5], rfl⟩] = .ok [⟨[2, 1], #[0, 5], rfl⟩] ∧
    (build nested : Graph ℚ).predictByTrace ⟨4⟩ [⟨[2, 1], #[-3, 5], rfl⟩] =
      .ok [⟨[2, 1], #[0, 5], rfl⟩] := by
  have hp : (build nested : Graph ℚ).predict ⟨4⟩ [⟨[2, 1], #[-3, 5], rfl⟩] =
      .ok [⟨[2, 1], #[0, 5], rfl⟩] := by cbv
  have hm : (build nested : Graph ℚ).model? ⟨4⟩ = some ⟨[⟨2⟩], [⟨5⟩], [⟨3⟩, ⟨2⟩], false⟩ := by rfl
  refine ⟨hp, predictByTrace_of_predict (reachable_build nested) hm (fun x hx => ?_) hp⟩
  obtain rfl : x = ⟨2⟩ := by simpa using hx
  exact ⟨_, _, rfl, rfl, rfl⟩

end Graph
end Neuroform

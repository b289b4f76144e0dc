/-
  Neuroform — models in a graph that has grown.

  The search for the invocations of a model and the evaluation of them start at
  tensors of the graph that the model is in.  In a sound graph each of their
  steps leads on to an older tensor, so that neither of them ever looks at what
  has been added later, or runs out of depth on the way: orders
  (`internalOrder_kept`) and predictions (`predict_kept`) stay the same, failures
  among them.
-/
import Neuroform.Proofs.Graph.Adding
import Neuroform.Proofs.Graph.Values
import Neuroform.Proofs.Rational

namespace Neuroform.Graph

variable {α : Type} {g g' : Graph α}

/-- The inputs of the producer of a tensor are older than it. -/
theorem Sound.older_inputs [Scalar α] (hs : g.Sound) {t : TensorId} {p : Provenance}
    (hp : g.producer? t = some p) {inv : Invocation} (hr : g.record? p.source = some inv)
    {n : Nat} (hn : t.index < n + 1) : ∀ u ∈ inv.inputs, u.index < n := by
  intro u hu
  have hlt : u.index < t.index := hs.acyclic hp hr u hu
  omega

/-! ## What a graph that has grown says -/

namespace Grows
variable (hg : g.Grows g')
include hg

theorem tensor_eq {t : TensorId} (ht : t.index < g.tensors.size) : g'.tensor t = g.tensor t := by
  have hx := Array.getElem?_eq_getElem ht
  rw [tensor_eq_ok.2 hx, tensor_eq_ok.2 (hg.tensor _ _ hx)]

theorem producer_eq {t : TensorId} (ht : t.index < g.tensors.size) :
    g'.producer t = g.producer t := by
  rw [Graph.producer, Graph.producer, hg.tensor_eq ht]

/-- A layer keeps its name and its kind. -/
theorem layer {l : LayerId} {layer : Layer α} (hl : g.layer l = .ok layer) :
    ∃ layer', g'.layer l = .ok layer' ∧ layer'.name = layer.name ∧ layer'.kind = layer.kind := by
  obtain ⟨layer', hl', hk⟩ := kind?_eq_some.1 (hg.kind l _ (kind?_of_layer hl))
  obtain ⟨hn, rfl⟩ := Array.getElem?_eq_some_iff.1 (layer_eq_ok.1 hl)
  have hname := hg.name l.index hn
  rw [layer_eq_ok.1 hl', Option.map_some, Option.some.injEq] at hname
  exact ⟨layer', hl', hname, hk⟩

/-- The invocations of a layer are still the first ones that it has. -/
theorem invocations_prefix {l : LayerId} {layer layer' : Layer α} (hl : g.layer l = .ok layer)
    (hl' : g'.layer l = .ok layer') :
    layer.invocations.toList <+: layer'.invocations.toList := by
  rw [List.prefix_iff_getElem?]
  intro n hn
  have hi : g.record? ⟨l, n⟩ = some layer.invocations.toList[n] := by
    simp [record?, layer_eq_ok.1 hl] at hn ⊢
  have hi' := hg.record _ _ hi
  simpa [record?, layer_eq_ok.1 hl'] using hi'

theorem tensors_prefix : g.tensors.toList <+: g'.tensors.toList := by
  rw [List.prefix_iff_getElem?]
  intro n hn
  have hx := hg.tensor n _ (Array.getElem?_eq_getElem (by simpa using hn))
  simpa using hx

theorem forward_eq [Scalar α] {l : LayerId} {layer : Layer α} (hl : g.layer l = .ok layer)
    {inv : Invocation} {values : Valuation α} : g'.forward l inv values = g.forward l inv values := by
  obtain ⟨layer', hl', hname, hkind⟩ := hg.layer hl
  have htext : layer'.text = layer.text := by rw [Layer.text, Layer.text, hname, hkind]
  rw [forward, forward, hl, hl']
  change (do let operation ← orRefuse layer'.kind.operation? _; _ : Outcome _) = _
  rw [hkind, htext]
  rfl

end Grows

variable [Scalar α]

section
variable (hs : g.Sound) (hg : g.Grows g')
include hs hg

/-! ## Orders -/

/-- The search for the producer of a tensor finds the same, whatever depth
    beyond the age of the tensor it may use. -/
theorem visit_kept {stop : List TensorId} : ∀ {depth depth' : Nat} {order : List InvocationId}
    {t : TensorId}, t.index < depth → t.index < depth' → t.index < g.tensors.size →
      g'.visit stop depth' order t = g.visit stop depth order t
  | 0, _, _, _, h, _, _ => by omega
  | _, 0, _, _, _, h, _ => by omega
  | depth + 1, depth' + 1, order, t, hd, hd', ht => by
    rw [visit, visit]
    by_cases hstop : t ∈ stop
    · rw [if_pos hstop, if_pos hstop]
    rw [if_neg hstop, if_neg hstop, hg.producer_eq ht]
    cases hp : g.producer t with
    | error e => rfl
    | ok p =>
      rw [producer_eq_ok] at hp
      obtain ⟨inv, hr, -, -⟩ := hs.made hp
      obtain ⟨layer, hl⟩ := layer_of_record hr
      obtain ⟨layer', hl', hname, hkind⟩ := hg.layer hl
      have htext : layer'.text = layer.text := by rw [Layer.text, Layer.text, hname, hkind]
      have hfold : inv.inputs.foldlM (g'.visit stop depth') order =
          inv.inputs.foldlM (g.visit stop depth) order := by
        refine foldlM_congr fun u hu c => ?_
        have hlt := hs.older_inputs hp hr hd u hu
        have hlt' := hs.older_inputs hp hr hd' u hu
        have hlt'' := hs.acyclic hp hr u hu
        exact visit_kept hlt hlt' (by omega)
      have hinv : g.invocation p.source = .ok inv := invocation_eq_ok.2 hr
      have hinv' : g'.invocation p.source = .ok inv := invocation_eq_ok.2 (hg.record _ _ hr)
      simp only [bind, Except.bind, hinv, hinv', hl, hl', htext] at hfold ⊢
      rw [hfold]

/-- **The order of a model**, or the failure to find one, stays the same. -/
theorem internalOrder_kept {m : ModelDef} (hm : ∀ t ∈ m.outputs, t.index < g.tensors.size) :
    g'.internalOrder m = g.internalOrder m := by
  have hsize := hg.size_tensors
  refine foldlM_congr fun t ht c => ?_
  have hlt := hm t ht
  exact visit_kept hs hg (by omega) (by omega) hlt

/-! ## Values -/

/-- Evaluation on demand gives the same, whatever depth beyond the age of the
    tensor it may use. -/
theorem resolve_kept : ∀ {depth depth' : Nat} {values : Valuation α} {t : TensorId},
    t.index < depth → t.index < depth' → t.index < g.tensors.size →
      g'.resolve depth' values t = g.resolve depth values t
  | 0, _, _, _, h, _, _ => by omega
  | _, 0, _, _, _, h, _ => by omega
  | depth + 1, depth' + 1, values, t, hd, hd', ht => by
    rw [resolve, resolve]
    cases hv : values.lookup t with
    | some v => rfl
    | none =>
      rw [hg.producer_eq ht, hg.tensor_eq ht]
      cases hp : g.producer t with
      | error e => rfl
      | ok p =>
        rw [producer_eq_ok] at hp
        obtain ⟨inv, hr, hout, hm⟩ := hs.made hp
        obtain ⟨layer, hl⟩ := layer_of_record hr
        obtain ⟨layer', hl', -, hkind⟩ := hg.layer hl
        have hinv : layer.invocation p.invocation = .ok inv := (layer_invocation hl).2 hr
        have hinv' : layer'.invocation p.invocation = .ok inv :=
          (layer_invocation hl').2 (hg.record _ _ hr)
        have hl₀ : g.layer p.layer = .ok layer := hl
        have hl₁ : g'.layer p.layer = .ok layer' := hl'
        have hforward : ∀ found : Valuation α, g'.forward p.layer inv found =
            g.forward p.layer inv found := fun _ => hg.forward_eq hl
        have hfold : inv.inputs.foldlM (fun values u => (·.1) <$> g'.resolve depth' values u) values =
            inv.inputs.foldlM (fun values u => (·.1) <$> g.resolve depth values u) values := by
          refine foldlM_congr fun u hu c => ?_
          have hlt := hs.older_inputs hp hr hd u hu
          have hlt' := hs.older_inputs hp hr hd' u hu
          have hlt'' := hs.acyclic hp hr u hu
          rw [resolve_kept hlt hlt' (by omega)]
        simp only [bind, Except.bind, hl₀, hl₁, hkind]
        by_cases hmodel : layer.kind.isModel
        · rw [if_pos hmodel, if_pos hmodel]
          obtain ⟨m, hm⟩ := Option.isSome_iff_exists.1 hmodel
          cases hx : g.tensor t with
          | error e => rfl
          | ok x =>
            cases hu : x.standsFor with
            | none => simp only [hu, orRefuse, refuse, Option.elim_none]
            | some u =>
              have hlt := hs.inner_lt hp ((model?_of_layer hl).trans hm) (inner?_eq_some.2 ⟨x, hx, hu⟩)
              have hrest : g'.resolve depth' values u = g.resolve depth values u :=
                resolve_kept (by omega) (by omega) (by omega)
              simp only [hu, orRefuse, Option.elim_some, hrest]
        · rw [if_neg hmodel, if_neg hmodel]
          simp only [hinv, hinv', hfold, hforward]

/-- The value of an output of a call is found in the same way. -/
theorem evaluateOutput_kept {found : Valuation α × List (Grid α)} {t : TensorId} {p : Provenance}
    {m : ModelDef} (hp : g.producer? t = some p) (hm : g.model? p.layer = some m) :
    g'.evaluateOutput found t = g.evaluateOutput found t := by
  have ht := index_lt_of_producer? hp
  rw [evaluateOutput, evaluateOutput, hg.tensor_eq ht]
  cases hx : g.tensor t with
  | error e => rfl
  | ok x =>
    cases hu : x.standsFor with
    | none => simp only [bind, Except.bind, hu, orRefuse, refuse, Option.elim_none]
    | some u =>
      have hlt := hs.inner_lt hp hm (inner?_eq_some.2 ⟨x, hx, hu⟩)
      have hsize := hg.size_tensors
      have hrest : g'.resolve (g'.tensors.size + 1) found.1 u =
          g.resolve (g.tensors.size + 1) found.1 u :=
        resolve_kept hs hg (by omega) (by omega) (by omega)
      simp only [bind, Except.bind, hu, orRefuse, Option.elim_some, hrest]

/-- Evaluating an invocation gives the same. -/
theorem evaluate_kept {values : Valuation α} {i : InvocationId} {inv : Invocation}
    (hr : g.record? i = some inv) (hmade : g.Made i inv) :
    g'.evaluate values i = g.evaluate values i := by
  obtain ⟨layer, hl⟩ := layer_of_record hr
  obtain ⟨layer', hl', -, hkind⟩ := hg.layer hl
  have hinv : layer.invocation i.invocation = .ok inv := (layer_invocation hl).2 hr
  have hinv' : layer'.invocation i.invocation = .ok inv :=
    (layer_invocation hl').2 (hg.record _ _ hr)
  have hforward : g'.forward i.layer inv values = g.forward i.layer inv values := hg.forward_eq hl
  simp only [evaluate, bind, Except.bind, hl, hl', hkind, hinv, hinv', hforward]
  by_cases hmodel : layer.kind.isModel
  · rw [if_pos hmodel, if_pos hmodel]
    obtain ⟨m, hm⟩ := Option.isSome_iff_exists.1 hmodel
    have houtputs : inv.outputs.foldlM g'.evaluateOutput (values, []) =
        inv.outputs.foldlM g.evaluateOutput (values, []) := by
      refine foldlM_congr fun t ht found => ?_
      obtain ⟨p, hp, hsource⟩ := hmade.produces.source ht
      have hlayer : p.layer = i.layer := congrArg InvocationId.layer hsource
      exact evaluateOutput_kept hs hg hp (hlayer ▸ (model?_of_layer hl).trans hm)
    rw [houtputs]
  · rw [if_neg hmodel, if_neg hmodel]

/-! ## Predictions -/

omit hg in
/-- The inputs and the outputs of a model are tensors of the graph. -/
theorem Sound.ends_lt {l : LayerId} {m : ModelDef} (hm : g.model? l = some m) :
    (∀ t ∈ m.inputs, t.index < g.tensors.size) ∧ ∀ t ∈ m.outputs, t.index < g.tensors.size := by
  have hdefined := hs.model hm
  have hin : ∀ t ∈ m.inputs, t.index < g.tensors.size := by
    intro t ht
    obtain ⟨p, hp, -⟩ := hdefined.entry t ht
    exact index_lt_of_producer? hp
  refine ⟨hin, fun t ht => ?_⟩
  obtain ⟨order, ho⟩ := hdefined.listed
  obtain ⟨-, -, hsettled⟩ := internalOrder_lists hs.acyclic ho
  rcases hsettled t (.root ht) with hmem | ⟨p, hp, -⟩
  · exact hin t hmem
  · exact index_lt_of_producer? hp

/-- **A prediction**, or the failure to make it, stays the same. -/
theorem predict_kept {l : LayerId} {m : ModelDef} (hm : g.model? l = some m)
    (inputs : List (Grid α)) : g'.predict l inputs = g.predict l inputs := by
  obtain ⟨hin, hout⟩ := hs.ends_lt hm
  obtain ⟨order, ho⟩ := (hs.model hm).listed
  obtain ⟨k, hk, hkm⟩ := Option.bind_eq_some_iff.1 hm
  obtain ⟨layer, hl, rfl⟩ := kind?_eq_some.1 hk
  obtain ⟨layer', hl', hname, hkind⟩ := hg.layer hl
  have htext : layer'.text = layer.text := by rw [Layer.text, Layer.text, hname, hkind]
  have hdef : g.modelDef l = .ok m := modelDef_eq_ok.2 hm
  have hdef' : g'.modelDef l = .ok m := modelDef_eq_ok.2 (hg.model hm)
  have ho' : g'.internalOrder m = .ok order := (internalOrder_kept hs hg hout).trans ho
  have hfeed : ∀ values : Valuation α, (m.inputs.zip inputs).foldlM g'.feed values =
      (m.inputs.zip inputs).foldlM g.feed values := by
    intro values
    refine foldlM_congr fun e he c => ?_
    rw [feed, feed, hg.tensor_eq (hin e.1 (List.of_mem_zip he).1)]
  have hevaluate : ∀ values : Valuation α,
      order.foldlM g'.evaluate values = order.foldlM g.evaluate values := by
    intro values
    refine foldlM_congr fun i hi c => ?_
    obtain ⟨hlists, -, -⟩ := internalOrder_lists hs.acyclic ho
    obtain ⟨⟨inv, hr⟩, t, p, -, hp, rfl⟩ := hlists.source hi
    exact evaluate_kept hs hg hr (hs.made_of_producer hp hr).1
  simp only [predict, bind, Except.bind, hdef, hdef', hl, hl', htext, ho, ho', hevaluate] at hfeed ⊢
  rw [hfeed]

end

/-- **Building never disturbs what is there.**  Whatever is done to a graph, and
    wherever it fails on the way: its tensors, layers and invocations stay, the
    lists of them growing at their ends, and so do the orders of its models and
    all that they predict. -/
theorem kept_by_building (h : g.Reachable) (hb : g.Builds g') :
    g.tensors.toList <+: g'.tensors.toList ∧
    (∀ l layer, g.layer l = .ok layer → ∃ layer', g'.layer l = .ok layer' ∧
      layer'.name = layer.name ∧ layer'.kind = layer.kind ∧
      layer.invocations.toList <+: layer'.invocations.toList) ∧
    ∀ l m, g.modelDef l = .ok m → g'.modelDef l = .ok m ∧
      g'.internalOrder m = g.internalOrder m ∧
      ∀ inputs, g'.predict l inputs = g.predict l inputs := by
  have hs := h.sound
  have hg := hb.grows
  refine ⟨hg.tensors_prefix, ?_, ?_⟩
  · intro l layer hl
    obtain ⟨layer', hl', hname, hkind⟩ := hg.layer hl
    exact ⟨layer', hl', hname, hkind, hg.invocations_prefix hl hl'⟩
  · intro l m hm
    rw [modelDef_eq_ok] at hm
    exact ⟨modelDef_eq_ok.2 (hg.model hm), internalOrder_kept hs hg (hs.ends_lt hm).2,
      predict_kept hs hg hm⟩

/-- A model that adds its two inputs. -/
def summing : List (BuildStep ℚ) :=
  [.input "a" [1], .input "b" [1], .wire "sum" (.merge .add) [⟨0⟩, ⟨1⟩],
    .model "summing" [⟨0⟩, ⟨1⟩] [⟨2⟩]]

/-- A call of the model with a tensor that is not there fails halfway: the first
    input has been replayed.  The model predicts what it did before. -/
theorem kept_by_building_halfway :
    ((call ⟨3⟩ [⟨0⟩, ⟨9⟩]).exec (build summing)).1 = refuse (GraphCause.noTensor ⟨9⟩) ∧
    ((BuildStep.call ⟨3⟩ [⟨0⟩, ⟨9⟩]).after (build summing)).tensors.size = 4 ∧
    ((BuildStep.call ⟨3⟩ [⟨0⟩, ⟨9⟩]).after (build summing)).predict ⟨3⟩
      [⟨[1, 1], #[2], rfl⟩, ⟨[1, 1], #[3], rfl⟩] = .ok [⟨[1, 1], #[5], rfl⟩] := by
  obtain ⟨-, -, hmodels⟩ := kept_by_building (reachable_build summing)
    (.step .refl (.call ⟨3⟩ [⟨0⟩, ⟨9⟩]))
  obtain ⟨-, -, hpredict⟩ := hmodels ⟨3⟩ ⟨[⟨0⟩, ⟨1⟩], [⟨2⟩], [⟨0⟩, ⟨1⟩, ⟨2⟩], false⟩ (by rfl)
  refine ⟨by rfl, by rfl, (hpredict _).trans ?_⟩
  cbv

end Neuroform.Graph

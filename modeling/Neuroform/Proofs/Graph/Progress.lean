/-
  Neuroform — evaluation fails in layers only.

  A tensor is grounded if all ways back from it, into calls and through the
  inputs of layers, end at fed tensors (`Grounded`).  The tensors between the
  inputs and the outputs of a model are, and so is whatever they stand for
  inside of calls (`grounded_of_met`).  Evaluating a grounded tensor finds all
  that it looks for, and can only fail in a layer that is given the values of
  its inputs (`LayerFails`).
-/
import Neuroform.Proofs.Graph.Reachable
import Neuroform.Proofs.Graph.Values
import Neuroform.Proofs.Rational

namespace Neuroform.Graph

variable {α : Type} [Scalar α]

/-- All that the value of a tensor depends on comes from tensors that are fed. -/
inductive Grounded (g : Graph α) (fed : Valuation α) : TensorId → Prop where
  | fed {t : TensorId} {v : Grid α} (h : fed.lookup t = some v) : Grounded g fed t
  | inside {t u : TensorId} {p : Provenance} {m : ModelDef} (producer : g.producer? t = some p)
      (model : g.model? p.layer = some m) (inner : g.inner? t = some u) (rest : Grounded g fed u) :
      Grounded g fed t
  | forward {t : TensorId} {p : Provenance} {inv : Invocation} {op : Operation α}
      (producer : g.producer? t = some p) (record : g.record? p.source = some inv)
      (operation : g.operation? p.layer = some op) (inputs : ∀ u ∈ inv.inputs, Grounded g fed u) :
      Grounded g fed t

/-- A layer fails on what the inputs of one of its invocations evaluate to, or
    gives another number of arrays than the invocation has outputs. -/
def LayerFails (g : Graph α) (fed : Valuation α) (e : Failure) : Prop :=
  ∃ i inv layer op vs, g.record? i = some inv ∧ g.layer i.layer = .ok layer ∧
    layer.kind.operation? = some op ∧ List.Forall₂ (g.Evaluates fed) inv.inputs vs ∧
    ((∃ f, op.forward vs = .error f ∧ f.within (.evaluating layer.text) = e) ∨
      ∃ rs, op.forward vs = .ok rs ∧ rs.length ≠ inv.outputs.length ∧
        .refused [] (.graph (.producedCount layer.text rs.length inv.outputs.length)) = e)

/-- Every output of an invocation has a value. -/
def Valued (g : Graph α) (values : Valuation α) (i : InvocationId) : Prop :=
  ∀ inv, g.record? i = some inv → ∀ t ∈ inv.outputs, ∃ v, values.lookup t = some v

section
variable {g : Graph α} {fed values values' : Valuation α} {i : InvocationId} {inv : Invocation}

omit [Scalar α] in
theorem Valued.later (h : g.Valued values i) (hl : Later values values') : g.Valued values' i := by
  intro inv hr t ht
  obtain ⟨v, hv⟩ := h inv hr t ht
  exact ⟨v, hl t v hv⟩

omit [Scalar α] in
theorem valued_assign {rs : List (Grid α)} (hr : g.record? i = some inv)
    (hp : g.Produces i inv.outputs) (hlen : rs.length = inv.outputs.length) :
    g.Valued (values.assign inv.outputs rs) i := by
  intro inv' hr' t ht
  obtain rfl := Option.some.inj (hr.symm.trans hr')
  have hvs : List.Forall₂ (fun t v => (values.assign inv.outputs rs).lookup t = some v) inv.outputs rs :=
    forall₂_lookup_bind hp.nodup hlen.symm
  obtain ⟨v, -, hv⟩ := forall₂_mem_left hvs t ht
  exact ⟨v, hv⟩

/-! ## Grounded tensors -/

section
variable (hs : g.Sound)
include hs

/-- The outputs of an invocation are grounded if its inputs are. -/
theorem grounded_output : ∀ {n : Nat} {t : TensorId} {p : Provenance} {inv : Invocation},
    t.index < n → g.producer? t = some p → g.record? p.source = some inv →
      (∀ u ∈ inv.inputs, g.Grounded fed u) → g.Grounded fed t
  | 0, _, _, _, hn, _, _, _ => by omega
  | n + 1, t, p, inv, hn, hp, hr, hin => by
    obtain ⟨hmade, ht⟩ := hs.made_of_producer hp hr
    cases hmade with
    | applied ha => exact .forward hp hr ha.operation hin
    | @called m order become hc =>
      obtain ⟨y, hy, hinner, hlt, -⟩ := forall₂_getElem? hc.outputs ht
      refine .inside hp hc.model hinner ?_
      -- what the tensors of the model became inside of the call, from the oldest on
      suffices hbecome : ∀ (k : Nat) (v : TensorId), (become v).index = k → k < n →
          g.Met m.inputs m.outputs v → g.Grounded fed (become v) from
        hbecome _ y rfl (by omega) (.root (List.mem_of_getElem? hy))
      intro k
      induction k using Nat.strong_induction_on with
      | _ k ih =>
      intro v hk hkn hmet
      obtain ⟨_, q, inv', -, hq, hr', -, hinputs⟩ := hc.replayed.copied hs hmet
      refine grounded_output (n := n) (by omega) hq hr' fun w hw => ?_
      rcases hinputs with ⟨-, u, hu, he⟩ | ⟨inv'', -, -, he, hmets⟩
      · rw [he, List.mem_singleton] at hw
        exact hw ▸ hin u hu
      · have hold := hs.acyclic hq hr' w hw
        rw [he, List.mem_map] at hw
        obtain ⟨u, hu, rfl⟩ := hw
        exact ih _ (by omega) u rfl (by omega) (hmets u hu)

/-- What the search for the invocations of a model meets is grounded if the
    inputs of the model are fed. -/
theorem grounded_of_met {m : ModelDef} {order : List InvocationId}
    (ho : g.internalOrder m = .ok order) (hfed : ∀ t ∈ m.inputs, ∃ v, fed.lookup t = some v)
    {t : TensorId} (ht : g.Met m.inputs m.outputs t) : g.Grounded fed t := by
  obtain ⟨-, -, hsettled⟩ := internalOrder_lists hs.acyclic ho
  induction hk : t.index using Nat.strong_induction_on generalizing t with
  | _ k ih =>
  by_cases hin : t ∈ m.inputs
  · obtain ⟨v, hv⟩ := hfed t hin
    exact .fed hv
  · obtain ⟨p, hp, -⟩ := (hsettled t ht).resolve_left hin
    obtain ⟨inv, hr, -, -⟩ := hs.made hp
    refine grounded_output hs t.index.lt_succ_self hp hr fun u hu => ?_
    have hlt := hs.acyclic hp hr u hu
    exact ih u.index (by omega) (.input ht hin hp hr hu) rfl

end

/-- What an unfed output of a call stands for is grounded if the output is. -/
theorem Grounded.inner {t u : TensorId} {p : Provenance} {m : ModelDef} (h : g.Grounded fed t)
    (hf : fed.lookup t = none) (hp : g.producer? t = some p) (hm : g.model? p.layer = some m)
    (hu : g.inner? t = some u) : g.Grounded fed u := by
  cases h with
  | fed h => simp [hf] at h
  | inside _ _ inner rest =>
    obtain rfl := Option.some.inj (inner.symm.trans hu)
    exact rest
  | forward producer _ operation =>
    obtain rfl := Option.some.inj (hp.symm.trans producer)
    simp [operation?_eq_none_of_model? hm] at operation

/-! ## Evaluation -/

/-- A layer that is given values for all inputs fails only by itself. -/
theorem ensures_forward (hc : g.Consistent fed values) (hr : g.record? i = some inv)
    {op : Operation α} (hop : g.operation? i.layer = some op)
    (hin : ∀ u ∈ inv.inputs, ∃ v, values.lookup u = some v) :
    (g.forward i.layer inv values).Ensures (g.LayerFails fed) fun rs =>
      rs.length = inv.outputs.length := by
  obtain ⟨layer, hl⟩ := layer_of_record hr
  rw [operation?_of_layer hl] at hop
  obtain ⟨vs, hvs⟩ := exists_forall₂ hin
  have hread : inv.inputs.mapM (fun t => orRefuse (values.lookup t) (GraphCause.noValue t)) = .ok vs :=
    mapM_forall₂.2 (hvs.imp fun _ _ => orRefuse_eq_ok.2)
  have hop' : orRefuse layer.kind.operation? (GraphCause.notPrimitive layer.text) = .ok op :=
    orRefuse_eq_ok.2 hop
  simp only [forward, hl, hop', hread, bind, Except.bind]
  cases hres : op.forward vs with
  | error f => exact ⟨i, inv, layer, op, vs, hr, hl, hop, hvs.imp hc.evaluates, .inl ⟨f, hres, rfl⟩⟩
  | ok rs =>
    by_cases hlen : rs.length = inv.outputs.length
    · simp only [Outcome.within, Except.mapError, require, if_pos hlen]
      exact hlen
    · simp only [Outcome.within, Except.mapError, require, if_neg hlen]
      exact ⟨i, inv, layer, op, vs, hr, hl, hop, hvs.imp hc.evaluates, .inr ⟨rs, hres, hlen, rfl⟩⟩

section
variable (hs : g.Sound) (hf : g.FedAtEntries fed)
include hs hf

/-- Tensors that are evaluated on demand one after the other all get values. -/
theorem ensures_inputs {ts : List TensorId} {depth : Nat} (hc : g.Consistent fed values)
    (h : ∀ t ∈ ts, ∀ values : Valuation α, g.Consistent fed values →
      (g.resolve depth values t).Ensures (g.LayerFails fed) fun _ => True) :
    (ts.foldlM (fun values t => (·.1) <$> g.resolve depth values t) values).Ensures
      (g.LayerFails fed) fun found => g.Consistent fed found ∧
        ∀ t ∈ ts, ∃ v, found.lookup t = some v := by
  refine Outcome.ensures_foldlM (I := fun done values => g.Consistent fed values ∧
    ∀ t ∈ done, ∃ v, values.lookup t = some v) ⟨hc, by simp⟩ ?_
  rintro done t rest values hsplit ⟨hc, hdone⟩
  refine Outcome.Ensures.of_eq_ok (P := fun _ => True) ?_ fun values' hval _ => ?_
  · rw [← bind_pure_comp]
    exact (h t (by simp [hsplit]) values hc).bind fun _ _ _ => trivial
  · obtain ⟨⟨values'', v⟩, hres, rfl⟩ := map_eq_ok.1 hval
    obtain ⟨hc', hl', -⟩ := resolve_sound hs hf hres hc
    refine ⟨hc', fun w hw => ?_⟩
    rcases List.mem_append.1 hw with hw | hw
    · obtain ⟨v', hv'⟩ := hdone w hw
      exact ⟨v', hl' _ _ hv'⟩
    · obtain rfl := List.mem_singleton.1 hw
      exact ⟨v, lookup_of_resolve hres⟩

/-- **Evaluating a grounded tensor on demand** comes to an end, and fails only
    in a layer. -/
theorem ensures_resolve {t : TensorId} (h : g.Grounded fed t) :
    ∀ {depth : Nat} {values : Valuation α}, t.index < depth → g.Consistent fed values →
      (g.resolve depth values t).Ensures (g.LayerFails fed) fun _ => True := by
  induction h with
  | fed h =>
    rintro (_ | depth) values hd hc
    · omega
    · rw [resolve, hc.keeps _ _ h]
      trivial
  | @inside t u p m producer model inner _ ih =>
    rintro (_ | depth) values hd hc
    · omega
    rw [resolve]
    cases hv : values.lookup t with
    | some v => trivial
    | none =>
      obtain ⟨k, hk, hkm⟩ := Option.bind_eq_some_iff.1 model
      obtain ⟨layer, hl, rfl⟩ := kind?_eq_some.1 hk
      obtain ⟨x, hx, hxu⟩ := inner?_eq_some.1 inner
      have hp : g.producer t = .ok p := producer_eq_ok.2 producer
      have hlt := hs.inner_lt producer model inner
      simp only [hp, hl, hx, hxu, bind, Except.bind, orRefuse, Option.elim_some]
      rw [if_pos (by simp [LayerKind.isModel, hkm])]
      exact (ih (by omega) hc).bind fun _ _ _ => trivial
  | @forward t p inv op producer record operation _ ih =>
    rintro (_ | depth) values hd hc
    · omega
    rw [resolve]
    cases hv : values.lookup t with
    | some v => trivial
    | none =>
      obtain ⟨hmade, hout⟩ := hs.made_of_producer producer record
      obtain ⟨k, hk, hkop⟩ := Option.bind_eq_some_iff.1 operation
      obtain ⟨layer, hl, rfl⟩ := kind?_eq_some.1 hk
      have hp : g.producer t = .ok p := producer_eq_ok.2 producer
      have hinv : layer.invocation p.invocation = .ok inv := (layer_invocation hl).2 record
      have hprim : layer.kind.isModel = false := by
        rcases operation?_or_model? hl with ⟨_, -, hnot, -, -⟩ | ⟨_, -, -, -, hnone⟩
        · exact hnot
        · exact absurd (hnone.symm.trans operation) (by simp)
      simp only [hp, hl, hinv, bind, Except.bind]
      rw [if_neg (by simp [hprim])]
      have hinputs : ∀ u ∈ inv.inputs, ∀ values : Valuation α, g.Consistent fed values →
          (g.resolve depth values u).Ensures (g.LayerFails fed) fun _ => True := by
        intro u hu values hc
        have hlt := hs.acyclic producer record u hu
        exact ih u hu (by omega) hc
      refine (ensures_inputs hs hf hc hinputs).bind fun found _ hfound => ?_
      obtain ⟨hc', hin⟩ := hfound
      refine (ensures_forward hc' record operation hin).bind fun rs _ hlen => ?_
      have hvalued : g.Valued (found.assign inv.outputs rs) p.source :=
        valued_assign record hmade.produces hlen
      obtain ⟨v, hv⟩ := hvalued inv record t (List.mem_of_getElem? hout)
      simp only [hv, orRefuse, Option.elim_some]
      trivial

/-- Evaluating an invocation whose inputs have values fails only in a layer, and
    gives values to its outputs. -/
theorem ensures_evaluate_valued (hi : g.MakesUnfed fed i) (hc : g.Consistent fed values)
    (hin : ∀ inv, g.record? i = some inv → ∀ u ∈ inv.inputs, ∃ v, values.lookup u = some v)
    (hout : ∀ inv, g.record? i = some inv → ∀ t ∈ inv.outputs, g.Grounded fed t) :
    (g.evaluate values i).Ensures (g.LayerFails fed) fun values' => g.Valued values' i := by
  obtain ⟨inv, hr, hmade, hunfed⟩ := hi
  obtain ⟨layer, hl⟩ := layer_of_record hr
  have hinv : layer.invocation i.invocation = .ok inv := (layer_invocation hl).2 hr
  simp only [evaluate, hl, hinv, bind, Except.bind]
  rcases operation?_or_model? hl with ⟨op, -, hprim, hop, -⟩ | ⟨m, -, hmodel, hm, -⟩
  · rw [if_neg (by simp [hprim])]
    exact (ensures_forward hc hr hop (hin inv hr)).bind fun rs _ hlen =>
      valued_assign hr hmade.produces hlen
  · rw [if_pos hmodel]
    -- the outputs are found inside of the call
    refine (Outcome.ensures_foldlM (I := fun done found => g.Consistent fed found.1 ∧
      found.2.length = done.length) ⟨hc, rfl⟩ ?_).bind fun found _ hfound =>
        valued_assign hr hmade.produces hfound.2
    rintro done t rest ⟨values₁, rs⟩ hsplit ⟨hc₁, hlen⟩
    have ht : t ∈ inv.outputs := by simp [hsplit]
    obtain ⟨p, hp, rfl⟩ := hmade.produces.source ht
    obtain ⟨order, become, hcall⟩ := hmade.called_of_model hm
    obtain ⟨k, hk⟩ := List.mem_iff_getElem?.1 ht
    obtain ⟨y, -, hu, -⟩ := forall₂_getElem? hcall.outputs hk
    obtain ⟨x, hx, hxu⟩ := inner?_eq_some.1 hu
    have hground := (hout inv hr t ht).inner (hunfed t ht) hp hm hu
    have hlt := hs.inner_lt hp hm hu
    have hsize := index_lt_of_producer? hp
    simp only [evaluateOutput, hx, hxu, bind, Except.bind, orRefuse, Option.elim_some]
    have hdepth : (become y).index < g.tensors.size + 1 := by omega
    refine (ensures_resolve hs hf hground hdepth hc₁).bind fun found hres _ => ?_
    exact ⟨(resolve_sound hs hf hres hc₁).1, by simp [hlen]⟩

end

/-- A settled tensor has a value once the invocations that settle it have been
    evaluated. -/
theorem Sound.exists_value_of_settled (hs : g.Sound) {stop : List TensorId}
    (hfed : ∀ t ∈ stop, ∃ v, fed.lookup t = some v) (hc : g.Consistent fed values)
    {done : List InvocationId} (hdone : ∀ i ∈ done, g.Valued values i) {t : TensorId}
    (ht : g.Settled stop done t) : ∃ v, values.lookup t = some v := by
  rcases ht with ht | ⟨p, hp, hi⟩
  · obtain ⟨v, hv⟩ := hfed t ht
    exact ⟨v, hc.keeps t v hv⟩
  · obtain ⟨inv, hr, hout, -⟩ := hs.made hp
    exact hdone _ hi inv hr t (List.mem_of_getElem? hout)

/-- Evaluating the invocations of a model fails only in a layer, and gives
    values to all their outputs. -/
theorem ensures_evaluateAll (hs : g.Sound) {l : LayerId} {m : ModelDef} (hm : g.model? l = some m)
    {order : List InvocationId} (ho : g.internalOrder m = .ok order) {vs : List (Grid α)}
    (hlen : m.inputs.length = vs.length) :
    (order.foldlM g.evaluate (m.inputs.zip vs).reverse).Ensures
      (g.LayerFails (m.inputs.zip vs).reverse)
      fun values => ∀ t, g.Met m.inputs m.outputs t → ∃ v, values.lookup t = some v := by
  have hf := fedAtEntries hs hm vs
  have hfed : ∀ t ∈ m.inputs, ∃ v, (m.inputs.zip vs).reverse.lookup t = some v :=
    fun t ht => exists_lookup_zip hlen ht
  obtain ⟨hlists, hreached, hsettled⟩ := internalOrder_lists hs.acyclic ho
  refine (Outcome.ensures_foldlM (I := fun done values =>
    g.Consistent (m.inputs.zip vs).reverse values ∧ ∀ i ∈ done, g.Valued values i)
    ⟨consistent_self, by simp⟩ ?_).of_eq_ok fun values _ ⟨hc, hdone⟩ t ht =>
      hs.exists_value_of_settled hfed hc hdone (hsettled t ht)
  rintro done i rest values hsplit ⟨hc, hdone⟩
  have hi : i ∈ order := by simp [hsplit]
  have hunfed := makesUnfed_of_internalOrder hs hm ho vs i hi
  obtain ⟨t, p, ht, hstop, hp, rfl⟩ := hreached i hi
  refine (ensures_evaluate_valued hs hf hunfed hc ?_ ?_).of_eq_ok fun values' hval hv => ?_
  · intro inv hr u hu
    obtain ⟨inv', hr', hin⟩ := hlists.settled_before hsplit
    obtain rfl := Option.some.inj (hr.symm.trans hr')
    exact hs.exists_value_of_settled hfed hc hdone (hin u hu)
  · intro inv hr u hu
    obtain ⟨q, hq, hsource⟩ := (hs.made_of_producer hp hr).1.produces.source hu
    refine grounded_output hs u.index.lt_succ_self hq (hsource ▸ hr) fun w hw => ?_
    exact grounded_of_met hs ho hfed (.input ht hstop hp hr hw)
  · obtain ⟨hc', hlater⟩ := evaluate_sound hs hf hunfed hval hc
    refine ⟨hc', fun j hj => ?_⟩
    rcases List.mem_append.1 hj with hj | hj
    · exact (hdone j hj).later hlater
    · obtain rfl := List.mem_singleton.1 hj
      exact hv

omit [Scalar α] in
/-- Arrays of the declared shapes can be fed. -/
theorem exists_feeds : ∀ {xs : List (TensorId × Grid α)} (values : Valuation α),
    (∀ e ∈ xs, ∃ s, g.shape? e.1 = some s ∧ s.matchesDims e.2.shape) →
      ∃ values', xs.foldlM g.feed values = .ok values'
  | [], values, _ => ⟨values, rfl⟩
  | e :: xs, values, h => by
    obtain ⟨s, hshape, hfits⟩ := h e (by simp)
    obtain ⟨x, hx, rfl⟩ := shape?_eq_some.1 hshape
    obtain ⟨values', hrest⟩ := exists_feeds (e :: values) fun e' he' =>
      h e' (List.mem_cons_of_mem _ he')
    refine ⟨values', foldlM_cons_eq_ok.2 ⟨e :: values, ?_, hrest⟩⟩
    simp only [feed, hx, bind, Except.bind, require, if_pos hfits]
    rfl

/-- **Evaluation fails in layers only.**  If a model is given as many arrays as
    it has inputs, of the declared shapes, its evaluation comes to an end, and
    the only failures are those of layers: the operation of one fails on what
    the inputs of an invocation evaluate to, or gives a wrong number of arrays.
    That a value, an internal tensor, a producer or an output is missing never
    happens. -/
theorem predict_fails_in_layers (h : g.Reachable) {l : LayerId} {m : ModelDef}
    (hm : g.modelDef l = .ok m) {inputs : List (Grid α)} (hlen : m.inputs.length = inputs.length)
    (hfit : ∀ e ∈ m.inputs.zip inputs, ∃ s, g.shape? e.1 = some s ∧ s.matchesDims e.2.shape) :
    (∃ ws, g.predict l inputs = .ok ws) ∨
    ∃ e, g.predict l inputs = .error e ∧ g.LayerFails (m.inputs.zip inputs).reverse e ∧
      ∀ cause, e = .refused [] cause → ∃ layer produced expected,
        cause = .graph (.producedCount layer produced expected) := by
  have hs := h.sound
  have hmodel := modelDef_eq_ok.1 hm
  obtain ⟨k, hk, -⟩ := Option.bind_eq_some_iff.1 hmodel
  obtain ⟨layer, hl, -⟩ := kind?_eq_some.1 hk
  obtain ⟨order, ho⟩ := (hs.model hmodel).listed
  obtain ⟨fed, hfeed⟩ := exists_feeds [] hfit
  obtain rfl := feeds_eq_ok hfeed
  rw [List.append_nil] at hfeed
  have hensures : (g.predict l inputs).Ensures (g.LayerFails (m.inputs.zip inputs).reverse)
      fun _ => True := by
    simp only [predict, hm, hl, hfeed, ho, bind, Except.bind, require, if_pos hlen]
    refine (ensures_evaluateAll hs hmodel ho hlen).bind fun values _ hvalues => ?_
    obtain ⟨ws, hws⟩ := exists_forall₂ fun t (ht : t ∈ m.outputs) => hvalues t (.root ht)
    refine Outcome.ensures_of_ok (b := ws) ?_ trivial
    exact mapM_forall₂.2 (hws.imp fun _ _ => orRefuse_eq_ok.2)
  cases hpredict : g.predict l inputs with
  | ok ws => exact .inl ⟨ws, rfl⟩
  | error e =>
    have hfails := hensures.of_error hpredict
    refine .inr ⟨e, rfl, hfails, ?_⟩
    rintro cause rfl
    obtain ⟨_, _, layer, _, _, -, -, -, -, ⟨f, -, hf⟩ | ⟨rs, -, -, hf⟩⟩ := hfails
    · cases f <;> simp [Failure.within] at hf
    · exact ⟨_, _, _, (Failure.refused.inj hf).2.symm⟩

end

/-- A layer that promises an array and gives none. -/
def forgetful : Operation ℚ where
  typeName := "Forgetful"
  option _ := none
  outputShapes := sameShape "Forgetful"
  forward _ := .ok []
  parameterCount := 0

/-- A model with a forgetful layer, and a model around a call of it. -/
def forgetting : List (BuildStep ℚ) :=
  [.input "x" [1], .wire "forgetful" (.custom forgetful) [⟨0⟩], .model "inner" [⟨0⟩] [⟨1⟩],
    .input "u" [1], .call ⟨2⟩ [⟨2⟩], .model "outer" [⟨2⟩] [⟨5⟩]]

/-- The evaluation of a call fails in the layer inside of it. -/
theorem predict_fails_in_layers_forgetting :
    ∃ e, (build forgetting).predict ⟨4⟩ [⟨[1, 1], #[3], rfl⟩] = .error e ∧
      (build forgetting).LayerFails [(⟨2⟩, ⟨[1, 1], #[3], rfl⟩)] e := by
  have hm : (build forgetting).modelDef ⟨4⟩ = .ok ⟨[⟨2⟩], [⟨5⟩], [⟨3⟩, ⟨2⟩], false⟩ := by rfl
  have hfails : ((build forgetting).predict ⟨4⟩ [⟨[1, 1], #[3], rfl⟩]).isOk = false := by cbv
  have hfit : ∀ e ∈ [(⟨2⟩ : TensorId)].zip [(⟨[1, 1], #[3], rfl⟩ : Grid ℚ)], ∃ s,
      (build forgetting).shape? e.1 = some s ∧ s.matchesDims e.2.shape := by
    intro e he
    obtain rfl := List.mem_singleton.1 he
    exact ⟨_, rfl, rfl⟩
  rcases predict_fails_in_layers (reachable_build forgetting) hm rfl hfit with
    ⟨ws, hws⟩ | ⟨e, he, hlayer, -⟩
  · rw [hws] at hfails
    cases hfails
  · exact ⟨e, he, hlayer⟩

end Neuroform.Graph

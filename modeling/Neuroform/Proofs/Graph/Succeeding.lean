/-
  Neuroform — when a call of a model succeeds.

  Once the inputs of a model have accepted the tensors of a call, nothing can
  fail any more: each tensor becomes one of the same shape, so that every
  invocation is made again as it was made before, and calls of models inside of
  the model are on tensors that their inputs accept (`callWith_ends`).
-/
import Neuroform.Proofs.Graph.Entering
import Neuroform.Proofs.Rational

namespace Neuroform.Graph

variable {α : Type} [Scalar α] {β γ δ : Type} {g : Graph α}

/-! ## Steps that succeed -/

/-- A step succeeds and leads to a sound and tidy graph that has grown, and to a
    result with a property. -/
def Completes (g : Graph α) (s : Step (Graph α) β) (Q : Graph α → β → Prop) : Prop :=
  ∃ b g', s.exec g = (.ok b, g') ∧ g'.Sound ∧ g'.Tidy ∧ g.Grows g' ∧ Q g' b

namespace Completes
variable {s : Step (Graph α) β} {Q : Graph α → β → Prop}

/-- What a step leads to if it succeeds. -/
theorem of_leads (h : g.Leads s Q) {b : β} {g' : Graph α} (he : s.exec g = (.ok b, g'))
    (ht : g'.Tidy) : g.Completes s Q := by
  obtain ⟨hs, hg, hq⟩ := h
  rw [he] at hs hg hq
  exact ⟨b, g', he, hs, ht, hg, hq b rfl⟩

/-- A loop whose steps succeed one after the other. -/
theorem foldlM {f : γ → δ → Step (Graph α) γ} {I : List δ → Graph α → γ → Prop} {xs : List δ}
    {c : γ} (hs : g.Sound) (ht : g.Tidy) (hi : I [] g c)
    (step : ∀ done x rest g' c, xs = done ++ x :: rest → g'.Sound → g'.Tidy → g.Grows g' →
      I done g' c → g'.Completes (f c x) (I (done ++ [x]))) : g.Completes (xs.foldlM f c) (I xs) := by
  suffices h : ∀ rest done g' c, xs = done ++ rest → g'.Sound → g'.Tidy → g.Grows g' →
      I done g' c → g'.Completes (rest.foldlM f c) (I xs) from h xs [] g c rfl hs ht (.refl g) hi
  intro rest
  induction rest with
  | nil =>
    intro done g' c hx hs' ht' _ hi'
    rw [List.append_nil] at hx
    exact ⟨c, g', rfl, hs', ht', .refl g', hx ▸ hi'⟩
  | cons x rest ih =>
    intro done g' c hx hs' ht' hg hi'
    obtain ⟨b, g₁, he, hs₁, ht₁, hg₁, hi₁⟩ := step done x rest g' c hx hs' ht' hg hi'
    obtain ⟨d, g₂, he', hs₂, ht₂, hg₂, hi₂⟩ :=
      ih (done ++ [x]) g₁ b (by simp [hx]) hs₁ ht₁ (hg.trans hg₁) hi₁
    exact ⟨d, g₂, by rw [List.foldlM_cons, Step.exec_bind_ok he, he'], hs₂, ht₂,
      hg₁.trans hg₂, hi₂⟩

end Completes

/-! ## Replaying -/

/-- What a way of applying layers does on those below an index: entries are
    applied, and recorded invocations are made again on tensors of the same
    shapes. -/
structure Performs (n : Nat) (apply : LayerId → List TensorId → Step (Graph α) (List TensorId)) :
    Prop where
  leads : ∀ l inputs (g : Graph α), g.Sound → g.Leads (apply l inputs) (Applies l inputs)
  enters : ∀ l u (g : Graph α), l.index < n → g.IsEntry l →
    (apply l [u]).exec g = (applyPrimitive l [u]).exec g
  repeats : ∀ (g : Graph α) i inv us, g.Sound → g.Tidy → i.layer.index < n →
    g.record? i = some inv → g.Made i inv → List.Forall₂ g.SameShape inv.inputs us →
    ∃ zs g', (apply i.layer us).exec g = (.ok zs, g') ∧ g'.Tidy

section
variable {n : Nat} {apply : LayerId → List TensorId → Step (Graph α) (List TensorId)}
  {l : LayerId} {m : ModelDef} {ts : List TensorId}

/-- An invocation of a model is made again: the search for the invocations has
    settled its inputs before. -/
theorem Performs.replayInvocation (hperf : Performs n apply) (hs : g.Sound) (ht : g.Tidy)
    (hm : g.Defined l m) (hlayers : ∀ k ∈ m.layers, k.index < n)
    (hlen : m.inputs.length = ts.length) {order done rest : List InvocationId} {replay : Replay}
    {i : InvocationId} (hord : g.internalOrder m = .ok order) (ho : order = done ++ i :: rest)
    (h : g.Replaying (m.inputs.zip ts) done replay) :
    g.Completes (Graph.replayInvocation apply replay i) fun g' replay' =>
      g'.Replaying (m.inputs.zip ts) (done ++ [i]) replay' := by
  obtain ⟨hlists, -, -⟩ := internalOrder_lists hs.acyclic hord
  have hi : i ∈ order := by simp [ho]
  obtain ⟨inv, hr, hsettled⟩ := hlists.settled_before ho
  obtain ⟨-, t, p, -, hp, rfl⟩ := hlists.source hi
  obtain ⟨hmade, -⟩ := hs.made_of_producer hp hr
  obtain ⟨us, hus⟩ := exists_forall₂ fun t ht => h.bound hs hlen (hsettled t ht)
  obtain ⟨zs, g', hexec, ht'⟩ := hperf.repeats g p.source inv us hs ht
    (hlayers _ ((hm.owns _).2 (.inr ⟨order, hord, _, hi, rfl⟩))) hr hmade
    (hus.imp fun _ _ hy => hy.2)
  refine .of_leads (leads_replayInvocation_of_zip hperf.leads hs hm hord ho h)
    (b := (inv.outputs.zip zs).reverse ++ replay) ?_ ht'
  have hfed : (inv.inputs.mapM fun t => (liftM (orRefuse (replay.lookup t)
      (GraphCause.notReplayed t)) : Step (Graph α) TensorId)).exec g = (.ok us, g) := by
    refine (Step.exec_mapM_of_exec (f := fun t => orRefuse (replay.lookup t)
      (GraphCause.notReplayed t)) fun _ _ => rfl).trans ?_
    exact congrArg (·, g) (mapM_forall₂.2 (hus.imp fun _ _ hy => orRefuse_eq_ok.2 hy.1))
  unfold Graph.replayInvocation
  rw [Step.exec_get_bind, invocation_eq_ok.2 hr]
  simp only [Step.exec_lift_bind]
  rw [Step.exec_bind_ok hfed, Step.exec_bind_ok hexec]
  rfl

/-- How a call of a model ends. -/
inductive CallEnds (g : Graph α) (l : LayerId) (m : ModelDef) (ts : List TensorId) :
    Outcome (List TensorId) × Graph α → Prop where
  /-- The number of tensors is not that of the inputs. -/
  | arity {layer : Layer α} (hl : g.layer l = .ok layer) (h : m.inputs.length ≠ ts.length) :
      CallEnds g l m ts
        (refuse (GraphCause.modelArity layer.text m.inputs.length ts.length), g)
  /-- An input does not accept its tensor, those before it have been fed. -/
  | refused {done rest : List (TensorId × TensorId)} {x u : TensorId} {e : Failure} {g' : Graph α}
      (hlen : m.inputs.length = ts.length) (split : m.inputs.zip ts = done ++ (x, u) :: rest)
      (enters : g.Enters done g') (refuses : ¬g'.Accepts x u)
      (cause : ∀ s, g'.shape? u = some s → g'.Refuses x u e) : CallEnds g l m ts (.error e, g')
  /-- The model has been replayed. -/
  | replayed {zs : List TensorId} {n : Nat} {g₁ g' : Graph α} (hlen : m.inputs.length = ts.length)
      (enters : g.Enters (m.inputs.zip ts) g₁) (grows : g₁.Grows g') (tidy : g'.Tidy)
      (new : g.record? ⟨l, n⟩ = none)
      (record : g'.record? ⟨l, n⟩ = some ⟨ts, zs⟩) : CallEnds g l m ts (.ok zs, g')

omit [Scalar α] in
/-- A layer that was looked up has no invocation beyond those that it has. -/
theorem record?_size {layer : Layer α} (hl : g.layer l = .ok layer) :
    g.record? ⟨l, layer.invocations.size⟩ = none := by
  simp [record?, layer_eq_ok.1 hl]

omit [Scalar α] in
theorem Grows.record_none {g' : Graph α} (h : g.Grows g') {i : InvocationId}
    (hr : g'.record? i = none) : g.record? i = none := by
  cases hi : g.record? i with
  | none => rfl
  | some inv => rw [h.record _ _ hi] at hr; cases hr

omit [Scalar α] in
theorem exists_layer_of_model? (hm : g.model? l = some m) : ∃ layer, g.layer l = .ok layer := by
  obtain ⟨k, hk, -⟩ := Option.bind_eq_some_iff.1 hm
  obtain ⟨layer, hl, -⟩ := kind?_eq_some.1 hk
  exact ⟨layer, hl⟩

/-- **A call of a model in a tidy graph** ends in one of these ways. -/
theorem callWith_ends (hperf : Performs n apply) (hs : g.Sound) (ht : g.Tidy)
    (hm : g.model? l = some m) (hl : l.index ≤ n) :
    g.CallEnds l m ts ((callWith apply l ts).exec g) := by
  have hdef := hs.model hm
  have hlayers : ∀ k ∈ m.layers, k.index < n := fun k hk => (ht.layered l m hm k hk).trans_le hl
  obtain ⟨layer, hlayer⟩ := exists_layer_of_model? hm
  unfold callWith
  rw [Step.exec_get_bind, modelDef_eq_ok.2 hm, hlayer]
  simp only [Step.exec_lift_bind]
  by_cases hlen : m.inputs.length = ts.length
  case neg =>
    rw [require, if_neg hlen]
    exact .arity hlayer hlen
  rw [require, if_pos hlen]
  dsimp only
  -- the inputs are fed
  have hfed : g.Leads ((m.inputs.zip ts).foldlM (replayInput apply) []) fun g' replay =>
      g'.Replaying (m.inputs.zip ts) [] replay := leads_replayInputs hperf.leads hs hdef
  rcases replayInputs_ends hperf.enters (m.inputs.zip ts) [] g fun e he => by
        have hin := (List.of_mem_zip he).1
        obtain ⟨p, hp, hentry⟩ := hdef.entry e.1 hin
        exact ⟨p, hp, hentry, hlayers _ ((hdef.owns _).2 (.inl ⟨e.1, hin, p, hp, rfl⟩))⟩ with
    ⟨replay, g₁, hexec, henters⟩ | ⟨done, x, u, rest, e, g₁, hsplit, hexec, henters, hnot, hcause⟩
  case inr =>
    rw [Step.exec_bind_error hexec]
    exact .refused hlen hsplit henters hnot hcause
  obtain ⟨hs₁, hg₁, h₁⟩ := hfed
  rw [hexec] at hs₁ hg₁ h₁
  rw [Step.exec_bind_ok hexec, Step.exec_get_bind]
  -- the invocations are copied
  obtain ⟨order, hord⟩ := (hdef.mono hg₁).listed
  rw [hord]
  simp only [Step.exec_lift_bind]
  have hcopied : g₁.Completes (order.foldlM (Graph.replayInvocation apply) replay) fun g' replay' =>
      g'.Replaying (m.inputs.zip ts) order replay' := by
    refine .foldlM (I := fun done g' replay => g'.Replaying (m.inputs.zip ts) done replay) hs₁
      (henters.tidy ht) (h₁ _ rfl) fun done i rest g' replay ho hs' ht' hg h => ?_
    exact hperf.replayInvocation hs' ht' (hdef.mono (hg₁.trans hg)) hlayers hlen
      (internalOrder_of_grows hg hord) ho h
  obtain ⟨replay, g₂, hexec, hs₂, ht₂, hg₂, h₂⟩ := hcopied
  have hg := hg₁.trans hg₂
  rw [Step.exec_bind_ok hexec, Step.exec_get_bind]
  -- the outputs are added
  obtain ⟨layer, hlayer⟩ := exists_layer_of_model? (hg.model hm)
  rw [hlayer]
  simp only [Step.exec_lift_bind]
  have hadd : ∀ e ∈ m.outputs.zipIdx, ∀ xs,
      (addStandIn replay ⟨l, layer.invocations.size⟩ e).exec (g₂.pushTensors xs) =
        (addTensor (g₂.standIn replay ⟨l, layer.invocations.size⟩ e)).exec (g₂.pushTensors xs) := by
    intro e he xs
    obtain ⟨y, hy, s, -, hys⟩ := h₂.output hs₂ hlen (internalOrder_of_grows hg₂ hord)
      (List.fst_mem_of_mem_zipIdx he)
    exact exec_addStandIn hy hys xs
  rw [exec_record hadd]
  refine .replayed hlen henters (hg₂.trans (grows_extended hlayer)) ?_
    (hg.record_none (record?_size hlayer)) (by rw [record?_extended hlayer, if_pos rfl])
  refine ht₂.extended hlayer fun m' hm' => ?_
  obtain rfl := Option.some.inj ((hg.model hm).symm.trans hm')
  exact List.forall₂_iff_zip.2 ⟨hlen, fun h => (henters.accepts _ h).mono hg₂⟩

namespace CallEnds
variable {r : Outcome (List TensorId) × Graph α}

/-- However a call ends, the graph has grown. -/
theorem grows (h : g.CallEnds l m ts r) : g.Grows r.2 := by
  cases h with
  | arity => exact .refl g
  | refused _ _ enters => exact enters.grows
  | replayed _ enters grows => exact enters.grows.trans grows

/-- However a call ends, the graph is tidy. -/
theorem tidy (h : g.CallEnds l m ts r) (ht : g.Tidy) : r.2.Tidy := by
  cases h with
  | arity => exact ht
  | refused _ _ enters => exact enters.tidy ht
  | replayed _ _ _ tidy => exact tidy

/-- A call on tensors that the inputs accept succeeds. -/
theorem succeeds (h : g.CallEnds l m ts r) (hts : List.Forall₂ g.Accepts m.inputs ts) :
    ∃ zs, r.1 = .ok zs := by
  cases h with
  | arity _ h => exact absurd hts.length_eq h
  | refused _ split enters refuses =>
    exact absurd (((List.forall₂_iff_zip.1 hts).2 (by simp [split])).mono enters.grows) refuses
  | replayed => exact ⟨_, rfl⟩

end CallEnds

/-! ## Applying layers -/

theorem applyWithin_succ {layer : Layer α} (hl : g.layer l = .ok layer) :
    (applyWithin (n + 1) l ts).exec g =
      (if layer.kind.isModel then callWith (applyWithin n) l ts else applyPrimitive l ts).exec g := by
  unfold applyWithin
  rw [Step.exec_get_bind, hl, Step.exec_lift_bind]

theorem applyWithin_primitive {op : Operation α} (hop : g.operation? l = some op) :
    (applyWithin (n + 1) l ts).exec g = (applyPrimitive l ts).exec g := by
  obtain ⟨k, hk, -⟩ := Option.bind_eq_some_iff.1 hop
  obtain ⟨layer, hl, rfl⟩ := kind?_eq_some.1 hk
  rcases operation?_or_model? hl with ⟨-, -, hnot, -, -⟩ | ⟨m, -, -, -, hnone⟩
  · rw [applyWithin_succ hl, if_neg (by simp [hnot])]
  · rw [hop] at hnone
    cases hnone

theorem applyWithin_model (hm : g.model? l = some m) :
    (applyWithin (n + 1) l ts).exec g = (callWith (applyWithin n) l ts).exec g := by
  obtain ⟨layer, hl⟩ := exists_layer_of_model? hm
  rcases operation?_or_model? hl with ⟨-, -, -, -, hnone⟩ | ⟨m, -, hmodel, -, -⟩
  · rw [hm] at hnone
    cases hnone
  · rw [applyWithin_succ hl, if_pos hmodel]

end

/-- Layers below an index are applied if models may be nested as deep. -/
theorem performs_applyWithin : ∀ n : Nat, Performs (α := α) n (applyWithin n)
  | 0 => ⟨fun _ _ _ => leads_applyWithin, fun _ _ _ h => absurd h (by simp),
      fun _ _ _ _ _ _ h => absurd h (by simp)⟩
  | n + 1 => by
    refine ⟨fun _ _ _ => leads_applyWithin, fun l u g _ ⟨d, hd⟩ => ?_, ?_⟩
    · have hop : g.operation? l = some d.operation := by
        rw [operation?, hd]
        rfl
      exact applyWithin_primitive hop
    intro g i inv us hs ht hlt hr hmade hus
    cases hmade with
    | applied h =>
      obtain ⟨zs, g', hexec⟩ := h.again hus
      have htidy := ht.applyPrimitive i.layer us
      rw [hexec] at htidy
      exact ⟨zs, g', (applyWithin_primitive h.operation).trans hexec, htidy⟩
    | @called m _ _ h =>
      -- what the inputs accepted then they accept now
      have haccepts : List.Forall₂ g.Accepts m.inputs us :=
        forall₂_comp (fun _ _ _ ha hsame => ha.of_sameShape hsame)
          (ht.entered i.layer m i.invocation inv h.model hr) hus
      have hends : g.CallEnds i.layer m us _ :=
        callWith_ends (performs_applyWithin n) hs ht h.model (Nat.le_of_lt_succ hlt)
      obtain ⟨zs, hzs⟩ := hends.succeeds haccepts
      exact ⟨zs, _, (applyWithin_model h.model).trans (Prod.ext hzs rfl), hends.tidy ht⟩

/-! ## Building -/

/-- A graph is sound and tidy. -/
def Orderly (g : Graph α) : Prop := g.Sound ∧ g.Tidy

theorem keeps_of_leads {s : Step (Graph α) β} {Q : Graph α → Graph α → β → Prop}
    (hleads : ∀ g : Graph α, g.Sound → g.Leads s (Q g))
    (htidy : ∀ g : Graph α, g.Sound → g.Tidy → (s.exec g).2.Tidy) : s.Keeps Orderly :=
  fun g h => ⟨(hleads g h.1).1, htidy g h.1 h.2⟩

theorem keeps_apply {l : LayerId} {ts : List TensorId} :
    (Graph.apply (α := α) l ts).Keeps Orderly := by
  refine keeps_of_leads (fun g hs => leads_apply hs) fun g hs ht => ?_
  unfold Graph.apply
  rw [Step.exec_get_bind]
  cases hl : g.layer l with
  | error e =>
    unfold applyWithin
    rw [Step.exec_get_bind, hl, Step.exec_lift_bind]
    exact ht
  | ok layer =>
    have hlt := index_lt_of_kind? (kind?_of_layer hl)
    rcases operation?_or_model? hl with ⟨op, -, -, hop, -⟩ | ⟨m, -, -, hm, -⟩
    · rw [applyWithin_primitive hop]
      exact ht.applyPrimitive l ts
    · rw [applyWithin_model hm]
      exact (callWith_ends (performs_applyWithin _) hs ht hm hlt.le).tidy ht

/-- How a call of a model of a tidy graph ends. -/
theorem call_ends (hs : g.Sound) (ht : g.Tidy) {l : LayerId} {m : ModelDef} {ts : List TensorId}
    (hm : g.model? l = some m) : g.CallEnds l m ts ((call l ts).exec g) := by
  obtain ⟨layer, hl⟩ := exists_layer_of_model? hm
  unfold call
  rw [Step.exec_get_bind]
  exact callWith_ends (performs_applyWithin _) hs ht hm
    ((index_lt_of_kind? (kind?_of_layer hl)).le.trans (Nat.le_succ _))

theorem keeps_call {l : LayerId} {ts : List TensorId} :
    (call (α := α) l ts).Keeps Orderly := by
  refine keeps_of_leads (fun g hs => leads_call hs) fun g hs ht => ?_
  cases hm : g.model? l with
  | some m => exact (call_ends hs ht hm).tidy ht
  | none =>
    cases hdef : g.modelDef l with
    | error e =>
      unfold call callWith
      rw [Step.exec_get_bind, Step.exec_get_bind, hdef, Step.exec_lift_bind]
      exact ht
    | ok m =>
      rw [modelDef_eq_ok, hm] at hdef
      cases hdef

theorem keeps_addLayer {name : String} {p : Primitive α} :
    (addLayer name (.primitive p)).Keeps Orderly :=
  keeps_of_leads (fun g hs => leads_addLayer hs) fun _ _ ht => ht.pushLayer (by simp)

theorem keeps_addInputShape {name : String} {shape : Shape} :
    (addInputShape (α := α) name shape).Keeps Orderly :=
  keeps_addLayer.bind fun _ => keeps_apply.bind fun _ => .lift

theorem keeps_wire {name : String} {p : Primitive α} {ts : List TensorId} :
    (wire name (.primitive p) ts).Keeps Orderly := by
  refine keeps_addLayer.bind fun l => keeps_apply.bind fun outputs => ?_
  split
  · exact .pure
  · exact .get_bind fun g => .bind .lift fun _ => .lift

theorem keeps_addModel {name : String} {inputs outputs : List TensorId} :
    (addModel (α := α) name inputs outputs).Keeps Orderly := by
  refine keeps_of_leads (fun g hs => leads_addModel hs) fun g hs ht => ?_
  rcases exec_addModel (g := g) name inputs outputs with ⟨e, h⟩ | ⟨entries, order, hin, hord, h⟩
  · rwa [h]
  · rw [h]
    exact ht.defined hs hin hord rfl

theorem keeps_addSequential {name : String} {dims : List Nat}
    {layers : List (String × Primitive α)} :
    (addSequential name dims (layers.map fun (name, p) => (name, .primitive p))).Keeps Orderly := by
  unfold addSequential
  refine keeps_addInputShape.bind fun input => ?_
  refine Step.Keeps.bind (.foldlM (fun t x hx => ?_) input) fun output => ?_
  · obtain ⟨⟨layerName, p⟩, -, rfl⟩ := List.mem_map.1 hx
    exact keeps_wire
  · refine keeps_of_leads (fun g hs => leads_addModel_sequential hs) fun g hs ht => ?_
    rcases exec_addModel_sequential (g := g) name [input] [output] with
      ⟨e, h⟩ | ⟨entries, order, hin, hord, h⟩
    · rwa [h]
    · rw [h]
      exact ht.defined hs hin hord rfl

theorem keeps_setTrainable {l : LayerId} {trainable : Bool} :
    (setTrainable (α := α) l trainable).Keeps Orderly := by
  refine keeps_of_leads (fun g hs => leads_setTrainable hs) fun g _ ht => ?_
  unfold setTrainable
  rw [Step.exec_get_bind, Step.exec_lift_bind]
  cases g.layer l with
  | error e => exact ht
  | ok layer =>
    exact ht.of_same grows_modifyLayer_trainable record?_modifyLayer_trainable
      kind?_modifyLayer_trainable

/-- Every operation of building keeps a graph tidy, also if it fails. -/
theorem BuildStep.orderly (s : BuildStep α) (h : g.Orderly) : (s.after g).Orderly := by
  cases s with
  | input name dims => exact keeps_addInputShape g h
  | inputShape name shape => exact keeps_addInputShape g h
  | detached shape =>
    exact ⟨(leads_addDetached h.1).1, h.2.of_same grows_pushTensor (fun _ => rfl) fun _ => rfl⟩
  | addLayer name layer => exact keeps_addLayer g h
  | apply l inputs => exact keeps_apply g h
  | wire name layer inputs => exact keeps_wire g h
  | model name inputs outputs => exact keeps_addModel g h
  | sequential name dims layers => exact keeps_addSequential g h
  | call l inputs => exact keeps_call g h
  | setTrainable l trainable => exact keeps_setTrainable g h

/-- Graphs that can be built are tidy. -/
theorem Reachable.tidy (h : g.Reachable) : g.Tidy := by
  suffices horderly : g.Orderly from horderly.2
  induction h with
  | refl => exact ⟨sound_empty, .empty⟩
  | step _ s ih => exact s.orderly ih

/-! ## Calls -/

section
variable {l : LayerId} {m : ModelDef} {ts : List TensorId}

omit [Scalar α] in
theorem exists_shape_of_lt {t : TensorId} (h : t.index < g.tensors.size) :
    ∃ s, g.shape? t = some s :=
  ⟨_, by rw [shape?, Array.getElem?_eq_getElem h, Option.map_some]⟩

/-- A new invocation of a model is a call of it, and keeps shapes. -/
theorem called_of_new {g' : Graph α} (hs : g.Sound) (hs' : g'.Sound) (hg : g.Grows g')
    (hm : g.model? l = some m) {n : Nat} {inv : Invocation} (hnew : g.record? ⟨l, n⟩ = none)
    (hr : g'.record? ⟨l, n⟩ = some inv) : ∃ order become, g'.Called ⟨l, n⟩ inv m order become ∧
      ∀ t, g'.Met m.inputs m.outputs t → g'.SameShape t (become t) := by
  have hmade : g'.Made ⟨l, n⟩ inv := by
    refine (hs'.record hr).resolve_right ?_
    rintro ⟨hn, -⟩
    -- the first invocation of a model is its definition
    have hn : n = 0 := hn
    rw [hn, (hs.model hm).record] at hnew
    cases hnew
  obtain ⟨order, become, hc⟩ := hmade.called_of_model (hg.model hm)
  obtain ⟨-, -, hsettled⟩ := internalOrder_lists hs'.acyclic hc.replayed.listed
  exact ⟨order, become, hc, fun t ht => hc.sameShape hs' (hsettled t ht)⟩

/-- **A call succeeds exactly when it should.**  In a graph that can be built, a
    call of a model on tensors of the graph succeeds just if there is one for
    each input, of the rank that the entry of the input declares.  Then it is
    recorded with its outputs, which have the shapes of those of the model, and
    in it as in every call inside of it each tensor of the called model has
    become one of the same shape.  If it fails, the graph has gained at most
    applications of entries to the first tensors; either the number of tensors
    is wrong, or the next tensor has been refused for its rank. -/
theorem call_succeeds_iff (hg : g.Reachable) (hm : g.model? l = some m)
    (hts : ∀ t ∈ ts, t.index < g.tensors.size) :
    ((∃ zs, ((call l ts).exec g).1 = .ok zs) ↔ List.Forall₂ g.Accepts m.inputs ts) ∧
    (∀ zs g', (call l ts).exec g = (.ok zs, g') →
      (∃ n, g.record? ⟨l, n⟩ = none ∧ g'.record? ⟨l, n⟩ = some ⟨ts, zs⟩) ∧
      List.Forall₂ g'.SameShape m.outputs zs ∧
      ∀ k m' n inv, g.model? k = some m' → g.record? ⟨k, n⟩ = none →
        g'.record? ⟨k, n⟩ = some inv → ∃ order become, g'.Called ⟨k, n⟩ inv m' order become ∧
          ∀ t, g'.Met m'.inputs m'.outputs t → g'.SameShape t (become t)) ∧
    ∀ e g', (call l ts).exec g = (.error e, g') →
      ∃ done rest, m.inputs.zip ts = done ++ rest ∧ g.Enters done g' ∧
        ((m.inputs.length ≠ ts.length ∧ done = [] ∧ ∃ layer, g.layer l = .ok layer ∧
            e = .refused [] (.graph (.modelArity layer.text m.inputs.length ts.length))) ∨
          m.inputs.length = ts.length ∧ ∃ x u later, rest = (x, u) :: later ∧
            ¬g.Accepts x u ∧ g'.Refuses x u e) := by
  have hs := hg.sound
  have hends : g.CallEnds l m ts ((call l ts).exec g) := call_ends hs hg.tidy hm
  have hleads : g.Leads (call l ts) (Applies l ts) := leads_call hs
  obtain ⟨hs', hgrows, -⟩ := hleads
  refine ⟨⟨fun ⟨zs, hzs⟩ => ?_, fun h => hends.succeeds h⟩, fun zs g' hexec => ?_,
    fun e g' hexec => ?_⟩
  · generalize (call l ts).exec g = r at hends hzs
    cases hends with
    | arity => cases hzs
    | refused => cases hzs
    | replayed hlen enters =>
      refine List.forall₂_iff_zip.2 ⟨hlen, fun {x u} hxu => ?_⟩
      obtain ⟨hx, hu⟩ := List.of_mem_zip hxu
      obtain ⟨p, hp, he⟩ := (hs.model hm).entry x hx
      exact (enters.accepts _ hxu).of_grows enters.grows hp he (hts u hu)
  · rw [hexec] at hends hs' hgrows
    cases hends with
    | @replayed _ n _ _ hlen enters grows tidy new record =>
      obtain ⟨order, become, hc, -⟩ := called_of_new hs hs' hgrows hm new record
      exact ⟨⟨n, new, record⟩, (hc.outputs.imp fun _ _ h => h.2.2).flip,
        fun _ _ _ _ hm' hnew hr => called_of_new hs hs' hgrows hm' hnew hr⟩
  · rw [hexec] at hends
    generalize hr : (Except.error e, g') = r at hends
    cases hends with
    | arity hl hlen =>
      obtain ⟨he, rfl⟩ := Prod.mk.inj hr
      exact ⟨[], m.inputs.zip ts, rfl, .nil, .inl ⟨hlen, rfl, _, hl, Except.error.inj he⟩⟩
    | @refused done rest x u e' g₁ hlen split enters refuses cause =>
      obtain ⟨he, rfl⟩ := Prod.mk.inj hr
      obtain rfl := Except.error.inj he
      have hu : u ∈ ts := (List.of_mem_zip (split ▸ List.mem_append_right done
        (List.mem_cons_self (a := (x, u))))).2
      obtain ⟨s, hshape⟩ := exists_shape_of_lt (hts u hu)
      exact ⟨done, (x, u) :: rest, split, enters, .inr ⟨hlen, x, u, rest, rfl,
        fun h => refuses (h.mono enters.grows), cause s (enters.grows.shape hshape)⟩⟩
    | replayed => cases (Prod.mk.inj hr).1

end

/-- The nested model, next to a tensor without sample dimensions. -/
def nestedBeside : List (BuildStep ℚ) := nested ++ [.detached ⟨[none]⟩]

/-- The outer model is called on the input of the inner one and not on the
    other tensor. -/
theorem call_succeeds_iff_nested :
    (build nestedBeside).model? ⟨4⟩ = some ⟨[⟨2⟩], [⟨5⟩], [⟨3⟩, ⟨2⟩], false⟩ ∧
    (∃ zs, ((call ⟨4⟩ [⟨0⟩]).exec (build nestedBeside)).1 = .ok zs) ∧
    ((BuildStep.call ⟨4⟩ [⟨0⟩]).after (build nestedBeside)).tensors.size = 12 ∧
    ¬(build nestedBeside).Accepts ⟨2⟩ ⟨6⟩ ∧
    ((BuildStep.call ⟨4⟩ [⟨6⟩]).after (build nestedBeside)).tensors.size = 7 := by
  have hm : (build nestedBeside).model? ⟨4⟩ = some ⟨[⟨2⟩], [⟨5⟩], [⟨3⟩, ⟨2⟩], false⟩ := by rfl
  have hsize : (build nestedBeside).tensors.size = 7 := by rfl
  have hcall := fun (t : Nat) (ht : t < 7) => @call_succeeds_iff ℚ _ _ ⟨4⟩ _ [⟨t⟩]
    (reachable_build nestedBeside) hm (by simpa [hsize] using ht)
  refine ⟨hm, ?_, by rfl, fun h => ?_, by rfl⟩
  · exact (hcall 0 (by decide)).1.2 (.cons ⟨_, _, _, rfl, rfl, rfl, rfl⟩ .nil)
  · obtain ⟨zs, hzs⟩ := (hcall 6 (by decide)).1.2 (.cons h .nil)
    have hfails : ((call ⟨4⟩ [⟨6⟩]).exec (build nestedBeside)).1.isOk = false := by rfl
    rw [hzs] at hfails
    cases hfails

end Neuroform.Graph

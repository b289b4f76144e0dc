/-
  Neuroform — graphs that can be built.

  `BuildStep` are the operations of building a graph: the layers that are added
  are primitive, and models come from `model` and `sequential`.  A graph is
  reachable if it is built by some of them from the empty graph, whether or not
  each of them succeeds; it is sound (`Reaches.sound`).
-/
import Neuroform.Proofs.Graph.Calling

namespace Neuroform.Graph

/-- An operation on a graph that is being built. -/
inductive BuildStep (α : Type) where
  | input (name : String) (dims : List Nat)
  | inputShape (name : String) (shape : Shape)
  | detached (shape : Shape)
  | addLayer (name : String) (layer : Primitive α)
  | apply (l : LayerId) (inputs : List TensorId)
  | wire (name : String) (layer : Primitive α) (inputs : List TensorId)
  | model (name : String) (inputs outputs : List TensorId)
  | sequential (name : String) (dims : List Nat) (layers : List (String × Primitive α))
  | call (l : LayerId) (inputs : List TensorId)
  | setTrainable (l : LayerId) (trainable : Bool)

variable {α : Type} [Scalar α] {g g' : Graph α}

/-- The graph behind an operation, also if it fails. -/
def BuildStep.after (g : Graph α) : BuildStep α → Graph α
  | input name dims => ((addInput name dims).exec g).2
  | inputShape name shape => ((addInputShape name shape).exec g).2
  | detached shape => ((addDetached shape).exec g).2
  | addLayer name layer => ((Graph.addLayer name (.primitive layer)).exec g).2
  | apply l inputs => ((Graph.apply l inputs).exec g).2
  | wire name layer inputs => ((Graph.wire name (.primitive layer) inputs).exec g).2
  | model name inputs outputs => ((addModel name inputs outputs).exec g).2
  | sequential name dims layers =>
    ((addSequential name dims (layers.map fun (name, layer) => (name, .primitive layer))).exec g).2
  | call l inputs => ((Graph.call l inputs).exec g).2
  | setTrainable l trainable => ((Graph.setTrainable l trainable).exec g).2

/-- A graph is built from another one. -/
inductive Reaches (g : Graph α) : Graph α → Prop where
  | refl : Reaches g g
  | step {g' : Graph α} (h : Reaches g g') (s : BuildStep α) : Reaches g (s.after g')

/-- A graph is built from the empty one. -/
def Reachable (g : Graph α) : Prop := empty.Reaches g

/-! ## Layers and tensors without an application -/

/-- The graph with one more layer. -/
def pushLayer (g : Graph α) (layer : Layer α) : Graph α := { g with layers := g.layers.push layer }

section
variable {layer : Layer α}

omit [Scalar α]

theorem kind?_pushLayer {l : LayerId} : (g.pushLayer layer).kind? l =
    if l = ⟨g.layers.size⟩ then some layer.kind else g.kind? l := by
  obtain ⟨n⟩ := l
  simp only [kind?, pushLayer, Array.getElem?_push, LayerId.mk.injEq]
  split <;> rfl

theorem record?_pushLayer {i : InvocationId} : (g.pushLayer layer).record? i =
    if i.layer = ⟨g.layers.size⟩ then layer.invocations[i.invocation]? else g.record? i := by
  obtain ⟨⟨n⟩, k⟩ := i
  simp only [record?, pushLayer, Array.getElem?_push, LayerId.mk.injEq]
  split <;> rfl

/-- Changing the last layer. -/
theorem modifyLayer_pushLayer {f : Layer α → Layer α} :
    (g.pushLayer layer).modifyLayer ⟨g.layers.size⟩ f = g.pushLayer (f layer) := by
  simp only [modifyLayer, pushLayer, modify_push]

theorem grows_pushLayer : g.Grows (g.pushLayer layer) where
  tensor n x hx := hx
  name n hn := by
    simp [pushLayer, Array.getElem?_push, Nat.ne_of_lt hn, Array.getElem?_eq_getElem hn]
  kind l k hk := by
    rw [kind?_pushLayer, if_neg, hk]
    rintro rfl
    simp [kind?] at hk
  record i inv hi := by
    rw [record?_pushLayer, if_neg, hi]
    intro h
    simp [record?, h] at hi

end

/-- A new layer is sound if it is primitive and has not been applied, or if it
    is a model with its definition. -/
theorem Sound.pushLayer (hs : g.Sound) {layer : Layer α}
    (hr : ∀ n inv, layer.invocations[n]? = some inv → n = 0 ∧ ∃ m, layer.kind = .model m)
    (hm : ∀ m, layer.kind = .model m → (g.pushLayer layer).Defined ⟨g.layers.size⟩ m) :
    (g.pushLayer layer).Sound := by
  have hmodel : ∀ m, layer.kind = .model m →
      (g.pushLayer layer).model? ⟨g.layers.size⟩ = some m := fun m h => by
    simp [model?, kind?_pushLayer, h, LayerKind.model?]
  refine hs.of_grows grows_pushLayer ?_ ?_ ?_
  · intro t p hp hn
    exact absurd (hn.symm.trans (show g.producer? t = some p from hp)) (by simp)
  · rintro ⟨l, n⟩ inv hi hn
    rw [record?_pushLayer] at hi
    split at hi
    case isTrue h =>
      obtain ⟨h0, m, hk⟩ := hr _ _ hi
      exact .inr ⟨h0, m, by rw [h]; exact hmodel m hk⟩
    case isFalse => simp [hn] at hi
  · intro l m hl hn
    rw [model?, kind?_pushLayer] at hl
    split at hl
    case isTrue h =>
      subst h
      cases hk : layer.kind with
      | primitive p => simp [hk, LayerKind.model?] at hl
      | model m' =>
        obtain rfl : m' = m := by simpa [hk, LayerKind.model?] using hl
        exact hm m' hk
    case isFalse => rw [model?] at hn; simp [hn] at hl

theorem leads_addLayer (hs : g.Sound) {name : String} {p : Primitive α} :
    g.Leads (addLayer name (.primitive p)) fun _ _ => True :=
  .of_exec (show _ = (_, g.pushLayer ⟨name, .primitive p, true, #[]⟩) from rfl)
    (hs.pushLayer (by simp) (by simp)) grows_pushLayer fun _ _ => trivial

/-- A graph that has grown by nothing that could be unsound is sound. -/
theorem Sound.of_same (hs : g.Sound) (hg : g.Grows g')
    (producer : ∀ {t p}, g'.producer? t = some p → g.producer? t = some p)
    (record : ∀ i, g'.record? i = g.record? i) (kind : ∀ l, g'.kind? l = g.kind? l) : g'.Sound := by
  refine hs.of_grows hg ?_ ?_ ?_
  · intro t p hp hn
    simp [producer hp] at hn
  · intro i inv hi hn
    simp [record, hn] at hi
  · intro l m hl hn
    rw [model?, kind] at hl
    rw [model?, hl] at hn
    simp at hn

theorem leads_addDetached (hs : g.Sound) {shape : Shape} :
    g.Leads (addDetached shape) fun _ _ => True := by
  have hg : g.Grows { g with tensors := g.tensors.push ⟨shape, none, none⟩ } :=
    ⟨fun n x hx => by simp [Array.getElem?_push, (Array.getElem?_eq_some_iff.1 hx).1.ne, hx],
      fun n hn => by simp [hn], fun _ _ h => h, fun _ _ h => h⟩
  refine .of_exec rfl (hs.of_same hg ?_ (fun _ => rfl) fun _ => rfl) hg fun _ _ => trivial
  intro t p hp
  simp only [producer?, Array.getElem?_push] at hp ⊢
  split at hp
  · simp at hp
  · exact hp

section
variable {l : LayerId} {trainable : Bool}

omit [Scalar α]

theorem kind?_modifyLayer_trainable (k : LayerId) :
    (g.modifyLayer l ({ · with trainable })).kind? k = g.kind? k := by
  simp only [kind?, modifyLayer, Array.getElem?_modify]
  split
  · rw [Option.map_map]; rfl
  · rfl

theorem record?_modifyLayer_trainable (i : InvocationId) :
    (g.modifyLayer l ({ · with trainable })).record? i = g.record? i := by
  simp only [record?, modifyLayer, Array.getElem?_modify]
  split
  · rw [Option.bind_map]; rfl
  · rfl

theorem grows_modifyLayer_trainable : g.Grows (g.modifyLayer l ({ · with trainable })) := by
  refine ⟨fun _ _ h => h, fun n hn => ?_, fun k x h => by rw [kind?_modifyLayer_trainable, h],
    fun i inv h => by rw [record?_modifyLayer_trainable, h]⟩
  simp only [modifyLayer, Array.getElem?_modify]
  split <;> simp [Array.getElem?_eq_getElem hn]

end

theorem leads_setTrainable (hs : g.Sound) {l : LayerId} {trainable : Bool} :
    g.Leads (setTrainable l trainable) fun _ _ => True := by
  unfold setTrainable
  refine .get_bind (.lift_bind hs fun layer _ => ?_)
  exact .of_exec rfl (hs.of_same grows_modifyLayer_trainable (fun h => h)
    record?_modifyLayer_trainable kind?_modifyLayer_trainable) grows_modifyLayer_trainable
    fun _ _ => trivial

/-! ## Layers that are applied at once -/

theorem leads_addInputShape (hs : g.Sound) {name : String} {shape : Shape} :
    g.Leads (addInputShape name shape) fun _ _ => True := by
  unfold addInputShape
  refine (leads_addLayer hs).bind fun l g' hs' _ _ => (leads_apply hs').bind fun ts g'' hs'' _ _ => ?_
  exact .lift hs'' fun _ _ => trivial

theorem leads_wire (hs : g.Sound) {name : String} {p : Primitive α} {ts : List TensorId} :
    g.Leads (wire name (.primitive p) ts) fun _ _ => True := by
  unfold wire
  refine (leads_addLayer hs).bind fun l g' hs' _ _ => (leads_apply hs').bind fun ts g'' hs'' _ _ => ?_
  split
  · exact .pure hs'' trivial
  · exact .get_bind (.lift_bind hs'' fun layer _ => .lift hs'' fun _ _ => trivial)

/-! ## Models -/

/-- A model between two lists of tensors, as it is added to a graph. -/
def defined (g : Graph α) (name : String) (m : ModelDef) : Graph α :=
  g.pushLayer ⟨name, .model m, true, #[⟨m.inputs, m.outputs⟩]⟩

/-- Adding a model either leaves the graph as it is and fails, or pushes a
    layer with its definition. -/
theorem exec_addModel (name : String) (inputs outputs : List TensorId) :
    (∃ e, (addModel name inputs outputs).exec g = (.error e, g)) ∨
    ∃ entries order, inputs.mapM (g.inputLayer name) = .ok entries ∧
      g.internalOrder ⟨inputs, outputs, [], false⟩ = .ok order ∧
      (addModel name inputs outputs).exec g = (.ok ⟨g.layers.size⟩,
        g.defined name ⟨inputs, outputs, addLayersOf entries order, false⟩) := by
  unfold addModel
  simp only [Step.exec_get_bind, Step.exec_lift_bind]
  cases inputs.mapM (g.inputLayer name) with
  | error e => exact .inl ⟨e, rfl⟩
  | ok entries =>
    cases g.internalOrder ⟨inputs, outputs, [], false⟩ with
    | error e => exact .inl ⟨e, rfl⟩
    | ok order =>
      refine .inr ⟨entries, order, rfl, rfl, ?_⟩
      exact congrArg (Prod.mk _) modifyLayer_pushLayer

/-- The layer of an input of a model is the entry that it comes from. -/
theorem inputLayer_eq_ok {name : String} {x : TensorId} {l : LayerId}
    (h : g.inputLayer name x = .ok l) : ∃ p, g.producer? x = some p ∧ p.layer = l ∧ g.IsEntry l := by
  simp only [inputLayer, bind_eq_ok, orRefuse_eq_ok] at h
  obtain ⟨tensor, ht, p, hp, layer, hlayer, h⟩ := h
  refine ⟨p, producer?_eq_some.2 ⟨tensor, ht, hp⟩, ?_⟩
  split at h
  case isTrue hi =>
    obtain rfl := pure_eq_ok.1 h
    unfold LayerKind.isInput at hi
    split at hi
    case h_1 d hk => exact ⟨rfl, d, kind?_eq_some.2 ⟨layer, hlayer, hk⟩⟩
    case h_2 => simp at hi
  case isFalse => simp at h

theorem mem_addLayersOf {layers : List LayerId} {order : List InvocationId} {k : LayerId} :
    k ∈ addLayersOf layers order ↔ k ∈ layers ∨ ∃ i ∈ order, i.layer = k := by
  induction order generalizing layers with
  | nil => simp [addLayersOf]
  | cons i order ih =>
    rw [addLayersOf, List.foldl_cons, ← addLayersOf, ih]
    split
    case isTrue h => grind
    case isFalse => grind

theorem Sound.defined (hs : g.Sound) {name : String} {m : ModelDef} {entries : List LayerId}
    {order : List InvocationId} (hin : m.inputs.mapM (g.inputLayer name) = .ok entries)
    (hord : g.internalOrder m = .ok order) (hlayers : m.layers = addLayersOf entries order) :
    (g.defined name m).Sound := by
  have hentry : ∀ x ∈ m.inputs, ∃ p, g.producer? x = some p ∧ p.layer ∈ entries ∧
      g.IsEntry p.layer := fun x hx => by
    obtain ⟨l, hl, h⟩ := forall₂_mem_left (mapM_forall₂.1 hin) x hx
    obtain ⟨p, hp, rfl, he⟩ := inputLayer_eq_ok h
    exact ⟨p, hp, hl, he⟩
  have howned : ∀ k, k ∈ m.layers ↔ g.Owned m k := by
    intro k
    rw [hlayers, mem_addLayersOf]
    refine or_congr ⟨fun hk => ?_, ?_⟩ ⟨fun hi => ⟨order, hord, hi⟩, ?_⟩
    · obtain ⟨x, hx, h⟩ := forall₂_mem_left (mapM_forall₂.1 hin).flip k hk
      obtain ⟨p, hp, hl, -⟩ := inputLayer_eq_ok h
      exact ⟨x, hx, p, hp, hl⟩
    · rintro ⟨x, hx, p, hp, rfl⟩
      obtain ⟨q, hq, hmem, -⟩ := hentry x hx
      obtain rfl := Option.some.inj (hp.symm.trans hq)
      exact hmem
    · rintro ⟨order', ho, hi⟩
      obtain rfl := Except.ok.inj (hord.symm.trans ho)
      exact hi
  refine hs.pushLayer ?_ ?_
  · intro n inv h
    obtain ⟨hn, -⟩ := Array.getElem?_eq_some_iff.1 h
    simp only [List.size_toArray, List.length_singleton] at hn
    exact ⟨by omega, m, rfl⟩
  · rintro _ ⟨⟩
    refine ⟨by simp [record?_pushLayer], ⟨order, internalOrder_of_grows grows_pushLayer hord⟩, ?_, ?_⟩
    · intro x hx
      obtain ⟨p, hp, -, d, hd⟩ := hentry x hx
      exact ⟨p, grows_pushLayer.producer hp, d, grows_pushLayer.kind _ _ hd⟩
    · intro k
      rw [howned, owned_of_grows grows_pushLayer ⟨order, hord⟩]
      exact fun x hx => let ⟨p, hp, _⟩ := hentry x hx; ⟨p, hp⟩

theorem leads_addModel (hs : g.Sound) {name : String} {inputs outputs : List TensorId} :
    g.Leads (addModel name inputs outputs) fun _ _ => True := by
  rcases exec_addModel (g := g) name inputs outputs with ⟨e, h⟩ | ⟨entries, order, hin, hord, h⟩
  · exact .of_exec h hs (.refl g) fun _ _ => trivial
  · exact .of_exec h (hs.defined hin hord rfl) grows_pushLayer fun _ _ => trivial

/-- Adding a model and marking it as a stack of layers either leaves the graph
    as it is and fails, or pushes a layer with its definition. -/
theorem exec_addModel_sequential (name : String) (inputs outputs : List TensorId) :
    (∃ e, (do
      let model ← addModel name inputs outputs
      modify (·.modifyLayer model fun layer => { layer with kind := markSequential layer.kind })
      return model : Step (Graph α) LayerId).exec g = (.error e, g)) ∨
    ∃ entries order, inputs.mapM (g.inputLayer name) = .ok entries ∧
      g.internalOrder ⟨inputs, outputs, [], false⟩ = .ok order ∧
      (do
        let model ← addModel name inputs outputs
        modify (·.modifyLayer model fun layer => { layer with kind := markSequential layer.kind })
        return model : Step (Graph α) LayerId).exec g = (.ok ⟨g.layers.size⟩,
          g.defined name ⟨inputs, outputs, addLayersOf entries order, true⟩) := by
  rcases exec_addModel (g := g) name inputs outputs with ⟨e, h⟩ | ⟨entries, order, hin, hord, h⟩
  · exact .inl ⟨e, Step.exec_bind_error h⟩
  · have hmark : (g.defined name ⟨inputs, outputs, addLayersOf entries order, false⟩).modifyLayer
        ⟨g.layers.size⟩ (fun layer => { layer with kind := markSequential layer.kind }) =
        g.defined name ⟨inputs, outputs, addLayersOf entries order, true⟩ := modifyLayer_pushLayer
    exact .inr ⟨entries, order, hin, hord,
      (Step.exec_bind_ok h).trans (congrArg (Prod.mk (Except.ok _)) hmark)⟩

theorem leads_addModel_sequential (hs : g.Sound) {name : String} {inputs outputs : List TensorId} :
    g.Leads (do
      let model ← addModel name inputs outputs
      modify (·.modifyLayer model fun layer => { layer with kind := markSequential layer.kind })
      return model) fun _ _ => True := by
  rcases exec_addModel_sequential (g := g) name inputs outputs with
    ⟨e, h⟩ | ⟨entries, order, hin, hord, h⟩
  · exact .of_exec h hs (.refl g) fun _ _ => trivial
  · exact .of_exec h (hs.defined hin hord rfl) grows_pushLayer fun _ _ => trivial

theorem leads_addSequential (hs : g.Sound) {name : String} {dims : List Nat}
    {layers : List (String × Primitive α)} :
    g.Leads (addSequential name dims (layers.map fun (name, p) => (name, .primitive p)))
      fun _ _ => True := by
  unfold addSequential
  refine (leads_addInputShape hs).bind fun input g₁ hs₁ _ _ => ?_
  refine .bind (P := fun _ _ => True) ?_ fun _ _ hs₂ _ _ => leads_addModel_sequential hs₂
  refine .foldlM (I := fun _ _ _ => True) hs₁ trivial fun done x rest g₂ t hx hs₂ _ _ => ?_
  have hmem : x ∈ layers.map fun (name, p) => (name, LayerKind.primitive p) := by
    rw [hx]; exact List.mem_append_right _ (List.mem_cons_self ..)
  obtain ⟨⟨name, p⟩, -, rfl⟩ := List.mem_map.1 hmem
  exact leads_wire hs₂

/-! ## All operations -/

/-- **Every operation** keeps a graph sound and grows it, whether or not it
    succeeds. -/
theorem BuildStep.sound (hs : g.Sound) (s : BuildStep α) : (s.after g).Sound ∧ g.Grows (s.after g) := by
  cases s with
  | input name dims => exact ⟨(leads_addInputShape hs).1, (leads_addInputShape hs).2.1⟩
  | inputShape name shape => exact ⟨(leads_addInputShape hs).1, (leads_addInputShape hs).2.1⟩
  | detached shape => exact ⟨(leads_addDetached hs).1, (leads_addDetached hs).2.1⟩
  | addLayer name layer => exact ⟨(leads_addLayer hs).1, (leads_addLayer hs).2.1⟩
  | apply l inputs => exact ⟨(leads_apply hs).1, (leads_apply hs).2.1⟩
  | wire name layer inputs => exact ⟨(leads_wire hs).1, (leads_wire hs).2.1⟩
  | model name inputs outputs => exact ⟨(leads_addModel hs).1, (leads_addModel hs).2.1⟩
  | sequential name dims layers =>
    exact ⟨(leads_addSequential hs).1, (leads_addSequential hs).2.1⟩
  | call l inputs => exact ⟨(leads_call hs).1, (leads_call hs).2.1⟩
  | setTrainable l trainable => exact ⟨(leads_setTrainable hs).1, (leads_setTrainable hs).2.1⟩

theorem sound_empty : (empty : Graph α).Sound where
  made h := by simp [producer?, empty] at h
  record h := by simp [record?, empty] at h
  model h := by simp [model?, kind?, empty] at h

theorem Reaches.sound (h : g.Reaches g') (hs : g.Sound) : g'.Sound ∧ g.Grows g' := by
  induction h with
  | refl => exact ⟨hs, .refl g⟩
  | step _ s ih => exact ⟨(s.sound ih.1).1, ih.2.trans (s.sound ih.1).2⟩

/-- Graphs that can be built are sound. -/
theorem Reachable.sound (h : g.Reachable) : g.Sound := (Reaches.sound h sound_empty).1

/-! ## Lists of operations -/

/-- The graph behind some operations on the empty graph. -/
def build (steps : List (BuildStep α)) : Graph α := steps.foldl BuildStep.after empty

theorem reachable_build (steps : List (BuildStep α)) : (build steps).Reachable := by
  suffices h : ∀ steps : List (BuildStep α), ∀ g : Graph α, empty.Reaches g →
      empty.Reaches (steps.foldl BuildStep.after g) from h steps empty .refl
  intro steps
  induction steps with
  | nil => exact fun g h => h
  | cons s steps ih => exact fun g h => ih (s.after g) (.step h s)

/-- A model with a rectifier, and a model around a call of it. -/
def nested : List (BuildStep α) :=
  [.input "x" [1], .wire "relu" (.activation ⟨.relu⟩) [⟨0⟩], .model "inner" [⟨0⟩] [⟨1⟩],
    .input "u" [1], .call ⟨2⟩ [⟨2⟩], .model "outer" [⟨2⟩] [⟨5⟩]]

end Neuroform.Graph

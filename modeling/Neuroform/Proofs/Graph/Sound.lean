/-
  Neuroform — sound graphs.

  In a sound graph every tensor that has a producer is one of its recorded
  outputs, and every record is what a step of building leaves: a primitive
  layer applied to older tensors (`Applied`), a model called on them
  (`Called`), or the definition of a model.  A called model has been replayed:
  its tensors became others, which its invocations were copied onto
  (`Replayed`).  All of this stays true of a graph that grows.
-/
import Neuroform.Proofs.Graph.Order

namespace Neuroform

/-- The tensor that is given for an input of a model: the last one, if the
    input is listed more than once. -/
def ModelDef.fed (m : ModelDef) (ts : List TensorId) (x : TensorId) : Option TensorId :=
  (m.inputs.zip ts).reverse.lookup x

/-- The inputs of an invocation are made before its outputs. -/
def Invocation.Ordered (inv : Invocation) : Prop :=
  ∀ u ∈ inv.inputs, ∀ t ∈ inv.outputs, u.index < t.index

namespace Graph

variable {α : Type}

/-- Two tensors have the same shape. -/
def SameShape (g : Graph α) (t u : TensorId) : Prop :=
  ∃ s, g.shape? t = some s ∧ g.shape? u = some s

/-- A layer is the entry of a model. -/
def IsEntry (g : Graph α) (l : LayerId) : Prop :=
  ∃ d, g.kind? l = some (.primitive (.input d))

/-- Tensors are the outputs of an invocation, in their order. -/
def Produces (g : Graph α) (i : InvocationId) (ts : List TensorId) : Prop :=
  ∀ k t, ts[k]? = some t → g.producer? t = some ⟨i.layer, i.invocation, k⟩

/-- What the tensors of a model became in a call of it on `ts`.  The producer
    of an input was applied to the tensor given for it, and every invocation in
    between was copied. -/
structure Replayed [Scalar α] (g : Graph α) (m : ModelDef) (ts : List TensorId)
    (order : List InvocationId) (become : TensorId → TensorId) : Prop where
  listed : g.internalOrder m = .ok order
  input : ∀ x ∈ m.inputs, ∃ u p j, m.fed ts x = some u ∧ g.producer? x = some p ∧
    g.record? ⟨p.layer, j⟩ = some ⟨[u], [become x]⟩ ∧ g.Produces ⟨p.layer, j⟩ [become x]
  copy : ∀ i ∈ order, ∃ inv j, g.record? i = some inv ∧
    g.record? ⟨i.layer, j⟩ = some ⟨inv.inputs.map become, inv.outputs.map become⟩ ∧
    g.Produces ⟨i.layer, j⟩ (inv.outputs.map become)

/-- An invocation of a primitive layer. -/
structure Applied [Scalar α] (g : Graph α) (i : InvocationId) (inv : Invocation)
    (op : Operation α) (shapes outputShapes : List Shape) : Prop where
  operation : g.operation? i.layer = some op
  produces : g.Produces i inv.outputs
  ordered : inv.Ordered
  inputs : List.Forall₂ (fun t s => g.shape? t = some s) inv.inputs shapes
  outputs : List.Forall₂ (fun t s => g.shape? t = some s) inv.outputs outputShapes
  inferred : op.outputShapes shapes = .ok outputShapes

/-- A call of a model: its outputs stand for what those of the model became. -/
structure Called [Scalar α] (g : Graph α) (i : InvocationId) (inv : Invocation) (m : ModelDef)
    (order : List InvocationId) (become : TensorId → TensorId) : Prop where
  model : g.model? i.layer = some m
  produces : g.Produces i inv.outputs
  ordered : inv.Ordered
  arity : m.inputs.length = inv.inputs.length
  replayed : g.Replayed m inv.inputs order become
  outputs : List.Forall₂ (fun t y => g.inner? t = some (become y) ∧ (become y).index < t.index ∧
    g.SameShape y t) inv.outputs m.outputs

/-- A record of an invocation that made its outputs. -/
inductive Made [Scalar α] (g : Graph α) (i : InvocationId) (inv : Invocation) : Prop where
  | applied {op : Operation α} {shapes outputShapes : List Shape}
      (h : g.Applied i inv op shapes outputShapes) : Made g i inv
  | called {m : ModelDef} {order : List InvocationId} {become : TensorId → TensorId}
      (h : g.Called i inv m order become) : Made g i inv

/-- A layer has an invocation that an input of a model comes from, or one
    between the inputs and the outputs. -/
def Owned [Scalar α] (g : Graph α) (m : ModelDef) (k : LayerId) : Prop :=
  (∃ x ∈ m.inputs, ∃ p, g.producer? x = some p ∧ p.layer = k) ∨
    ∃ order, g.internalOrder m = .ok order ∧ ∃ i ∈ order, i.layer = k

/-- A model stands between its inputs, which are entries, and its outputs, and
    has the layers that are used for it. -/
structure Defined [Scalar α] (g : Graph α) (l : LayerId) (m : ModelDef) : Prop where
  record : g.record? ⟨l, 0⟩ = some ⟨m.inputs, m.outputs⟩
  listed : ∃ order, g.internalOrder m = .ok order
  entry : ∀ x ∈ m.inputs, ∃ p, g.producer? x = some p ∧ g.IsEntry p.layer
  owns : ∀ k, k ∈ m.layers ↔ g.Owned m k

/-- Every part of a graph is what a step of building leaves. -/
structure Sound [Scalar α] (g : Graph α) : Prop where
  made : ∀ {t : TensorId} {p : Provenance}, g.producer? t = some p →
    ∃ inv, g.record? p.source = some inv ∧ inv.outputs[p.output]? = some t ∧ g.Made p.source inv
  record : ∀ {i : InvocationId} {inv : Invocation}, g.record? i = some inv →
    g.Made i inv ∨ i.invocation = 0 ∧ ∃ m, g.model? i.layer = some m
  model : ∀ {l : LayerId} {m : ModelDef}, g.model? l = some m → g.Defined l m

section
variable [Scalar α] {g g' : Graph α} {i : InvocationId} {inv : Invocation}

/-! ## Growing -/

section
variable (h : g.Grows g')
include h

omit [Scalar α] in
theorem SameShape.mono {t u : TensorId} (hs : g.SameShape t u) : g'.SameShape t u := by
  obtain ⟨s, ht, hu⟩ := hs
  exact ⟨s, h.shape ht, h.shape hu⟩

omit [Scalar α] in
theorem Produces.mono {ts : List TensorId} (hp : g.Produces i ts) : g'.Produces i ts :=
  fun k t ht => h.producer (hp k t ht)

theorem Replayed.mono {m : ModelDef} {ts : List TensorId} {order : List InvocationId}
    {become : TensorId → TensorId} (hr : g.Replayed m ts order become) :
    g'.Replayed m ts order become where
  listed := internalOrder_of_grows h hr.listed
  input x hx := by
    obtain ⟨u, p, j, hu, hp, hrec, hprod⟩ := hr.input x hx
    exact ⟨u, p, j, hu, h.producer hp, h.record _ _ hrec, hprod.mono h⟩
  copy i hi := by
    obtain ⟨inv, j, hinv, hrec, hprod⟩ := hr.copy i hi
    exact ⟨inv, j, h.record _ _ hinv, h.record _ _ hrec, hprod.mono h⟩

theorem Applied.mono {op : Operation α} {shapes outputShapes : List Shape}
    (ha : g.Applied i inv op shapes outputShapes) : g'.Applied i inv op shapes outputShapes where
  operation := h.operation ha.operation
  produces := ha.produces.mono h
  ordered := ha.ordered
  inputs := ha.inputs.imp fun _ _ => h.shape
  outputs := ha.outputs.imp fun _ _ => h.shape
  inferred := ha.inferred

theorem Called.mono {m : ModelDef} {order : List InvocationId} {become : TensorId → TensorId}
    (hc : g.Called i inv m order become) : g'.Called i inv m order become where
  model := h.model hc.model
  produces := hc.produces.mono h
  ordered := hc.ordered
  arity := hc.arity
  replayed := hc.replayed.mono h
  outputs := hc.outputs.imp fun _ _ ⟨hi, hlt, hs⟩ => ⟨h.inner hi, hlt, hs.mono h⟩

theorem Made.mono : g.Made i inv → g'.Made i inv
  | .applied ha => .applied (ha.mono h)
  | .called hc => .called (hc.mono h)

/-- The layers that are used for a model stay the same. -/
theorem owned_of_grows {m : ModelDef} {k : LayerId} (hl : ∃ order, g.internalOrder m = .ok order)
    (he : ∀ x ∈ m.inputs, ∃ p, g.producer? x = some p) : g'.Owned m k ↔ g.Owned m k := by
  obtain ⟨order, ho⟩ := hl
  refine or_congr ⟨?_, ?_⟩ ⟨?_, ?_⟩
  · rintro ⟨x, hx, p', hp', rfl⟩
    obtain ⟨p, hp⟩ := he x hx
    obtain rfl := Option.some.inj ((h.producer hp).symm.trans hp')
    exact ⟨x, hx, p, hp, rfl⟩
  · rintro ⟨x, hx, p, hp, rfl⟩
    exact ⟨x, hx, p, h.producer hp, rfl⟩
  · rintro ⟨order', ho', hi⟩
    obtain rfl := Except.ok.inj ((internalOrder_of_grows h ho).symm.trans ho')
    exact ⟨order, ho, hi⟩
  · rintro ⟨order', ho', hi⟩
    exact ⟨order', internalOrder_of_grows h ho', hi⟩

theorem Defined.mono {l : LayerId} {m : ModelDef} (hd : g.Defined l m) : g'.Defined l m where
  record := h.record _ _ hd.record
  listed := let ⟨order, ho⟩ := hd.listed; ⟨order, internalOrder_of_grows h ho⟩
  entry x hx := by
    obtain ⟨p, hp, d, hk⟩ := hd.entry x hx
    exact ⟨p, h.producer hp, d, h.kind _ _ hk⟩
  owns k := by
    rw [hd.owns, owned_of_grows h hd.listed]
    exact fun x hx => let ⟨p, hp, _⟩ := hd.entry x hx; ⟨p, hp⟩

/-- A graph that has grown is sound if what has been added to it is. -/
theorem Sound.of_grows (hs : g.Sound)
    (made : ∀ {t : TensorId} {p : Provenance}, g'.producer? t = some p → g.producer? t = none →
      ∃ inv, g'.record? p.source = some inv ∧ inv.outputs[p.output]? = some t ∧
        g'.Made p.source inv)
    (record : ∀ {i : InvocationId} {inv : Invocation}, g'.record? i = some inv →
      g.record? i = none → g'.Made i inv ∨ i.invocation = 0 ∧ ∃ m, g'.model? i.layer = some m)
    (model : ∀ {l : LayerId} {m : ModelDef}, g'.model? l = some m → g.model? l = none →
      g'.Defined l m) : g'.Sound where
  made {t p} hp := by
    cases hq : g.producer? t with
    | none => exact made hp hq
    | some q =>
      obtain rfl := Option.some.inj ((h.producer hq).symm.trans hp)
      obtain ⟨inv, hr, ht, hm⟩ := hs.made hq
      exact ⟨inv, h.record _ _ hr, ht, hm.mono h⟩
  record {i inv} hi := by
    cases hj : g.record? i with
    | none => exact record hi hj
    | some inv' =>
      obtain rfl := Option.some.inj ((h.record _ _ hj).symm.trans hi)
      exact (hs.record hj).imp (Made.mono h) fun ⟨h0, m, hm⟩ => ⟨h0, m, h.model hm⟩
  model {l m} hm := by
    cases hn : g.model? l with
    | none => exact model hm hn
    | some n =>
      obtain rfl := Option.some.inj ((h.model hn).symm.trans hm)
      exact (hs.model hn).mono h

end

/-! ## What a record says -/

namespace Made

theorem produces : g.Made i inv → g.Produces i inv.outputs
  | .applied h => h.produces
  | .called h => h.produces

theorem ordered : g.Made i inv → inv.Ordered
  | .applied h => h.ordered
  | .called h => h.ordered

theorem applied_of_operation {op : Operation α} (h : g.Made i inv)
    (ho : g.operation? i.layer = some op) : ∃ s s', g.Applied i inv op s s' := by
  cases h with
  | applied h =>
    obtain rfl := Option.some.inj (h.operation.symm.trans ho)
    exact ⟨_, _, h⟩
  | called h => simp [operation?_eq_none_of_model? h.model] at ho

theorem called_of_model {m : ModelDef} (h : g.Made i inv) (hm : g.model? i.layer = some m) :
    ∃ order become, g.Called i inv m order become := by
  cases h with
  | applied h => simp [model?_eq_none_of_operation? h.operation] at hm
  | called h =>
    obtain rfl := Option.some.inj (h.model.symm.trans hm)
    exact ⟨_, _, h⟩

/-- The same layer makes outputs of the same shapes from inputs of the same
    shapes. -/
theorem sameShape {i' : InvocationId} {inv' : Invocation} (h : g.Made i inv)
    (h' : g.Made i' inv') (hl : i'.layer = i.layer)
    (hs : List.Forall₂ g.SameShape inv.inputs inv'.inputs) :
    List.Forall₂ g.SameShape inv.outputs inv'.outputs := by
  cases h with
  | @applied op shapes outputShapes h =>
    obtain ⟨shapes', outputShapes', h'⟩ := h'.applied_of_operation (hl ▸ h.operation)
    have he : shapes = shapes' := by
      rw [← List.forall₂_eq_eq_eq]
      refine forall₂_comp (S := fun t s => g.shape? t = some s) (fun s t s' ht hu => ?_)
        h.inputs.flip (forall₂_comp (fun t u s hs hu => ?_) hs h'.inputs)
      · exact Option.some.inj (ht.symm.trans hu)
      · obtain ⟨s, ht, hu'⟩ := hs
        rw [ht, ← hu', hu]
    have he' : outputShapes = outputShapes' :=
      Except.ok.inj (h.inferred.symm.trans (he ▸ h'.inferred))
    exact forall₂_comp (fun _ _ _ ht hu => ⟨_, ht, hu⟩) h.outputs (he' ▸ h'.outputs.flip)
  | called h =>
    obtain ⟨order, become, h'⟩ := h'.called_of_model (hl ▸ h.model)
    refine forall₂_comp (fun t y u ht hu => ?_) h.outputs h'.outputs.flip
    obtain ⟨s, hy, ht⟩ := ht.2.2
    obtain ⟨s', hy', hu⟩ := hu.2.2
    obtain rfl := Option.some.inj (hy.symm.trans hy')
    exact ⟨s, ht, hu⟩

end Made

omit [Scalar α] in
theorem Produces.nodup {ts : List TensorId} (h : g.Produces i ts) : ts.Nodup := by
  rw [List.nodup_iff_getElem?_ne_getElem?]
  intro j k hjk hk he
  obtain ⟨t, ht⟩ : ∃ t, ts[k]? = some t := ⟨_, List.getElem?_eq_getElem hk⟩
  have hj := h j t (he.trans ht)
  rw [h k t ht, Option.some.injEq, Provenance.mk.injEq] at hj
  omega

omit [Scalar α] in
theorem Produces.source {ts : List TensorId} (h : g.Produces i ts) {t : TensorId} (ht : t ∈ ts) :
    ∃ p, g.producer? t = some p ∧ p.source = i := by
  obtain ⟨k, hk⟩ := List.mem_iff_getElem?.1 ht
  exact ⟨_, h k t hk, rfl⟩

namespace Sound
variable (h : g.Sound)
include h

theorem acyclic : g.Acyclic := by
  intro t p inv hp hr u hu
  obtain ⟨inv', hr', ht, hm⟩ := h.made hp
  obtain rfl := Option.some.inj (hr.symm.trans hr')
  exact hm.ordered u hu t (List.mem_of_getElem? ht)

/-- The record of the producer of a tensor. -/
theorem made_of_producer {t : TensorId} {p : Provenance} (hp : g.producer? t = some p)
    (hr : g.record? p.source = some inv) : g.Made p.source inv ∧ inv.outputs[p.output]? = some t := by
  obtain ⟨inv', hr', ht, hm⟩ := h.made hp
  obtain rfl := Option.some.inj (hr.symm.trans hr')
  exact ⟨hm, ht⟩

/-- What an output of a call stands for is older than it. -/
theorem inner_lt {t u : TensorId} {p : Provenance} {m : ModelDef} (hp : g.producer? t = some p)
    (hm : g.model? p.layer = some m) (hu : g.inner? t = some u) : u.index < t.index := by
  obtain ⟨inv, -, ht, hmade⟩ := h.made hp
  obtain ⟨order, become, hc⟩ := hmade.called_of_model hm
  obtain ⟨y, -, hin, hlt, -⟩ := forall₂_getElem? hc.outputs ht
  obtain rfl := Option.some.inj (hu.symm.trans hin)
  exact hlt

/-- A recorded invocation of a primitive layer was made by applying it. -/
theorem made_of_operation {op : Operation α} (ho : g.operation? i.layer = some op)
    (hr : g.record? i = some inv) : g.Made i inv := by
  refine (h.record hr).resolve_right ?_
  rintro ⟨-, m, hm⟩
  simp [operation?_eq_none_of_model? hm] at ho

theorem applied {op : Operation α} (ho : g.operation? i.layer = some op)
    (hr : g.record? i = some inv) : ∃ shapes outputShapes, g.Applied i inv op shapes outputShapes :=
  (h.made_of_operation ho hr).applied_of_operation ho

/-- An invocation of an entry has at most one input and a single output, which
    has the shape of the entry. -/
theorem entry {l : LayerId} {d : InputLayer} (hl : g.kind? l = some (.primitive (.input d)))
    {n : Nat} (hr : g.record? ⟨l, n⟩ = some inv) :
    g.Made ⟨l, n⟩ inv ∧ inv.inputs.length ≤ 1 ∧
      ∃ t, inv.outputs = [t] ∧ g.shape? t = some d.shape := by
  have ho : g.operation? l = some d.operation := by
    simp [operation?, hl, LayerKind.operation?, Primitive.operation]
  have hm := h.made_of_operation ho hr
  obtain ⟨s, s', ha⟩ := hm.applied_of_operation ho
  have hinf := ha.inferred
  simp only [InputLayer.operation, InputLayer.outputShapes, bind_eq_ok, require_eq_ok] at hinf
  obtain ⟨-, hlen, hinf⟩ := hinf
  have hs' : s' = [d.shape] := by
    split at hinf
    · obtain ⟨-, -, hinf⟩ := bind_eq_ok.1 hinf; exact (pure_eq_ok.1 hinf).symm
    · exact (pure_eq_ok.1 hinf).symm
  refine ⟨hm, ha.inputs.length_eq ▸ hlen, ?_⟩
  have hout := ha.outputs
  rw [hs'] at hout
  obtain ⟨t, ts, hs, hts, he⟩ := List.forall₂_cons_right_iff.1 hout
  obtain rfl := List.forall₂_nil_right_iff.1 hts
  exact ⟨t, he, hs⟩

end Sound
end
end Graph
end Neuroform

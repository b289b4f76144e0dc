/-
  Neuroform — what a graph holds.

  A graph is looked at through what it says of each tensor (`shape?`,
  `producer?`, `inner?`), of each layer (`kind?`, with `operation?` and
  `model?`) and of each invocation (`record?`).  A graph that grows says the
  same of everything that it held before (`Grows`).
-/
import Neuroform.Graph.Build
import Neuroform.Proofs.Outcome

namespace Neuroform.Graph

variable {α : Type}

/-- The shape of a tensor. -/
def shape? (g : Graph α) (t : TensorId) : Option Shape := g.tensors[t.index]?.map (·.shape)

/-- The invocation output that a tensor is. -/
def producer? (g : Graph α) (t : TensorId) : Option Provenance :=
  g.tensors[t.index]?.bind (·.provenance)

/-- The tensor inside of a call that an output of it stands for. -/
def inner? (g : Graph α) (t : TensorId) : Option TensorId := g.tensors[t.index]?.bind (·.standsFor)

/-- What a layer is. -/
def kind? (g : Graph α) (l : LayerId) : Option (LayerKind α) := g.layers[l.index]?.map (·.kind)

/-- The operation of a layer, if it is primitive. -/
def operation? [Scalar α] (g : Graph α) (l : LayerId) : Option (Operation α) :=
  (g.kind? l).bind LayerKind.operation?

/-- The definition of a layer, if it is a model. -/
def model? (g : Graph α) (l : LayerId) : Option ModelDef := (g.kind? l).bind LayerKind.model?

/-- What is recorded of an invocation. -/
def record? (g : Graph α) (i : InvocationId) : Option Invocation :=
  g.layers[i.layer.index]?.bind (·.invocations[i.invocation]?)

section
variable {g : Graph α} {t : TensorId} {l : LayerId} {i : InvocationId}

/-! ## Reading -/

theorem layer_eq_ok {layer : Layer α} : g.layer l = .ok layer ↔ g.layers[l.index]? = some layer :=
  orRefuse_eq_ok

theorem tensor_eq_ok {x : Tensor} : g.tensor t = .ok x ↔ g.tensors[t.index]? = some x :=
  orRefuse_eq_ok

theorem kind?_eq_some {k : LayerKind α} :
    g.kind? l = some k ↔ ∃ layer, g.layer l = .ok layer ∧ layer.kind = k := by
  simp [kind?, layer_eq_ok]

theorem shape?_eq_some {s : Shape} :
    g.shape? t = some s ↔ ∃ x, g.tensor t = .ok x ∧ x.shape = s := by
  simp [shape?, tensor_eq_ok]

theorem producer_eq_ok {p : Provenance} : g.producer t = .ok p ↔ g.producer? t = some p := by
  simp [producer, producer?, bind_eq_ok, tensor_eq_ok, Option.bind_eq_some_iff]

theorem inner?_eq_some {u : TensorId} :
    g.inner? t = some u ↔ ∃ x, g.tensor t = .ok x ∧ x.standsFor = some u := by
  simp [inner?, tensor_eq_ok, Option.bind_eq_some_iff]

theorem producer?_eq_some {p : Provenance} :
    g.producer? t = some p ↔ ∃ x, g.tensor t = .ok x ∧ x.provenance = some p := by
  simp [producer?, tensor_eq_ok, Option.bind_eq_some_iff]

theorem index_lt_of_producer? {p : Provenance} (h : g.producer? t = some p) :
    t.index < g.tensors.size := by
  obtain ⟨x, hx, -⟩ := producer?_eq_some.1 h
  exact (Array.getElem?_eq_some_iff.1 (tensor_eq_ok.1 hx)).1

theorem invocation_eq_ok {inv : Invocation} : g.invocation i = .ok inv ↔ g.record? i = some inv := by
  simp [invocation, Layer.invocation, record?, bind_eq_ok, layer_eq_ok, Option.bind_eq_some_iff]

/-- A layer that was looked up has the invocations that are recorded of it. -/
theorem layer_invocation {layer : Layer α} (h : g.layer l = .ok layer) {n : Nat}
    {inv : Invocation} : layer.invocation n = .ok inv ↔ g.record? ⟨l, n⟩ = some inv := by
  simp [Layer.invocation, record?, layer_eq_ok.1 h]

theorem kind?_of_layer {layer : Layer α} (h : g.layer l = .ok layer) :
    g.kind? l = some layer.kind := kind?_eq_some.2 ⟨_, h, rfl⟩

theorem layer_of_record {inv : Invocation} (h : g.record? i = some inv) :
    ∃ layer, g.layer i.layer = .ok layer := by
  obtain ⟨layer, hl, -⟩ := Option.bind_eq_some_iff.1 h
  exact ⟨layer, layer_eq_ok.2 hl⟩

variable [Scalar α]

theorem operation?_of_layer {layer : Layer α} (h : g.layer l = .ok layer) :
    g.operation? l = layer.kind.operation? := by simp [operation?, kind?_of_layer h]

omit [Scalar α] in
theorem model?_of_layer {layer : Layer α} (h : g.layer l = .ok layer) :
    g.model? l = layer.kind.model? := by simp [model?, kind?_of_layer h]

theorem modelDef_eq_ok {m : ModelDef} : g.modelDef l = .ok m ↔ g.model? l = some m := by
  constructor
  · intro h
    obtain ⟨layer, hl, h⟩ := bind_eq_ok.1 h
    rw [model?_of_layer hl]; exact orRefuse_eq_ok.1 h
  · intro h
    obtain ⟨k, hk, hm⟩ := Option.bind_eq_some_iff.1 h
    obtain ⟨layer, hl, rfl⟩ := kind?_eq_some.1 hk
    exact bind_eq_ok.2 ⟨layer, hl, orRefuse_eq_ok.2 hm⟩

/-- A layer is primitive or a model. -/
theorem operation?_or_model? {layer : Layer α} (h : g.layer l = .ok layer) :
    (∃ op, layer.kind.operation? = some op ∧ layer.kind.isModel = false ∧
        g.operation? l = some op ∧ g.model? l = none) ∨
      (∃ m, layer.kind.model? = some m ∧ layer.kind.isModel = true ∧
        g.model? l = some m ∧ g.operation? l = none) := by
  rw [operation?_of_layer h, model?_of_layer h]
  cases layer.kind with
  | primitive p => exact .inl ⟨_, rfl, rfl, rfl, rfl⟩
  | model m => exact .inr ⟨_, rfl, rfl, rfl, rfl⟩

theorem operation?_eq_none_of_model? {m : ModelDef} (h : g.model? l = some m) :
    g.operation? l = none := by
  obtain ⟨k, hk, hm⟩ := Option.bind_eq_some_iff.1 h
  cases k with
  | primitive p => simp [LayerKind.model?] at hm
  | model m => simp [operation?, hk, LayerKind.operation?]

theorem model?_eq_none_of_operation? {op : Operation α} (h : g.operation? l = some op) :
    g.model? l = none := by
  cases hm : g.model? l with
  | none => rfl
  | some m => simp [operation?_eq_none_of_model? hm] at h

end

/-! ## Growing -/

/-- A graph says of everything that another one holds what that one says. -/
structure Grows (g g' : Graph α) : Prop where
  tensor : ∀ (n : Nat) (x : Tensor), g.tensors[n]? = some x → g'.tensors[n]? = some x
  name : ∀ (n : Nat) (_ : n < g.layers.size), g'.layers[n]?.map (·.name) = some g.layers[n].name
  kind : ∀ l k, g.kind? l = some k → g'.kind? l = some k
  record : ∀ i inv, g.record? i = some inv → g'.record? i = some inv

namespace Grows
variable {g g' g'' : Graph α}

theorem refl (g : Graph α) : g.Grows g :=
  ⟨fun _ _ h => h, fun _ h => by simp [h], fun _ _ h => h, fun _ _ h => h⟩

theorem trans (h : g.Grows g') (h' : g'.Grows g'') : g.Grows g'' where
  tensor n x hx := h'.tensor n x (h.tensor n x hx)
  name n hn := by
    have hg := h.name n hn
    obtain ⟨layer, hl, he⟩ := Option.map_eq_some_iff.1 hg
    obtain ⟨hn', rfl⟩ := Array.getElem?_eq_some_iff.1 hl
    rw [h'.name n hn', he]
  kind l k hk := h'.kind l k (h.kind l k hk)
  record i inv hi := h'.record i inv (h.record i inv hi)

variable (h : g.Grows g')
include h

theorem shape {t : TensorId} {s : Shape} (hs : g.shape? t = some s) : g'.shape? t = some s := by
  obtain ⟨x, hx, rfl⟩ := Option.map_eq_some_iff.1 hs
  simp [shape?, h.tensor _ _ hx]

theorem producer {t : TensorId} {p : Provenance} (hp : g.producer? t = some p) :
    g'.producer? t = some p := by
  obtain ⟨x, hx, hp⟩ := Option.bind_eq_some_iff.1 hp
  simp [producer?, h.tensor _ _ hx, hp]

theorem inner {t u : TensorId} (hu : g.inner? t = some u) : g'.inner? t = some u := by
  obtain ⟨x, hx, hu⟩ := Option.bind_eq_some_iff.1 hu
  simp [inner?, h.tensor _ _ hx, hu]

theorem operation [Scalar α] {l : LayerId} {op : Operation α} (ho : g.operation? l = some op) :
    g'.operation? l = some op := by
  obtain ⟨k, hk, ho⟩ := Option.bind_eq_some_iff.1 ho
  simp [operation?, h.kind _ _ hk, ho]

theorem model {l : LayerId} {m : ModelDef} (hm : g.model? l = some m) :
    g'.model? l = some m := by
  obtain ⟨k, hk, hm⟩ := Option.bind_eq_some_iff.1 hm
  simp [model?, h.kind _ _ hk, hm]

theorem size_tensors : g.tensors.size ≤ g'.tensors.size := by
  cases hn : g.tensors.size with
  | zero => omega
  | succ n =>
    have hx := h.tensor n g.tensors[n] (Array.getElem?_eq_getElem (by omega))
    have := (Array.getElem?_eq_some_iff.1 hx).1
    omega

end Grows
end Neuroform.Graph

/-
  Neuroform — a graph behind one application more.

  Applying a layer adds tensors and then the record of an invocation with them
  as its outputs (`extended`).  The graph has grown by that, and it is sound if
  the new record is what an application leaves.
-/
import Neuroform.Proofs.Graph.Sound

namespace Neuroform

namespace Step
variable {σ β δ : Type}

/-- A list of steps that leave the state alone. -/
theorem exec_mapM_of_exec {s : δ → Step σ β} {f : δ → Outcome β} {y : σ} : ∀ {xs : List δ},
    (∀ x ∈ xs, (s x).exec y = (f x, y)) → (xs.mapM s).exec y = (xs.mapM f, y)
  | [], _ => rfl
  | x :: xs, h => by
    rw [List.mapM_cons, List.mapM_cons, exec_bind, h x (by simp)]
    cases f x with
    | error e => rfl
    | ok b =>
      simp only [exec_bind, exec_mapM_of_exec fun x hx => h x (List.mem_cons_of_mem _ hx)]
      cases xs.mapM f <;> rfl

end Step

namespace Graph

variable {α : Type}

/-! ## Adding the outputs of an application -/

/-- The graph with some more tensors. -/
def pushTensors (g : Graph α) (xs : List Tensor) : Graph α :=
  { g with tensors := g.tensors ++ xs.toArray }

/-- The names of the next tensors of a graph. -/
def nextIds (g : Graph α) (n : Nat) : List TensorId :=
  (List.range' g.tensors.size n).map TensorId.mk

/-- The graph behind an application of a layer that makes some tensors. -/
def extended (g : Graph α) (l : LayerId) (inputs : List TensorId) (xs : List Tensor) : Graph α :=
  (g.pushTensors xs).modifyLayer l fun layer =>
    { layer with invocations := layer.invocations.push ⟨inputs, g.nextIds xs.length⟩ }

section
variable {g : Graph α} {l : LayerId} {inputs : List TensorId} {xs : List Tensor}

theorem getElem?_nextIds {n k : Nat} {t : TensorId} :
    (g.nextIds n)[k]? = some t ↔ k < n ∧ t = ⟨g.tensors.size + k⟩ := by
  simp only [nextIds, List.getElem?_map, Option.map_eq_some_iff, List.getElem?_eq_some_iff]
  constructor
  · rintro ⟨a, h, rfl⟩
    simp only [List.getElem_range', List.length_range'] at h
    obtain ⟨hk, rfl⟩ := h
    exact ⟨hk, by simp⟩
  · rintro ⟨hk, rfl⟩
    exact ⟨_, ⟨by simpa using hk, rfl⟩, by simp⟩

@[simp] theorem length_nextIds {n : Nat} : (g.nextIds n).length = n := by simp [nextIds]

theorem index_of_mem_nextIds {n : Nat} {t : TensorId} (h : t ∈ g.nextIds n) :
    g.tensors.size ≤ t.index := by
  obtain ⟨k, hk⟩ := List.mem_iff_getElem?.1 h
  obtain ⟨-, rfl⟩ := getElem?_nextIds.1 hk
  exact Nat.le_add_right ..

theorem exec_addTensor {x : Tensor} :
    (addTensor x).exec g = (.ok ⟨g.tensors.size⟩, { g with tensors := g.tensors.push x }) := rfl

/-- Adding a tensor for each entry of a list. -/
private theorem exec_mapM_addTensor {δ : Type} {step : δ → Step (Graph α) TensorId} {f : δ → Tensor} :
    ∀ {ds : List δ} (ys : List Tensor),
      (∀ d ∈ ds, ∀ ys, (step d).exec (g.pushTensors ys) =
        (addTensor (f d)).exec (g.pushTensors ys)) →
      (ds.mapM step).exec (g.pushTensors ys) =
        (.ok ((g.pushTensors ys).nextIds ds.length), g.pushTensors (ys ++ ds.map f))
  | [], ys, _ => by simp [nextIds]
  | d :: ds, ys, h => by
    have hd : (step d).exec (g.pushTensors ys) =
        (.ok ⟨(g.pushTensors ys).tensors.size⟩, g.pushTensors (ys ++ [f d])) := by
      rw [h d (by simp), exec_addTensor]
      simp [pushTensors]
    rw [List.mapM_cons, Step.exec_bind_ok hd,
      Step.exec_bind_ok (exec_mapM_addTensor _ fun d hd => h d (List.mem_cons_of_mem _ hd))]
    simp [nextIds, pushTensors, List.range'_succ, Nat.add_assoc]

/-- Adding a tensor for each entry of a list and recording an application that
    has them as its outputs. -/
theorem exec_record {δ : Type} {step : δ → Step (Graph α) TensorId} {f : δ → Tensor} {ds : List δ}
    (h : ∀ d ∈ ds, ∀ ys, (step d).exec (g.pushTensors ys) =
      (addTensor (f d)).exec (g.pushTensors ys)) :
    (ds.mapM step >>= fun outputs => do
      addInvocation l ⟨inputs, outputs⟩
      return outputs).exec g =
    (.ok (g.nextIds (ds.map f).length), g.extended l inputs (ds.map f)) := by
  have hg : g.pushTensors [] = g := by simp [pushTensors]
  have hm := exec_mapM_addTensor [] h
  rw [hg] at hm
  rw [Step.exec_bind_ok hm, List.length_map, extended, List.length_map]
  rfl

@[simp] theorem kind?_extended {k : LayerId} : (g.extended l inputs xs).kind? k = g.kind? k := by
  simp only [kind?, extended, modifyLayer, pushTensors, Array.getElem?_modify]
  split
  · rw [Option.map_map]; rfl
  · rfl

theorem getElem?_tensors_extended {n : Nat} :
    (g.extended l inputs xs).tensors[n]? =
      if n < g.tensors.size then g.tensors[n]? else xs[n - g.tensors.size]? := by
  simp [extended, modifyLayer, pushTensors, Array.getElem?_append]

theorem record?_extended {layer : Layer α} (hl : g.layer l = .ok layer) {i : InvocationId} :
    (g.extended l inputs xs).record? i =
      if i = ⟨l, layer.invocations.size⟩ then some ⟨inputs, g.nextIds xs.length⟩
      else g.record? i := by
  obtain ⟨⟨k⟩, n⟩ := i
  simp only [record?, extended, modifyLayer, pushTensors, Array.getElem?_modify]
  split
  case isTrue h =>
    subst h
    simp only [layer_eq_ok.1 hl, Option.map_some, Option.bind_some, Array.getElem?_push]
    by_cases hn : n = layer.invocations.size
    · simp [hn]
    · simp [hn]
  case isFalse h =>
    rw [if_neg]
    rintro ⟨⟩
    exact h rfl

theorem grows_extended {layer : Layer α} (hl : g.layer l = .ok layer) :
    g.Grows (g.extended l inputs xs) where
  tensor n x hx := by
    rw [getElem?_tensors_extended, if_pos (Array.getElem?_eq_some_iff.1 hx).1, hx]
  name n hn := by
    simp only [extended, modifyLayer, pushTensors, Array.getElem?_modify]
    split <;> simp [Array.getElem?_eq_getElem hn]
  kind k x hk := by rw [kind?_extended, hk]
  record i inv hi := by
    rw [record?_extended hl, if_neg, hi]
    rintro rfl
    simp [record?, layer_eq_ok.1 hl] at hi

theorem producer?_extended {t : TensorId} {p : Provenance}
    (h : (g.extended l inputs xs).producer? t = some p) (hn : g.producer? t = none) :
    ∃ k x, t = ⟨g.tensors.size + k⟩ ∧ xs[k]? = some x ∧ x.provenance = some p := by
  simp only [producer?, getElem?_tensors_extended] at h hn
  split at h
  case isTrue => simp [hn] at h
  case isFalse hlt =>
    obtain ⟨x, hx, hp⟩ := Option.bind_eq_some_iff.1 h
    exact ⟨_, x, by cases t; simp; simp at hlt; omega, hx, hp⟩

theorem tensor_extended {k : Nat} {x : Tensor} (hx : xs[k]? = some x) :
    (g.extended l inputs xs).tensor ⟨g.tensors.size + k⟩ = .ok x := by
  rw [tensor_eq_ok, getElem?_tensors_extended, if_neg (by simp)]
  simpa using hx

variable [Scalar α]

@[simp] theorem operation?_extended {k : LayerId} :
    (g.extended l inputs xs).operation? k = g.operation? k := by simp [operation?]

omit [Scalar α] in
@[simp] theorem model?_extended {k : LayerId} :
    (g.extended l inputs xs).model? k = g.model? k := by simp [model?]

omit [Scalar α] in
theorem produces_extended {layer : Layer α}
    (hp : ∀ k (x : Tensor), xs[k]? = some x → x.provenance = some ⟨l, layer.invocations.size, k⟩) :
    (g.extended l inputs xs).Produces ⟨l, layer.invocations.size⟩ (g.nextIds xs.length) := by
  intro k t ht
  obtain ⟨hk, rfl⟩ := getElem?_nextIds.1 ht
  have hx := List.getElem?_eq_getElem hk
  exact producer?_eq_some.2 ⟨_, tensor_extended hx, hp k _ hx⟩

/-- The graph behind an application is sound if the application is. -/
theorem Sound.extended (hs : g.Sound) {layer : Layer α} (hl : g.layer l = .ok layer)
    (hp : ∀ k (x : Tensor), xs[k]? = some x → x.provenance = some ⟨l, layer.invocations.size, k⟩)
    (hm : (g.extended l inputs xs).Made ⟨l, layer.invocations.size⟩
      ⟨inputs, g.nextIds xs.length⟩) : (g.extended l inputs xs).Sound := by
  refine hs.of_grows (grows_extended hl) ?_ ?_ ?_
  · intro t p ht hn
    obtain ⟨k, x, rfl, hx, hxp⟩ := producer?_extended ht hn
    obtain rfl := Option.some.inj (hxp.symm.trans (hp k x hx))
    exact ⟨_, by simp [Provenance.source, record?_extended hl],
      getElem?_nextIds.2 ⟨(List.getElem?_eq_some_iff.1 hx).1, rfl⟩, hm⟩
  · intro i inv hi hn
    rw [record?_extended hl] at hi
    split at hi
    case isTrue h => subst h; obtain rfl := Option.some.inj hi; exact .inl hm
    case isFalse => simp [hn] at hi
  · intro k m hm' hn
    simp [hn] at hm'

end
end Graph
end Neuroform

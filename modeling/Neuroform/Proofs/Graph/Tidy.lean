/-
  Neuroform — models that can be called again.

  An input of a model accepts a tensor if the shape that its entry declares has
  the rank of the tensor (`Accepts`).  In a tidy graph a model is behind the
  layers that it has, and has only been called on tensors that its inputs accept
  (`Tidy`).  Steps that fail keep a graph tidy as well as others do
  (`Step.Keeps`).
-/
import Neuroform.Proofs.Graph.Adding
import Neuroform.Proofs.Graph.Dims

namespace Neuroform

/-! ## Steps that keep a property of the state -/

/-- What holds before a step holds after it, also if the step fails. -/
def Step.Keeps {σ β : Type} (I : σ → Prop) (s : Step σ β) : Prop := ∀ x, I x → I (s.exec x).2

namespace Step.Keeps
variable {σ β γ δ : Type} {I : σ → Prop} {s : Step σ β} {f : β → Step σ γ}

theorem pure {b : β} : Keeps I (Pure.pure b : Step σ β) := fun _ h => h

theorem lift {o : Outcome β} : Keeps I (liftM o : Step σ β) := fun _ h => h

theorem bind (hs : Keeps I s) (hf : ∀ b, Keeps I (f b)) : Keeps I (s >>= f) := by
  intro x hx
  have hx' := hs x hx
  rcases he : s.exec x with ⟨e | b, y⟩
  · rw [he] at hx'
    rwa [exec_bind_error he]
  · rw [he] at hx'
    rw [exec_bind_ok he]
    exact hf b y hx'

theorem get_bind {f : σ → Step σ γ} (hf : ∀ x, Keeps I (f x)) : Keeps I (get >>= f) :=
  bind (fun _ h => h) hf

theorem foldlM {f : γ → δ → Step σ γ} {xs : List δ} (hf : ∀ c, ∀ x ∈ xs, Keeps I (f c x)) (c : γ) :
    Keeps I (xs.foldlM f c) := by
  induction xs generalizing c with
  | nil => exact pure
  | cons x xs ih =>
    rw [List.foldlM_cons]
    exact (hf c x (by simp)).bind (ih fun c y hy => hf c y (List.mem_cons_of_mem _ hy))

end Step.Keeps

namespace Graph

variable {α : Type} {g g' : Graph α}

/-! ## Inputs that accept tensors -/

/-- The shape that the entry behind a model input declares has the rank of a
    tensor. -/
def Accepts (g : Graph α) (x u : TensorId) : Prop :=
  ∃ p d s, g.producer? x = some p ∧ g.kind? p.layer = some (.primitive (.input d)) ∧
    g.shape? u = some s ∧ s.rank = d.shape.rank

namespace Accepts
variable {x u v : TensorId}

theorem mono (hg : g.Grows g') (h : g.Accepts x u) : g'.Accepts x u := by
  obtain ⟨p, d, s, hp, hd, hs, hr⟩ := h
  exact ⟨p, d, s, hg.producer hp, hg.kind _ _ hd, hg.shape hs, hr⟩

theorem of_sameShape (h : g.Accepts x u) (hs : g.SameShape u v) : g.Accepts x v := by
  obtain ⟨p, d, s, hp, hd, hu, hr⟩ := h
  obtain ⟨s', hu', hv⟩ := hs
  obtain rfl := Option.some.inj (hu.symm.trans hu')
  exact ⟨p, d, s, hp, hd, hv, hr⟩

/-- What a graph that has grown says of a tensor that there was before. -/
theorem of_grows (hg : g.Grows g') {p : Provenance} (hp : g.producer? x = some p)
    (he : g.IsEntry p.layer) (hu : u.index < g.tensors.size) (h : g'.Accepts x u) :
    g.Accepts x u := by
  obtain ⟨q, d, s, hq, hd, hs, hr⟩ := h
  obtain rfl := Option.some.inj ((hg.producer hp).symm.trans hq)
  obtain ⟨d', hd'⟩ := he
  obtain rfl : d' = d := by simpa using (hg.kind _ _ hd').symm.trans hd
  have hshape : g.shape? u = some g.tensors[u.index].shape := by
    rw [shape?, Array.getElem?_eq_getElem hu, Option.map_some]
  obtain rfl := Option.some.inj ((hg.shape hshape).symm.trans hs)
  exact ⟨p, d', _, hp, hd', hshape, hr⟩

/-- An input accepts itself: it is an output of its entry. -/
theorem refl [Scalar α] (hs : g.Sound) {p : Provenance} (hp : g.producer? x = some p)
    (he : g.IsEntry p.layer) : g.Accepts x x := by
  obtain ⟨d, hd⟩ := he
  obtain ⟨inv, hr, hx, -⟩ := hs.made hp
  obtain ⟨-, -, x', hout, hshape⟩ := hs.entry hd hr
  obtain rfl : x = x' := by
    have hmem := List.mem_of_getElem? hx
    rwa [hout, List.mem_singleton] at hmem
  exact ⟨p, d, _, hp, hd, hshape, rfl⟩

end Accepts

/-! ## Tidy graphs -/

/-- Models are behind their layers, and each of their calls has been given
    tensors that the inputs accept. -/
structure Tidy (g : Graph α) : Prop where
  layered : ∀ l m, g.model? l = some m → ∀ k ∈ m.layers, k.index < l.index
  entered : ∀ l m n inv, g.model? l = some m → g.record? ⟨l, n⟩ = some inv →
    List.Forall₂ g.Accepts m.inputs inv.inputs

namespace Tidy

theorem empty : (empty : Graph α).Tidy where
  layered l m h := by simp [model?, kind?, Graph.empty] at h
  entered l m n inv h := by simp [model?, kind?, Graph.empty] at h

/-- A graph that has grown by nothing that models are concerned with. -/
theorem of_same (h : g.Tidy) (hg : g.Grows g') (record : ∀ i, g'.record? i = g.record? i)
    (kind : ∀ l, g'.kind? l = g.kind? l) : g'.Tidy where
  layered l m hm := h.layered l m (by rwa [model?, ← kind])
  entered l m n inv hm hr := (h.entered l m n inv (by rwa [model?, ← kind])
    ((record _).symm.trans hr)).imp fun _ _ => Accepts.mono hg

/-- One more application, of a primitive layer or of a model to tensors that its
    inputs accept. -/
theorem extended (h : g.Tidy) {l : LayerId} {layer : Layer α} {ts : List TensorId} {xs : List Tensor}
    (hl : g.layer l = .ok layer)
    (hm : ∀ m, g.model? l = some m → List.Forall₂ g.Accepts m.inputs ts) :
    (g.extended l ts xs).Tidy where
  layered k m hk := h.layered k m (by rwa [model?_extended] at hk)
  entered k m n inv hk hr := by
    rw [model?_extended] at hk
    rw [record?_extended hl] at hr
    refine List.Forall₂.imp (fun _ _ => Accepts.mono (grows_extended hl)) ?_
    split at hr
    case isTrue hi =>
      obtain ⟨rfl, rfl⟩ := InvocationId.mk.inj hi
      obtain rfl := Option.some.inj hr
      exact hm m hk
    case isFalse => exact h.entered k m n inv hk hr

/-- One more layer. -/
theorem pushLayer (h : g.Tidy) {layer : Layer α} (hlayer : ∀ m, layer.kind = .model m →
      (∀ k ∈ m.layers, k.index < g.layers.size) ∧ ∀ (n : Nat) inv,
        layer.invocations[n]? = some inv → List.Forall₂ g.Accepts m.inputs inv.inputs) :
    (g.pushLayer layer).Tidy := by
  have hnew : ∀ m, (g.pushLayer layer).model? ⟨g.layers.size⟩ = some m → layer.kind = .model m := by
    intro m hm
    rw [model?, kind?_pushLayer, if_pos rfl] at hm
    cases hk : layer.kind with
    | primitive p => simp [hk, LayerKind.model?] at hm
    | model m' => simpa [hk, LayerKind.model?] using hm
  have hold : ∀ l m, l ≠ ⟨g.layers.size⟩ → (g.pushLayer layer).model? l = some m →
      g.model? l = some m := fun l m hl hm => by
    rwa [model?, kind?_pushLayer, if_neg hl] at hm
  refine ⟨fun l m hm => ?_, fun l m n inv hm hr => ?_⟩
  · by_cases hl : l = ⟨g.layers.size⟩
    · subst hl
      exact (hlayer m (hnew m hm)).1
    · exact h.layered l m (hold l m hl hm)
  · refine List.Forall₂.imp (fun _ _ => Accepts.mono grows_pushLayer) ?_
    rw [record?_pushLayer] at hr
    by_cases hl : l = ⟨g.layers.size⟩
    · rw [if_pos hl] at hr
      exact (hlayer m (hnew m (hl ▸ hm))).2 n inv hr
    · rw [if_neg hl] at hr
      exact h.entered l m n inv (hold l m hl hm) hr

end Tidy

theorem index_lt_of_kind? {l : LayerId} {k : LayerKind α} (h : g.kind? l = some k) :
    l.index < g.layers.size := by
  obtain ⟨layer, hl, -⟩ := Option.map_eq_some_iff.1 h
  exact (Array.getElem?_eq_some_iff.1 hl).1

/-- A model that is added between tensors of a tidy graph. -/
theorem Tidy.defined [Scalar α] (h : g.Tidy) (hs : g.Sound) {name : String} {m : ModelDef}
    {entries : List LayerId} {order : List InvocationId}
    (hin : m.inputs.mapM (g.inputLayer name) = .ok entries) (hord : g.internalOrder m = .ok order)
    (hlayers : m.layers = addLayersOf entries order) : (g.defined name m).Tidy := by
  refine h.pushLayer ?_
  rintro _ ⟨⟩
  refine ⟨fun k hk => ?_, fun n inv hn => ?_⟩
  · rw [hlayers, mem_addLayersOf] at hk
    rcases hk with hk | ⟨i, hi, rfl⟩
    · obtain ⟨x, -, hx⟩ := forall₂_mem_left (mapM_forall₂.1 hin).flip k hk
      obtain ⟨p, -, rfl, d, hd⟩ := inputLayer_eq_ok hx
      exact index_lt_of_kind? hd
    · obtain ⟨hlists, -, -⟩ := internalOrder_lists hs.acyclic hord
      obtain ⟨⟨inv, hr⟩, -⟩ := hlists.source hi
      obtain ⟨layer, hl⟩ := layer_of_record hr
      exact index_lt_of_kind? (kind?_of_layer hl)
  · obtain rfl : ⟨m.inputs, m.outputs⟩ = inv := by
      obtain ⟨hlt, hinv⟩ := Array.getElem?_eq_some_iff.1 hn
      obtain rfl : n = 0 := by simpa using hlt
      exact hinv
    refine List.forall₂_same.2 fun x hx => ?_
    obtain ⟨l, -, hl⟩ := forall₂_mem_left (mapM_forall₂.1 hin) x hx
    obtain ⟨p, hp, rfl, he⟩ := inputLayer_eq_ok hl
    exact .refl hs hp he

end Graph
end Neuroform

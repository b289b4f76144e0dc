/-
  Neuroform — what building adds.

  A step of building takes nothing away, wherever it stops: the graph has grown,
  and every tensor that is new to it is an output of a layer, which stands for
  another tensor just if the layer is a model (`Augmented`).  Detached tensors
  alone come from elsewhere.  None of this needs the graph to be sound, or the
  layers that are added to be primitive (`Builds`).
-/
import Neuroform.Proofs.Graph.Reachable

namespace Neuroform.Graph

variable {α : Type} {β γ δ : Type} {g g' g'' : Graph α}

/-- A tensor is an output of a layer, and stands for another one just if the
    layer is a model. -/
def Labelled (g : Graph α) (x : Tensor) : Prop :=
  ∃ p k, x.provenance = some p ∧ g.kind? p.layer = some k ∧ x.standsFor.isSome = k.isModel

/-- A graph has grown by layers, applications and their outputs. -/
structure Augmented (g g' : Graph α) : Prop where
  grows : g.Grows g'
  labelled : ∀ (n : Nat) (x : Tensor), g'.tensors[n]? = some x → g.tensors.size ≤ n → g'.Labelled x

theorem Labelled.mono (hg : g.Grows g') {x : Tensor} (h : g.Labelled x) : g'.Labelled x := by
  obtain ⟨p, k, hp, hk, hx⟩ := h
  exact ⟨p, k, hp, hg.kind _ _ hk, hx⟩

namespace Augmented

/-- A graph has grown and has no more tensors. -/
theorem of_tensors (hg : g.Grows g') (ht : g'.tensors = g.tensors) : g.Augmented g' where
  grows := hg
  labelled n x hx hn := by
    rw [ht, Array.getElem?_eq_none hn] at hx
    cases hx

theorem refl (g : Graph α) : g.Augmented g := .of_tensors (.refl g) rfl

theorem trans (h : g.Augmented g') (h' : g'.Augmented g'') : g.Augmented g'' where
  grows := h.grows.trans h'.grows
  labelled n x hx hn := by
    by_cases hlt : n < g'.tensors.size
    · have hy := Array.getElem?_eq_getElem hlt
      have hxy : g'.tensors[n] = x := Option.some.inj ((h'.grows.tensor n _ hy).symm.trans hx)
      exact (h.labelled n x (hxy ▸ hy) hn).mono h'.grows
    · exact h'.labelled n x hx (Nat.le_of_not_lt hlt)

end Augmented

/-! ## Steps that only add -/

/-- A step only adds to a graph, whether or not it succeeds. -/
def Augments (g : Graph α) (s : Step (Graph α) β) : Prop := g.Augmented (s.exec g).2

namespace Augments
variable {s : Step (Graph α) β} {f : β → Step (Graph α) γ}

theorem of_exec {o : Outcome β} (h : s.exec g = (o, g')) (hg : g.Augmented g') : g.Augments s := by
  rw [Augments, h]
  exact hg

theorem pure {b : β} : g.Augments (Pure.pure b : Step (Graph α) β) := of_exec rfl (.refl g)

theorem lift {o : Outcome β} : g.Augments (liftM o : Step (Graph α) β) := of_exec rfl (.refl g)

theorem bind (h : g.Augments s) (hf : ∀ b g', g.Augmented g' → g'.Augments (f b)) :
    g.Augments (s >>= f) := by
  rcases he : s.exec g with ⟨e | b, g'⟩
  · rw [Augments, he] at h
    exact of_exec (Step.exec_bind_error he) h
  · rw [Augments, he] at h
    rw [Augments, Step.exec_bind_ok he]
    exact h.trans (hf b g' h)

theorem get_bind {f : Graph α → Step (Graph α) γ} (h : g.Augments (f g)) :
    g.Augments (get >>= f) := by
  rwa [Augments, Step.exec_get_bind]

theorem lift_bind {o : Outcome β} (hf : ∀ b, o = .ok b → g.Augments (f b)) :
    g.Augments (liftM o >>= f) := by
  cases o with
  | error e => exact of_exec (Step.exec_lift_bind ..) (.refl g)
  | ok b => rw [Augments, Step.exec_lift_bind]; exact hf b rfl

theorem foldlM {f : γ → δ → Step (Graph α) γ} : ∀ {xs : List δ} {c : γ} {g : Graph α},
    (∀ x ∈ xs, ∀ c g', g.Augmented g' → g'.Augments (f c x)) → g.Augments (xs.foldlM f c)
  | [], _, _, _ => pure
  | x :: xs, c, g, h => by
    rw [List.foldlM_cons]
    refine (h x (by simp) c g (.refl g)).bind fun c' g' hg => foldlM fun y hy c'' g'' hg' => ?_
    exact h y (List.mem_cons_of_mem _ hy) c'' g'' (hg.trans hg')

theorem mapM {f : δ → Step (Graph α) β} : ∀ {xs : List δ} {g : Graph α},
    (∀ x ∈ xs, ∀ g', g.Augmented g' → g'.Augments (f x)) → g.Augments (xs.mapM f)
  | [], _, _ => pure
  | x :: xs, g, h => by
    rw [List.mapM_cons]
    refine (h x (by simp) g (.refl g)).bind fun b g' hg => bind (mapM fun y hy g'' hg' => ?_)
      fun _ _ _ => pure
    exact h y (List.mem_cons_of_mem _ hy) g'' (hg.trans hg')

end Augments

/-! ## Single additions -/

/-- A layer has been changed so that it is still the same one and has all
    invocations that it had. -/
theorem grows_modifyLayer {l : LayerId} {f : Layer α → Layer α}
    (hname : ∀ layer, (f layer).name = layer.name) (hkind : ∀ layer, (f layer).kind = layer.kind)
    (hrecord : ∀ layer (n : Nat) inv, layer.invocations[n]? = some inv →
      (f layer).invocations[n]? = some inv) : g.Grows (g.modifyLayer l f) where
  tensor n x hx := hx
  name n hn := by
    simp only [modifyLayer, Array.getElem?_modify]
    split <;> simp [Array.getElem?_eq_getElem hn, hname]
  kind k x hk := by
    obtain ⟨layer, hl, rfl⟩ := Option.map_eq_some_iff.1 hk
    simp only [kind?, modifyLayer, Array.getElem?_modify]
    split <;> simp [hl, hkind]
  record i inv hi := by
    obtain ⟨layer, hl, hi⟩ := Option.bind_eq_some_iff.1 hi
    simp only [record?, modifyLayer, Array.getElem?_modify]
    split
    · simpa [hl] using hrecord layer _ inv hi
    · simpa [hl] using hi

theorem augments_addInvocation {l : LayerId} {inv : Invocation} :
    g.Augments (addInvocation l inv) := by
  refine .of_exec rfl (.of_tensors (grows_modifyLayer (fun _ => rfl) (fun _ => rfl) ?_) rfl)
  intro layer n inv' hn
  rw [Array.getElem?_push, if_neg (Array.getElem?_eq_some_iff.1 hn).1.ne, hn]

theorem grows_pushTensor {x : Tensor} : g.Grows { g with tensors := g.tensors.push x } where
  tensor n y hy := by
    rw [Array.getElem?_push, if_neg (Array.getElem?_eq_some_iff.1 hy).1.ne, hy]
  name n hn := by simp [hn]
  kind l k h := h
  record i inv h := h

theorem augments_addTensor {x : Tensor} (hx : g.Labelled x) : g.Augments (addTensor x) := by
  refine .of_exec exec_addTensor ⟨grows_pushTensor, fun n y hy hn => ?_⟩
  rw [Array.getElem?_push] at hy
  split at hy
  · exact Option.some.inj hy ▸ hx
  · rw [Array.getElem?_eq_none hn] at hy
    cases hy

theorem augments_addLayer {name : String} {kind : LayerKind α} :
    g.Augments (addLayer name kind) :=
  .of_exec (show _ = (_, g.pushLayer ⟨name, kind, true, #[]⟩) from rfl)
    (.of_tensors grows_pushLayer rfl)

theorem augments_setTrainable {l : LayerId} {trainable : Bool} :
    g.Augments (setTrainable l trainable) :=
  .get_bind (.lift_bind fun _ _ => .of_exec rfl
    (.of_tensors (grows_modifyLayer (fun _ => rfl) (fun _ => rfl) fun _ _ _ h => h) rfl))

/-! ## Applying layers -/

section
variable [Scalar α]

theorem augments_applyPrimitive {l : LayerId} {inputs : List TensorId} :
    g.Augments (applyPrimitive l inputs) := by
  unfold applyPrimitive
  refine .get_bind ((Augments.mapM fun t _ g' _ => .lift_bind fun _ _ => .pure).bind
    fun shapes g₁ hg₁ => ?_)
  refine .lift_bind fun layer hl => .lift_bind fun op hop => .lift_bind fun outs _ => ?_
  refine (Augments.mapM fun e _ g' hg' => ?_).bind fun outputs g₂ _ =>
    augments_addInvocation.bind fun _ _ _ => .pure
  refine augments_addTensor ⟨_, layer.kind, rfl,
    (hg₁.trans hg').grows.kind _ _ (kind?_of_layer hl), ?_⟩
  rw [orRefuse_eq_ok] at hop
  cases hk : layer.kind with
  | primitive p => rfl
  | model m => rw [hk] at hop; cases hop

section
variable {apply : LayerId → List TensorId → Step (Graph α) (List TensorId)}
  (happly : ∀ l inputs (g : Graph α), g.Augments (apply l inputs))
include happly

/-- A call adds what the applications of the layers of the model add, and its
    outputs. -/
theorem augments_callWith {l : LayerId} {inputs : List TensorId} :
    g.Augments (callWith apply l inputs) := by
  unfold callWith
  refine .get_bind (.lift_bind fun m hm => .lift_bind fun _ _ => .lift_bind fun _ _ => ?_)
  rw [modelDef_eq_ok] at hm
  refine (Augments.foldlM fun fed _ replay g' _ => ?_).bind fun replay g₁ hg₁ => ?_
  · exact .get_bind (.lift_bind fun _ _ => .lift_bind fun source _ =>
      (happly _ _ g').bind fun _ _ _ => .lift_bind fun _ _ => .pure)
  refine .get_bind (.lift_bind fun order _ => ?_)
  refine (Augments.foldlM fun i _ replay g' _ => ?_).bind fun replay g₂ hg₂ => ?_
  · exact .get_bind (.lift_bind fun inv _ => (Augments.mapM fun t _ g'' _ => .lift).bind
      fun fed g'' _ => (happly _ _ g'').bind fun _ _ _ => .pure)
  refine .get_bind (.lift_bind fun layer _ => ?_)
  refine (Augments.mapM fun e _ g' hg' => ?_).bind fun outputs _ _ =>
    augments_addInvocation.bind fun _ _ _ => .pure
  refine .lift_bind fun replayed _ => .get_bind (.lift_bind fun _ _ => augments_addTensor ?_)
  obtain ⟨k, hk, hmodel⟩ := Option.bind_eq_some_iff.1 hm
  exact ⟨_, k, rfl, ((hg₁.trans hg₂).trans hg').grows.kind _ _ hk, by simp [LayerKind.isModel, hmodel]⟩

end

theorem augments_applyWithin : ∀ {depth : Nat} {l : LayerId} {inputs : List TensorId} {g : Graph α},
    g.Augments (applyWithin depth l inputs)
  | 0, _, _, _ => .lift
  | depth + 1, l, inputs, g => by
    unfold applyWithin
    refine .get_bind (.lift_bind fun layer _ => ?_)
    split
    · exact augments_callWith fun _ _ _ => augments_applyWithin
    · exact augments_applyPrimitive

theorem augments_apply {l : LayerId} {inputs : List TensorId} : g.Augments (apply l inputs) :=
  .get_bind augments_applyWithin

theorem augments_call {l : LayerId} {inputs : List TensorId} : g.Augments (call l inputs) :=
  .get_bind (augments_callWith fun _ _ _ => augments_applyWithin)

/-! ## All operations -/

theorem augments_wire {name : String} {kind : LayerKind α} {inputs : List TensorId} :
    g.Augments (wire name kind inputs) := by
  unfold wire
  refine augments_addLayer.bind fun l g₁ _ => augments_apply.bind fun outputs g₂ _ => ?_
  split
  · exact .pure
  · exact .get_bind (.lift_bind fun _ _ => .lift)

theorem augments_addInputShape {name : String} {shape : Shape} :
    g.Augments (addInputShape name shape) :=
  augments_addLayer.bind fun _ _ _ => augments_apply.bind fun _ _ _ => .lift

omit [Scalar α] in
theorem augmented_defined {name : String} {m : ModelDef} : g.Augmented (g.defined name m) :=
  .of_tensors grows_pushLayer rfl

theorem augments_addModel {name : String} {inputs outputs : List TensorId} :
    g.Augments (addModel name inputs outputs) := by
  rcases exec_addModel (g := g) name inputs outputs with ⟨e, h⟩ | ⟨entries, order, -, -, h⟩
  · exact .of_exec h (.refl g)
  · exact .of_exec h augmented_defined

theorem augments_addSequential {name : String} {dims : List Nat}
    {layers : List (String × LayerKind α)} : g.Augments (addSequential name dims layers) := by
  unfold addSequential
  refine augments_addInputShape.bind fun input g₁ _ => ?_
  refine (Augments.foldlM fun _ _ _ g' _ => augments_wire).bind fun output g₂ _ => ?_
  rcases exec_addModel_sequential (g := g₂) name [input] [output] with ⟨e, h⟩ | ⟨entries, order, -, -, h⟩
  · exact .of_exec h (.refl g₂)
  · exact .of_exec h augmented_defined

/-- **Every operation** only adds outputs of layers to a graph, or a detached
    tensor. -/
theorem BuildStep.augmented (s : BuildStep α) :
    g.Augmented (s.after g) ∨ ∃ shape, s = .detached shape := by
  cases s with
  | input name dims => exact .inl augments_addInputShape
  | inputShape name shape => exact .inl augments_addInputShape
  | detached shape => exact .inr ⟨shape, rfl⟩
  | addLayer name layer => exact .inl augments_addLayer
  | apply l inputs => exact .inl augments_apply
  | wire name layer inputs => exact .inl augments_wire
  | model name inputs outputs => exact .inl augments_addModel
  | sequential name dims layers => exact .inl augments_addSequential
  | call l inputs => exact .inl augments_call
  | setTrainable l trainable => exact .inl augments_setTrainable

theorem BuildStep.grows (s : BuildStep α) : g.Grows (s.after g) := by
  rcases s.augmented with h | ⟨shape, rfl⟩
  · exact h.grows
  · exact grows_pushTensor

/-- A graph is built from another one by operations that may add layers of any
    kind, models that nothing is known of among them. -/
inductive Builds (g : Graph α) : Graph α → Prop where
  | refl : Builds g g
  | step {g' : Graph α} (h : Builds g g') (s : BuildStep α) : Builds g (s.after g')
  | addLayer {g' : Graph α} (h : Builds g g') (name : String) (kind : LayerKind α) :
      Builds g ((Graph.addLayer name kind).exec g').2
  | wire {g' : Graph α} (h : Builds g g') (name : String) (kind : LayerKind α)
      (inputs : List TensorId) : Builds g ((Graph.wire name kind inputs).exec g').2
  | sequential {g' : Graph α} (h : Builds g g') (name : String) (dims : List Nat)
      (layers : List (String × LayerKind α)) :
      Builds g ((Graph.addSequential name dims layers).exec g').2

theorem Builds.grows (h : g.Builds g') : g.Grows g' := by
  induction h with
  | refl => exact .refl g
  | step _ s ih => exact ih.trans s.grows
  | addLayer _ name kind ih => exact ih.trans augments_addLayer.grows
  | wire _ name kind inputs ih => exact ih.trans augments_wire.grows
  | sequential _ name dims layers ih => exact ih.trans augments_addSequential.grows

end
end Neuroform.Graph

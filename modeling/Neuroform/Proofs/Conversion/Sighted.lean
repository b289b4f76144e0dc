/-
  Neuroform — failures for a missing view.

  A conversion looks up the views of tensors that have been converted before.
  All of its other computations may fail too, but never because such a view is
  missing (`Sighted`).
-/
import Neuroform.Conversion.Session
import Neuroform.Proofs.Outcome

namespace Neuroform

/-- Whether a cause is a tensor without a view. -/
def Cause.lacksView : Cause → Bool
  | session (.notConverted ..) => true
  | _ => false

/-- Whether a failure is one for a missing view, in any context. -/
def Failure.lacksView : Failure → Bool
  | fault => false
  | refused _ cause => cause.lacksView

/-- An outcome that is no failure for a missing view. -/
def Sighted {β : Type} (o : Outcome β) : Prop := ∀ e, o = .error e → e.lacksView = false

section
variable {β γ δ : Type} {x : Outcome β}

@[simp] theorem sighted_ok {b : β} : Sighted (.ok b : Outcome β) := by simp [Sighted]

@[simp] theorem sighted_pure {b : β} : Sighted (pure b : Outcome β) := sighted_ok

@[simp] theorem sighted_fault : Sighted (fault : Outcome β) := by
  simp [Sighted, fault, Failure.lacksView]

theorem sighted_bind {f : β → Outcome γ} (hx : Sighted x) (hf : ∀ b, x = .ok b → Sighted (f b)) :
    Sighted (x >>= f) := by
  intro e he
  rcases bind_eq_error.1 he with h | ⟨b, hb, h⟩
  · exact hx e h
  · exact hf b hb e h

theorem sighted_map {f : β → γ} (hx : Sighted x) : Sighted (f <$> x) := by
  cases x with
  | error e => intro e' he; exact hx e' (by cases he; rfl)
  | ok b => exact sighted_ok

@[simp] theorem sighted_refuse {κ : Type} [IsCause κ] {c : κ} :
    Sighted (refuse c : Outcome β) ↔ (IsCause.cause c).lacksView = false := by
  simp [Sighted, refuse, Failure.lacksView]

theorem sighted_orRefuse {κ : Type} [IsCause κ] {c : κ} {o : Option β}
    (hc : (IsCause.cause c).lacksView = false) : Sighted (orRefuse o c) := by
  cases o with
  | none => exact sighted_refuse.2 hc
  | some b => exact sighted_ok

@[simp] theorem sighted_orFault {o : Option β} : Sighted (orFault o) := by
  cases o with
  | none => exact sighted_fault
  | some b => exact sighted_ok

theorem sighted_require {κ : Type} [IsCause κ] {c : κ} {p : Prop} [Decidable p]
    (hc : (IsCause.cause c).lacksView = false) : Sighted (require p c) := by
  unfold require
  split
  · exact sighted_ok
  · exact sighted_refuse.2 hc

theorem lacksView_within {c : Context} (e : Failure) : (e.within c).lacksView = e.lacksView := by
  cases e <;> rfl

theorem sighted_within {c : Context} (hx : Sighted x) : Sighted (x.within c) := by
  cases x with
  | ok b => exact sighted_ok
  | error e =>
    rintro _ ⟨⟩
    exact (lacksView_within e).trans (hx e rfl)

theorem sighted_mapM {f : δ → Outcome β} : ∀ {xs : List δ}, (∀ d ∈ xs, Sighted (f d)) →
    Sighted (xs.mapM f)
  | [], _ => sighted_ok
  | d :: ds, h => by
    rw [List.mapM_cons]
    exact sighted_bind (h d (by simp)) fun b _ =>
      sighted_bind (sighted_mapM fun e he => h e (List.mem_cons_of_mem _ he)) fun _ _ => sighted_ok

theorem sighted_foldlM {f : γ → δ → Outcome γ} : ∀ {xs : List δ} {c : γ},
    (∀ c, ∀ d ∈ xs, Sighted (f c d)) → Sighted (xs.foldlM f c)
  | [], _, _ => sighted_ok
  | d :: ds, c, h => by
    rw [List.foldlM_cons]
    exact sighted_bind (h c d (by simp)) fun b _ =>
      sighted_foldlM fun c e he => h c e (List.mem_cons_of_mem _ he)

end

/-! ## Sizes, axes and places -/

@[simp] theorem sighted_ofNat {n : Nat} : Sighted (Word.ofNat n) := by
  unfold Word.ofNat; split <;> simp

@[simp] theorem sighted_ofInt {i : Int} : Sighted (Word.ofInt i) := by
  unfold Word.ofInt; split <;> simp

@[simp] theorem sighted_product {sizes : List Nat} : Sighted (Word.product sizes) :=
  sighted_foldlM fun _ _ _ => sighted_ofNat

@[simp] theorem sighted_requireRoom {bytes : Nat} {dims : List Nat} :
    Sighted (requireRoom bytes dims) := by
  unfold requireRoom; split <;> simp

@[simp] theorem sighted_axisIndex {axis : Int} {rank : Nat} : Sighted (axisIndex axis rank) := by
  unfold axisIndex
  dsimp only
  split
  · exact sighted_bind sighted_ofInt fun _ _ => sighted_bind (sighted_require rfl) fun _ _ =>
      sighted_pure
  · exact sighted_bind sighted_pure fun _ _ => sighted_bind (sighted_require rfl) fun _ _ =>
      sighted_pure

@[simp] theorem sighted_checkIntervals : ∀ {axis : Nat} {dims : List Nat} {ranges : List Interval},
    Sighted (checkIntervals axis dims ranges)
  | _, [], _ => by simp [checkIntervals]
  | _, _ :: _, [] => by simp [checkIntervals]
  | _, _ :: _, _ :: _ => by
    rw [checkIntervals]
    exact sighted_bind (sighted_require rfl) fun _ _ => sighted_checkIntervals

@[simp] theorem sighted_selectBox {dims : List Nat} {ranges : List Interval} :
    Sighted (selectBox dims ranges) :=
  sighted_bind (sighted_require rfl) fun _ _ => sighted_bind sighted_checkIntervals fun _ _ =>
    sighted_bind sighted_requireRoom fun _ _ => sighted_ok

@[simp] theorem sighted_resolved {s : Shape} : Sighted s.resolved := sighted_orRefuse rfl

theorem sighted_requireSpatial {κ : Type} [IsCause κ] {c : κ} {l : Layout} {rank spatial : Nat}
    (hc : (IsCause.cause c).lacksView = false) : Sighted (l.requireSpatial rank spatial c) := by
  unfold Layout.requireSpatial
  split
  · exact sighted_fault
  · exact sighted_require hc

/-! ## Graphs -/

section
variable {α : Type} {g : Graph α}

@[simp] theorem sighted_layer {l : LayerId} : Sighted (g.layer l) := sighted_orRefuse rfl

@[simp] theorem sighted_tensor {t : TensorId} : Sighted (g.tensor t) := sighted_orRefuse rfl

@[simp] theorem sighted_layerInvocation {layer : Layer α} {i : Nat} :
    Sighted (layer.invocation i) := sighted_orRefuse rfl

@[simp] theorem sighted_invocation {i : InvocationId} : Sighted (g.invocation i) :=
  sighted_bind sighted_layer fun _ _ => sighted_layerInvocation

theorem sighted_followInner {t : TensorId} : ∀ {depth : Nat} {u : TensorId},
    Sighted (g.followInner t depth u)
  | 0, _ => sighted_refuse.2 rfl
  | depth + 1, u => by
    rw [Graph.followInner]
    refine sighted_bind sighted_tensor fun x _ => sighted_bind (sighted_orRefuse rfl) fun p _ =>
      sighted_bind sighted_layer fun layer _ => ?_
    split
    · exact sighted_bind (sighted_orRefuse rfl) fun _ _ => sighted_followInner
    · exact sighted_pure

@[simp] theorem sighted_resolveProvenance {t : TensorId} : Sighted (g.resolveProvenance t) :=
  sighted_followInner

theorem sighted_traceFrom : ∀ {depth : Nat} {order : List Provenance} {p : Provenance},
    Sighted (g.traceFrom depth order p)
  | 0, _, _ => sighted_fault
  | depth + 1, order, p => by
    rw [Graph.traceFrom]
    split
    · exact sighted_ok
    · refine sighted_bind sighted_invocation fun inv _ => sighted_bind ?_ fun ps _ =>
        sighted_bind (sighted_foldlM fun _ _ _ => sighted_traceFrom) fun _ _ => sighted_pure
      exact sighted_bind (sighted_mapM fun _ _ => sighted_resolveProvenance) fun _ _ => sighted_pure

@[simp] theorem sighted_trace {ts : List TensorId} : Sighted (g.trace ts) :=
  sighted_bind (sighted_bind (sighted_mapM fun _ _ => sighted_resolveProvenance)
    fun _ _ => sighted_pure) fun _ _ => sighted_foldlM fun _ _ _ => sighted_traceFrom

@[simp] theorem sighted_invocationShapes {i : InvocationId} {side : Side} {batch : Bool} :
    Sighted (g.invocationShapes i side batch) :=
  sighted_bind sighted_invocation fun _ _ => sighted_mapM fun _ _ =>
    sighted_bind sighted_tensor fun _ _ => sighted_pure

variable [Scalar α]

@[simp] theorem sighted_modelDef {l : LayerId} : Sighted (g.modelDef l) :=
  sighted_bind sighted_layer fun _ _ => sighted_orRefuse rfl

@[simp] theorem sighted_invocationShape {i : InvocationId} {side : Side} {batch : Bool} :
    Sighted (g.invocationShape i side batch) := by
  refine sighted_bind sighted_invocationShapes fun shapes _ => ?_
  split
  · exact sighted_pure
  · exact sighted_bind sighted_layer fun _ _ => sighted_refuse.2 rfl

end

/-! ## Networks -/

section
variable {α : Type} {n : Network α}

@[simp] theorem sighted_object {o : ObjectId} : Sighted (n.object o) := sighted_orRefuse rfl

@[simp] theorem sighted_slice {v : View} {positions : List Nat} : Sighted (v.slice positions) := by
  unfold View.slice
  split
  · exact sighted_pure
  · exact sighted_bind (sighted_mapM fun _ _ => sighted_orRefuse rfl) fun _ _ => sighted_pure

@[simp] theorem sighted_viewSize {v : View} {size : Nat} : Sighted (n.viewSize v size) := by
  unfold Network.viewSize
  split
  · exact sighted_pure
  · split
    · exact sighted_bind sighted_object fun _ _ => sighted_refuse.2 rfl
    · exact sighted_pure

@[simp] theorem sighted_viewSizeOut {v : View} : Sighted (n.viewSizeOut v) :=
  sighted_bind sighted_object fun _ _ => sighted_viewSize

@[simp] theorem sighted_viewSizeIn {v : View} : Sighted (n.viewSizeIn v) := by
  refine sighted_bind sighted_object fun o _ => sighted_bind ?_ fun _ _ => sighted_viewSize
  unfold ObjectKind.sizeIn
  split <;> simp

theorem sighted_paddingAxis {p : Padding} {input kernel dilation stride : Nat} :
    Sighted (p.axis input kernel dilation stride) := by
  unfold Padding.axis
  refine sighted_bind ?_ fun reach _ => ?_
  · unfold windowReach; split <;> simp
  split
  · exact sighted_fault
  · cases p with
    | valid => exact sighted_bind sighted_ofNat fun _ _ => sighted_pure
    | same => exact sighted_bind sighted_ofNat fun _ _ => sighted_pure

theorem sighted_paddingAxes {p : Padding} : ∀ {inputs kernels dilations strides : List Nat},
    Sighted (p.axes inputs kernels dilations strides)
  | [], _, _, _ => sighted_ok
  | _ :: _, [], _, _ => sighted_fault
  | _ :: _, _ :: _, [], _ => sighted_fault
  | _ :: _, _ :: _, _ :: _, [] => sighted_fault
  | _ :: _, _ :: _, _ :: _, _ :: _ => by
    rw [Padding.axes]
    exact sighted_bind sighted_paddingAxis fun _ _ => sighted_bind sighted_paddingAxes
      fun _ _ => sighted_pure

@[simp] theorem sighted_convolutionSizeOut {c : ConvolutionTransform α} : Sighted c.sizeOut :=
  sighted_bind (sighted_bind (sighted_bind sighted_paddingAxes fun _ _ => sighted_pure)
    fun _ _ => sighted_pure) fun _ _ => sighted_product

@[simp] theorem sighted_check {t : Transform α} {sizeIn sizeOut : Nat} :
    Sighted (t.check sizeIn sizeOut) := by
  refine sighted_bind ?_ fun _ _ => sighted_bind ?_ fun _ _ =>
    sighted_bind (sighted_require rfl) fun _ _ => ?_
  · cases t with
    | convolution c => exact sighted_map sighted_product
    | _ => exact sighted_ok
  · cases t with
    | convolution c => exact sighted_map sighted_convolutionSizeOut
    | _ => exact sighted_ok
  · cases t with
    | sparse s => exact sighted_bind (sighted_require rfl) fun _ _ => sighted_require rfl
    | _ => exact sighted_ok

@[simp] theorem sighted_makeConvolution {filters : Nat} {input kernel strides : List Nat}
    {padding : Padding} {l : Layout} {weights : Grid α} :
    Sighted (ConvolutionTransform.make filters input kernel strides padding l weights) :=
  sighted_bind (sighted_require rfl) fun _ _ => sighted_bind (sighted_require rfl)
    fun _ _ => sighted_pure

@[simp] theorem sighted_validateSynapse [Scalar α] {s : Synapse α} : Sighted s.validate :=
  sighted_require rfl

end

end Neuroform

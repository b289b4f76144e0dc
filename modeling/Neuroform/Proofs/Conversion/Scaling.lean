/-
  Neuroform — conversions that scale firing rates.

  A conversion with a scaling of firing rates goes alongside the one without
  it: their workspaces differ in the ensembles and the warnings only
  (`Workspace.Scaled`), and no operation or rule tells them apart.  So the
  conversions succeed together, and their networks are scaled against each
  other.
-/
import Neuroform.Proofs.Conversion.Rules
import Neuroform.Proofs.Network.Scaling

namespace Neuroform

variable {α β : Type} [Scalar α] {scale : RateScale α}

omit [Scalar α] in
theorem RateScale.mem_factors {l : LayerId} {k : α} (h : scale.ofLayer? l = some k) :
    k ∈ scale.factors := by
  cases scale with
  | none => cases h
  | everywhere factor => exact List.mem_singleton.2 (Option.some.inj h).symm
  | perLayer factors => exact List.mem_map_of_mem (mem_of_lookup h)

namespace Workspace

/-- Workspaces of a conversion without and with a scaling. -/
structure Scaled (scale : RateScale α) (w w' : Workspace α) : Prop where
  graph : w'.graph = w.graph
  settings : w'.settings = { w.settings with scale }
  unscaled : w.settings.scale = .none
  network : w.network.Scaled (· ∈ scale.factors) w'.network
  views : w'.views = w.views

namespace Scaled
variable {w w' : Workspace α} (h : w.Scaled scale w') {i : InvocationId}
include h

theorem label : w'.label i = w.label i := by simp only [Workspace.label, h.graph]

theorem inputDims : w'.inputDims i = w.inputDims i := by simp only [Workspace.inputDims, h.graph]

theorem allInputDims : w'.allInputDims i = w.allInputDims i := by
  simp only [Workspace.allInputDims, h.graph]

theorem outputDims : w'.outputDims i = w.outputDims i := by
  simp only [Workspace.outputDims, h.graph]

theorem isConverted : w'.isConverted i = w.isConverted i := by
  rw [Workspace.isConverted, Workspace.isConverted, h.views]

theorem tensorView {t : TensorId} : w'.tensorView t = w.tensorView t := by
  simp only [Workspace.tensorView, h.graph, h.views]

theorem inputView {input : Nat} : w'.inputView i input = w.inputView i input := by
  simp only [Workspace.inputView, h.graph, h.tensorView]

theorem synapseOf {v : View} : w'.synapseOf v = w.synapseOf v := by
  refine h.network.object_bind fun x x' _ hx => ?_
  rw [hx.kind.isNeurons, h.settings]

theorem checkBiases {size : Nat} {biases : Option (List α)} :
    w'.checkBiases i size biases = w.checkBiases i size biases := by
  cases biases with
  | none => rfl
  | some b => simp only [Workspace.checkBiases, h.graph]

theorem target {n : Nonlinearity α} : w'.settings.target n = w.settings.target n := by
  rw [h.settings]
  rfl

end Scaled

/-! ## Operations -/

/-- Steps that go alongside each other on networks do so on workspaces. -/
theorem agrees_onNetwork {s s' : Step (Network α) β} {Q : β → Prop} {w w' : Workspace α}
    (h : w.Scaled scale w')
    (hs : Step.Agrees (Network.Scaled (· ∈ scale.factors)) Q s s' w.network w'.network) :
    Step.Agrees (Scaled scale) Q (onNetwork s) (onNetwork s') w w' :=
  hs.on fun _ _ hn => { h with network := hn }

theorem respects_onNetwork {s : Step (Network α) β}
    (hs : s.Respects (Network.Scaled (· ∈ scale.factors))) :
    (onNetwork s).Respects (Scaled scale) := fun _ _ h => agrees_onNetwork h (hs _ _ h.network)

theorem respects_warn {text : String} :
    (warn text : Step (Workspace α) Unit).Respects (Scaled scale) :=
  fun _ _ h => .of_exec rfl rfl { h with } fun _ _ => trivial

theorem respects_object {kind : ObjectKind α} {label : String} :
    (onNetwork (Network.addObject kind label)).Respects (Scaled scale) :=
  respects_onNetwork Network.respects_addObject

theorem respects_connect {pre post : View} {t : Transform α} {flag : Option Bool} :
    (connect pre post t flag).Respects (Scaled scale) :=
  .read (fun w w' h => by rw [h.synapseOf]) fun w => .lift_bind fun synapse =>
    (respects_onNetwork Network.respects_connect).bind fun c =>
    (respects_onNetwork Network.respects_setTrainable).bind fun _ => .pure

theorem respects_wireInput {i : InvocationId} {post : View} {input : Nat} {trainable : Bool}
    {t : Transform α} : (wireInput i post input trainable t).Respects (Scaled scale) :=
  .read (fun w w' h => by rw [h.inputView]) fun w => .lift_bind fun _ => respects_connect

theorem respects_attachBias {label : String} {o : ObjectId} {bias : List α} :
    (attachBias label o bias).Respects (Scaled scale) :=
  respects_object.bind fun _ => (respects_onNetwork Network.respects_connect).bind fun _ => .pure

/-- **Ensembles are scaled** where a conversion has a factor for them. -/
theorem agrees_addEnsemble {label : String} {size : Nat} {factor : Option α} {n : Neuron α}
    {biases : Option (List α)} {w w' : Workspace α} (h : w.Scaled scale w')
    (hk : ∀ k ∈ factor, k ∈ scale.factors) :
    Step.Agrees (Scaled scale) (fun _ => True) (addEnsemble label size none n biases)
      (addEnsemble label size factor n biases) w w' := by
  obtain ⟨warnings, he⟩ := exec_scaleDown none n w
  obtain ⟨warnings', he'⟩ := exec_scaleDown factor n w'
  refine .of_eq (Step.exec_bind_ok he) (Step.exec_bind_ok he') ?_
  have h' : Scaled scale { w with warnings } { w' with warnings := warnings' } := { h with }
  refine .lift_bind h' fun _ _ => ?_
  have hkind : ObjectKind.Scaled (· ∈ scale.factors)
      (.neurons ⟨size, n, List.replicate size 1, biases.getD (List.replicate size 0)⟩)
      (.neurons ⟨size, factor.elim n fun k => n.mapAmplitude (· / k),
        List.replicate size (factor.getD 1),
        (biases.map fun b => factor.elim b fun k => b.map (· * k)).getD
          (List.replicate size 0)⟩) := by
    cases factor with
    | none => cases biases <;> exact .same _
    | some k =>
      cases biases with
      | none => exact .neurons (hk k rfl) (.plain size n)
      | some b => exact .neurons (hk k rfl) (.biased size n b)
  have hb : (biases.map fun b => (none : Option α).elim b fun k => b.map (· * k)) = biases := by
    cases biases <;> rfl
  rw [hb]
  refine (agrees_onNetwork h' (Network.agrees_addObject h'.network hkind)).bind fun o w w' _ h => ?_
  have hrest : (do
      if biases.isNone then onNetwork (Network.setTrainable (.object o) (some false))
      return o : Step (Workspace α) ObjectId).Respects (Scaled scale) := by
    cases biases with
    | none => exact (respects_onNetwork Network.respects_setTrainable).bind fun _ => .pure
    | some b => exact .pure
  exact hrest w w' h

theorem respects_addActivation {i : InvocationId} {label : String} {shape : List Nat} {size : Nat}
    {a : Activation} : (addActivation i label shape size a : Step (Workspace α) _).Respects
      (Scaled scale) := by
  refine .read (fun w w' h => by simp only [h.settings, h.graph]) fun w => ?_
  split
  · exact respects_warn.bind fun _ => respects_object
  · exact .lift_bind fun _ => .lift

theorem respects_addNode {i : InvocationId} {label : String} {shape : List Nat} {size : Nat}
    {a : Activation} : (addNode i label shape size a : Step (Workspace α) _).Respects
      (Scaled scale) := by
  unfold addNode
  split
  · exact respects_object
  · exact respects_addActivation

theorem respects_addTarget {i : InvocationId} {label : String} {shape : List Nat} {size : Nat}
    {biases : Option (List α)} {n : Nonlinearity α} :
    (addTarget i label shape size biases n).Respects (Scaled scale) := by
  cases n with
  | neuron n =>
    intro w w' h
    refine .get_bind ?_
    rw [h.unscaled, h.settings]
    exact agrees_addEnsemble h fun k hk => RateScale.mem_factors hk
  | activation a =>
    refine respects_addNode.bind fun o => ?_
    cases biases with
    | none => exact .pure
    | some b => exact respects_attachBias.bind fun _ => .pure

theorem respects_buildTarget {i : InvocationId} {biases : Option (List α)}
    {n : Option (Nonlinearity α)} : (buildTarget i biases n).Respects (Scaled scale) :=
  .read (fun w w' h => by rw [h.label, h.outputDims]; simp only [h.checkBiases, h.target]) fun w =>
    .lift_bind fun _ => .lift_bind fun _ => .lift_bind fun _ => .lift_bind fun _ =>
    respects_addTarget.bind fun _ => .pure

end Workspace

/-! ## Rules -/

namespace Rule

open Workspace

variable {i : InvocationId}

theorem respects_convertDense {d : Dense α} : (convertDense d i).Respects (Scaled scale) :=
  respects_buildTarget.bind fun _ => respects_wireInput.bind fun _ => .pure

theorem respects_convertBatchNorm {axes : List Int} {normal offset : List α} :
    (convertBatchNorm axes normal offset i).Respects (Scaled scale) :=
  .read (fun w w' h => by rw [h.inputDims]) fun w => .lift_bind fun _ => .lift_bind fun _ =>
    .lift_bind fun _ => .lift_bind fun _ => .lift_bind fun _ => .lift_bind fun _ =>
    respects_buildTarget.bind fun _ => .read (fun w w' h => by rw [h.label]) fun w =>
    .lift_bind fun _ => respects_object.bind fun _ => respects_connect.bind fun _ =>
    respects_wireInput.bind fun _ => .pure

theorem respects_convertInput : (convertInput i : Step (Workspace α) View).Respects
    (Scaled scale) := by
  refine .read (fun w w' h => by simp only [h.graph, h.outputDims, h.inputView]) fun w =>
    .lift_bind fun _ => .lift_bind fun _ => ?_
  split
  · exact .lift_bind fun _ => .lift_bind fun _ => .lift_bind fun _ =>
      respects_object.bind fun _ => .pure
  · exact .lift

theorem respects_convertNonlinearity {n : Nonlinearity α} :
    (convertNonlinearity n i).Respects (Scaled scale) :=
  respects_buildTarget.bind fun _ => respects_wireInput.bind fun _ => .pure

theorem respects_convertMerge {m : Merge} :
    (convertMerge m i : Step (Workspace α) View).Respects (Scaled scale) :=
  .read (fun w w' h => by rw [h.graph]) fun w => .lift_bind fun _ =>
    respects_buildTarget.bind fun _ =>
    (Step.Respects.forIn fun _ _ => respects_wireInput.bind fun _ => .pure).bind fun _ => .pure

theorem respects_convertConcatenate {c : Concatenate} :
    (convertConcatenate c i : Step (Workspace α) View).Respects (Scaled scale) :=
  .read (fun w w' h => by rw [h.outputDims]) fun w => .lift_bind fun _ => .lift_bind fun _ =>
    respects_buildTarget.bind fun _ => .read (fun w w' h => by rw [h.allInputDims]) fun w =>
    .lift_bind fun _ => (Step.Respects.forIn fun _ _ => .lift_bind fun _ => .lift_bind fun _ =>
      .lift_bind fun _ => respects_wireInput.bind fun _ => .pure).bind fun _ => .pure

theorem respects_convertPassing :
    (convertPassing i : Step (Workspace α) View).Respects (Scaled scale) :=
  .read (fun w w' h => by rw [h.inputView]) fun w => .lift

theorem respects_convertUpSampling {u : UpSampling} :
    (convertUpSampling u i : Step (Workspace α) View).Respects (Scaled scale) :=
  .read (fun w w' h => by rw [h.inputDims]) fun w => .lift_bind fun _ => .lift_bind fun _ =>
    respects_buildTarget.bind fun _ => .read (fun w w' h => by rw [h.inputView]) fun w =>
    .lift_bind fun _ => .lift_bind fun _ => respects_connect.bind fun _ => .pure

theorem respects_convertZeroPadding {z : ZeroPadding} :
    (convertZeroPadding z i : Step (Workspace α) View).Respects (Scaled scale) :=
  .read (fun w w' h => by rw [h.outputDims]) fun w => .lift_bind fun _ => .lift_bind fun _ =>
    respects_buildTarget.bind fun _ => .lift_bind fun _ => respects_wireInput.bind fun _ => .pure

theorem respects_wireBiases {c : Conv α} {output : View} {bias : List α} :
    (wireBiases c i output bias).Respects (Scaled scale) :=
  .read (fun w w' h => by rw [h.label, h.outputDims]) fun w => .lift_bind fun _ =>
    .lift_bind fun _ => respects_object.bind fun _ => respects_object.bind fun _ =>
    respects_connect.bind fun _ => .lift_bind fun _ => respects_connect.bind fun _ => .pure

theorem respects_convertConv {c : Conv α} : (convertConv c i).Respects (Scaled scale) := by
  have hwire : ∀ output, (do
      let dims ← (← get).inputDims i
      let _ ← wireInput i output 0 true (.convolution (← convTransform c dims))
      return output : Step (Workspace α) View).Respects (Scaled scale) :=
    fun output => .read (fun w w' h => by rw [h.inputDims]) fun w => .lift_bind fun _ =>
      .lift_bind fun _ => respects_wireInput.bind fun _ => .pure
  refine respects_buildTarget.bind fun output => ?_
  cases c.bias with
  | none => exact hwire output
  | some bias => exact respects_wireBiases.bind fun _ => hwire output

theorem respects_convertPool {p : Pool} :
    (convertPool p i : Step (Workspace α) View).Respects (Scaled scale) :=
  .read (fun w w' h => by rw [h.inputDims]) fun w => .lift_bind fun _ => .lift_bind fun _ =>
    respects_buildTarget.bind fun _ => respects_wireInput.bind fun _ => .pure

theorem respects_convertWrapped {p : Primitive α} : (convertWrapped p i).Respects (Scaled scale) :=
  .read (fun w w' h => by simp only [h.graph, h.allInputDims, h.outputDims, h.label]) fun w =>
    .lift_bind fun _ => .lift_bind fun _ => .lift_bind fun _ => .lift_bind fun _ =>
    .lift_bind fun _ => .lift_bind fun _ => .lift_bind fun _ => .lift_bind fun _ =>
    respects_object.bind fun _ => .lift_bind fun _ =>
    (Step.Respects.forIn fun _ _ => respects_wireInput.bind fun _ => .pure).bind fun _ => .pure

/-- **No way of conversion tells** whether firing rates are scaled. -/
theorem Conversion.respects {wrapped : Bool} {p : Primitive α}
    {c : InvocationId → Step (Workspace α) View} (h : Conversion wrapped p c) (i : InvocationId) :
    (c i).Respects (Scaled scale) := by
  cases h with
  | wrapped => exact respects_convertWrapped
  | input => exact respects_convertInput
  | dense => exact respects_convertDense
  | conv => exact respects_convertConv
  | pool => exact respects_convertPool
  | activation => exact respects_convertNonlinearity
  | merge => exact respects_convertMerge
  | batchNorm => exact respects_convertBatchNorm
  | concatenate => exact respects_convertConcatenate
  | flatten => exact respects_convertPassing
  | reshape => exact respects_convertPassing
  | relu => exact respects_convertNonlinearity
  | leakyRelu => exact respects_convertNonlinearity
  | upSampling => exact respects_convertUpSampling
  | zeroPadding => exact respects_convertZeroPadding

end Rule

/-- A converter whose conversions do not tell whether firing rates are
    scaled. -/
def Converter.Respects (scale : RateScale α) : Converter α → Prop
  | rule r => ∀ i, (r.convert i).Respects (Workspace.Scaled scale)
  | model _ => True

namespace Converter.Converts
variable {l : LayerId} {layer : Layer α} {wrapped : Bool} {c : Converter α}

theorem respects (h : c.Converts l layer wrapped) : c.Respects scale := by
  cases c with
  | model => trivial
  | rule r =>
    obtain ⟨_, _, -, hc, -, hconvert, -⟩ := h
    intro i
    rw [hconvert]
    exact (hc.respects ⟨l, i⟩).map

theorem convertible (h : c.Converts l layer wrapped) (g : Graph α) (s : Settings α) :
    c.convertible g layer { s with scale } = c.convertible g layer s := by
  cases c with
  | model => rfl
  | rule r =>
    obtain ⟨_, _, -, -, -, -, he, -⟩ := h
    simp only [Converter.convertible, Rule.convertible, he]

end Converter.Converts

end Neuroform

/-
  Neuroform — the steps that conversion rules are made of.

  A rule looks up what there is, warns, adds objects, flags them, connects
  views and attaches biases (`Workspace.Composed`); it never writes to the
  network in another way.  So whatever these few steps keep is kept by every
  conversion of an invocation (`Rule.Conversion.composed`).
-/
import Neuroform.Proofs.Conversion.Rules

namespace Neuroform

variable {α : Type} [Scalar α] {β γ δ : Type}

/-! ## Operations -/

namespace Workspace

/-- The steps that look up, warn, add objects, flag them, connect views or attach
    biases, one after the other. -/
inductive Composed : {β : Type} → Step (Workspace α) β → Prop where
  | pure {β : Type} (b : β) : Composed (Pure.pure b)
  | get : Composed get
  | lift {β : Type} (o : Outcome β) : Composed (liftM o)
  | warn (text : String) : Composed (Workspace.warn text)
  | object (kind : ObjectKind α) (label : String) :
    Composed (onNetwork (Network.addObject kind label))
  | flag (o : ObjectId) (flag : Option Bool) :
    Composed (onNetwork (Network.setTrainable (.object o) flag))
  | connect (pre post : View) (t : Transform α) (flag : Option Bool) :
    Composed (Workspace.connect pre post t flag)
  | attachBias (label : String) (o : ObjectId) (bias : List α) :
    Composed (Workspace.attachBias label o bias)
  | bind {β γ : Type} {s : Step (Workspace α) β} {f : β → Step (Workspace α) γ}
    (first : Composed s) (rest : ∀ b, Composed (f b)) : Composed (s >>= f)

namespace Composed
variable {f : β → Step (Workspace α) γ}

theorem get_bind {f : Workspace α → Step (Workspace α) γ} (h : ∀ w, Composed (f w)) :
    Composed (MonadState.get >>= f) := .bind .get h

theorem lift_bind {o : Outcome β} (h : ∀ b, Composed (f b)) : Composed (liftM o >>= f) :=
  .bind (.lift o) h

theorem forIn {f : δ → γ → Step (Workspace α) (ForInStep γ)} (h : ∀ x c, Composed (f x c)) :
    ∀ (xs : List δ) (c : γ), Composed (forIn xs c f)
  | [], c => .pure c
  | x :: xs, c => by
    rw [List.forIn_cons]
    refine (h x c).bind fun r => ?_
    cases r with
    | done c => exact .pure c
    | yield c => exact forIn h xs c

variable {i : InvocationId} {label : String} {shape : List Nat} {size : Nat}
  {biases : Option (List α)}

theorem wireInput (post : View) (input : Nat) (trainable : Bool) (t : Transform α) :
    Composed (Workspace.wireInput i post input trainable t) :=
  .get_bind fun _ => .lift_bind fun pre => .connect pre post t (some trainable)

theorem scaleDown (factor : Option α) (n : Neuron α) : Composed (Workspace.scaleDown factor n) := by
  cases factor with
  | none => exact .pure n
  | some k =>
    unfold Workspace.scaleDown
    dsimp only
    split
    · exact .bind (.warn _) fun _ => .pure _
    · exact .pure _

theorem addEnsemble (factor : Option α) (n : Neuron α) :
    Composed (Workspace.addEnsemble label size factor n biases) := by
  refine .bind (.scaleDown factor n) fun neuron => .lift_bind fun _ => .bind (.object _ _) fun o => ?_
  cases biases with
  | none => exact .bind (.flag o _) fun _ => .pure o
  | some b => exact .pure o

theorem addNode (a : Activation) :
    Composed (Workspace.addNode i label shape size a : Step (Workspace α) ObjectId) := by
  unfold Workspace.addNode
  split
  · exact .object _ _
  · refine .get_bind fun w => ?_
    split
    · exact .bind (.warn _) fun _ => .object _ _
    · exact .lift_bind fun _ => .lift _

theorem addTarget (n : Nonlinearity α) :
    Composed (Workspace.addTarget i label shape size biases n) := by
  cases n with
  | neuron n => exact .get_bind fun _ => .addEnsemble _ n
  | activation a =>
    refine .bind (.addNode a) fun o => ?_
    cases biases with
    | none => exact .pure o
    | some b => exact .bind (.attachBias label o b) fun _ => .pure o

theorem buildTarget (biases : Option (List α)) (n : Option (Nonlinearity α)) :
    Composed (Workspace.buildTarget i biases n) :=
  .get_bind fun _ => .lift_bind fun _ => .lift_bind fun _ => .lift_bind fun _ => .lift_bind fun _ =>
    .bind (.addTarget _) fun _ => .pure _

end Composed
end Workspace

/-! ## Rules -/

namespace Rule

open Workspace

variable {i : InvocationId}

theorem composed_convertInput : Composed (convertInput i : Step (Workspace α) View) := by
  refine .get_bind fun w => .lift_bind fun layer => .lift_bind fun inv => ?_
  split
  · exact .lift_bind fun _ => .lift_bind fun _ => .lift_bind fun _ => .bind (.object _ _) fun _ =>
      .pure _
  · exact .lift _

theorem composed_convertNonlinearity (n : Nonlinearity α) : Composed (convertNonlinearity n i) :=
  .bind (.buildTarget _ _) fun _ => .bind (.wireInput _ _ _ _) fun _ => .pure _

theorem composed_convertBatchNorm (axes : List Int) (scale offset : List α) :
    Composed (convertBatchNorm axes scale offset i) :=
  .get_bind fun _ => .lift_bind fun _ => .lift_bind fun _ => .lift_bind fun _ => .lift_bind fun _ =>
    .lift_bind fun _ => .lift_bind fun _ => .bind (.buildTarget _ _) fun _ => .get_bind fun _ =>
    .lift_bind fun _ => .bind (.object _ _) fun _ => .bind (.connect _ _ _ _) fun _ =>
    .bind (.wireInput _ _ _ _) fun _ => .pure _

theorem composed_convertMerge (m : Merge) :
    Composed (convertMerge m i : Step (Workspace α) View) :=
  .get_bind fun _ => .lift_bind fun _ => .bind (.buildTarget _ _) fun _ =>
    .bind (.forIn (fun _ _ => .bind (.wireInput _ _ _ _) fun _ => .pure _) _ _) fun _ => .pure _

theorem composed_convertConcatenate (c : Concatenate) :
    Composed (convertConcatenate c i : Step (Workspace α) View) :=
  .get_bind fun _ => .lift_bind fun _ => .lift_bind fun _ => .bind (.buildTarget _ _) fun _ =>
    .get_bind fun _ => .lift_bind fun _ => .bind (.forIn (fun _ _ => .lift_bind fun _ =>
      .lift_bind fun _ => .lift_bind fun _ => .bind (.wireInput _ _ _ _) fun _ => .pure _) _ _)
        fun _ => .pure _

theorem composed_convertUpSampling (u : UpSampling) :
    Composed (convertUpSampling u i : Step (Workspace α) View) :=
  .get_bind fun _ => .lift_bind fun _ => .lift_bind fun _ => .bind (.buildTarget _ _) fun _ =>
    .get_bind fun _ => .lift_bind fun _ => .lift_bind fun _ => .bind (.connect _ _ _ _) fun _ =>
    .pure _

theorem composed_convertZeroPadding (z : ZeroPadding) :
    Composed (convertZeroPadding z i : Step (Workspace α) View) :=
  .get_bind fun _ => .lift_bind fun _ => .lift_bind fun _ => .bind (.buildTarget _ _) fun _ =>
    .lift_bind fun _ => .bind (.wireInput _ _ _ _) fun _ => .pure _

theorem composed_wireBiases (c : Conv α) (output : View) (bias : List α) :
    Composed (wireBiases c i output bias) :=
  .get_bind fun _ => .lift_bind fun _ => .lift_bind fun _ => .bind (.object _ _) fun _ =>
    .bind (.object _ _) fun _ => .bind (.connect _ _ _ _) fun _ => .lift_bind fun _ =>
    .bind (.connect _ _ _ _) fun _ => .pure _

theorem composed_convertConv (c : Conv α) : Composed (convertConv c i) := by
  have hwire : ∀ {output : View}, Composed (do
      let dims ← (← get).inputDims i
      let _ ← wireInput i output 0 true (.convolution (← convTransform c dims))
      return output) := .get_bind fun _ => .lift_bind fun _ => .lift_bind fun _ =>
    .bind (.wireInput _ _ _ _) fun _ => .pure _
  refine .bind (.buildTarget _ _) fun output => ?_
  cases c.bias with
  | none => exact hwire
  | some bias => exact .bind (composed_wireBiases c output bias) fun _ => hwire

theorem composed_convertPool (p : Pool) : Composed (convertPool p i : Step (Workspace α) View) :=
  .get_bind fun _ => .lift_bind fun _ => .lift_bind fun _ => .bind (.buildTarget _ _) fun _ =>
    .bind (.wireInput _ _ _ _) fun _ => .pure _

theorem composed_convertWrapped (p : Primitive α) : Composed (convertWrapped p i) :=
  .get_bind fun _ => .lift_bind fun _ => .lift_bind fun _ => .lift_bind fun _ => .lift_bind fun _ =>
    .lift_bind fun _ => .lift_bind fun _ => .lift_bind fun _ => .lift_bind fun _ =>
    .bind (.object _ _) fun _ => .lift_bind fun _ =>
    .bind (.forIn (fun _ _ => .bind (.wireInput _ _ _ _) fun _ => .pure _) _ _) fun _ => .pure _

/-- **Every conversion of an invocation** is made of these steps. -/
theorem Conversion.composed {wrapped : Bool} {p : Primitive α}
    {c : InvocationId → Step (Workspace α) View} (h : Conversion wrapped p c) : Composed (c i) := by
  cases h with
  | wrapped p => exact composed_convertWrapped p
  | input => exact composed_convertInput
  | dense => exact .bind (.buildTarget _ _) fun _ => .bind (.wireInput _ _ _ _) fun _ => .pure _
  | conv d => exact composed_convertConv d
  | pool p => exact composed_convertPool p
  | activation => exact composed_convertNonlinearity _
  | merge m => exact composed_convertMerge m
  | batchNorm => exact composed_convertBatchNorm _ _ _
  | concatenate c => exact composed_convertConcatenate c
  | flatten => exact .get_bind fun _ => .lift _
  | reshape => exact .get_bind fun _ => .lift _
  | relu => exact composed_convertNonlinearity _
  | leakyRelu => exact composed_convertNonlinearity _
  | upSampling u => exact composed_convertUpSampling u
  | zeroPadding z => exact composed_convertZeroPadding z

end Rule
end Neuroform

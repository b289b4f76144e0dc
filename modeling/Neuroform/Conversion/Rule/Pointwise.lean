/-
  Neuroform — conversion of inputs, nonlinearities and merges.
-/
import Neuroform.Conversion.Rule

namespace Neuroform.Rule

open Workspace

variable {α : Type} [Scalar α]

/-! ## Inputs -/

/-- Inputs of the model become constant nodes, which can be fed.  Inputs of a
    called model pass on what the call was given. -/
def convertInput (i : InvocationId) : Step (Workspace α) View := do
  let w ← get
  let layer ← w.graph.layer i.layer
  let invocation ← layer.invocation i.invocation
  if invocation.inputs.isEmpty then
    let size ← Word.product (← w.outputDims i)
    requireRoom valueBytes [size]
    let zeros := List.replicate size 0
    return .full (← onNetwork (Network.addObject (.node (.constant zeros)) layer.name))
  else w.inputView i 0

/-- The rule for input layers. -/
def input : RuleBuilder α := fun l layer =>
  match layer.kind with
  | .primitive (.input _) => .ok (simple l convertInput)
  | _ => ruleMismatch "InputLayer" layer

/-! ## Nonlinearities -/

/-- A nonlinearity becomes the target of its input. -/
def convertNonlinearity (n : Nonlinearity α) (i : InvocationId) : Step (Workspace α) View := do
  let output ← buildTarget i none (some n)
  let _ ← wireInput i output 0 false .identity
  return output

/-- The rule for activation layers. -/
def activation : RuleBuilder α := fun l layer =>
  match layer.kind with
  | .primitive (.activation op) =>
    .ok (simple l (convertNonlinearity (.activation op.activation)))
  | _ => ruleMismatch "Activation" layer

/-- The counterpart of a rectifier with a slope on its negative side. -/
def rectifier (slope : α) : Nonlinearity α :=
  if slope == 0 then .activation .relu else .neuron (.leaky slope 1)

/-- The rule for rectifiers, which may not clip or have a threshold. -/
def relu : RuleBuilder α := fun l layer =>
  match layer.kind with
  | .primitive (.relu op) =>
    .ok { simple l (convertNonlinearity (rectifier op.negativeSlope)) with
      fixedOptions := [⟨"max_value", .none⟩, ⟨"threshold", .float 0⟩] }
  | _ => ruleMismatch "ReLU" layer

/-- The rule for leaky rectifiers. -/
def leakyRelu : RuleBuilder α := fun l layer =>
  match layer.kind with
  | .primitive (.leakyRelu op) => .ok (simple l (convertNonlinearity (.neuron (.leaky op.alpha 1))))
  | _ => ruleMismatch "LeakyReLU" layer

/-! ## Merges -/

/-- The weight of each input of a merge of `count` ones. -/
def mergeWeight (m : Merge) (count : Nat) : α :=
  match m with
  | .add => 1
  | .average => 1 / (count : α)

/-- All inputs are added up in a passthrough node. -/
def convertMerge (m : Merge) (i : InvocationId) : Step (Workspace α) View := do
  let count := (← (← get).graph.invocation i).inputs.length
  let output ← buildTarget i none none
  for input in List.range count do
    let _ ← wireInput i output input false (.scalar (mergeWeight m count))
  return output

/-- The rule for merges. -/
def merge : RuleBuilder α := fun l layer =>
  match layer.kind with
  | .primitive (.merge op) => .ok (simple l (convertMerge op))
  | _ => ruleMismatch "Add or Average" layer

end Neuroform.Rule

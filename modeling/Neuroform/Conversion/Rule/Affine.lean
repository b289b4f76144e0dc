/-
  Neuroform — conversion of dense layers and normalizations.
-/
import Neuroform.Conversion.Rule

namespace Neuroform.Rule

open Workspace

variable {α : Type} [Scalar α]

/-! ## Dense layers -/

/-- Dense layers must be applied to samples of one axis. -/
def denseEligible (g : Graph α) (layer : Layer α) : Except ConversionCause Unit := do
  for invocation in layer.invocations do
    if let some t := invocation.inputs.head? then
      if let .ok tensor := g.tensor t then
        if tensor.shape.rank ≠ 2 then
          throw (.ineligible layer.name (.denseRank layer.name tensor.shape))

/-- The target holds the bias; the kernel is on the connection. -/
def convertDense (d : Dense α) (i : InvocationId) : Step (Workspace α) View := do
  let output ← buildTarget i d.bias (some (.activation d.activation))
  let _ ← wireInput i output 0 true (.dense d.kernel.transpose)
  return output

/-- The rule for dense layers. -/
def dense : RuleBuilder α := fun l layer =>
  match layer.kind with
  | .primitive (.dense op) =>
    .ok { simple l (convertDense op) with
      fixedInTraining := regularizers
      hasWeights := true
      eligible := fun g layer _ => denseEligible g layer }
  | _ => ruleMismatch "Dense" layer

/-! ## Normalizations -/

/-- The values of the places of one axis, at every position of a box. -/
def spread (values : List α) (dims : List Nat) (axis : Nat) : Outcome (List α) := do
  requireRoom valueBytes dims
  if volume dims = 0 ∨ dims.getD axis 0 ≤ values.length then
    .ok ((positions dims).map fun p => values.getD (p.getD axis 0) 0)
  else fault

/-- Only fixed normalizations over one axis have a counterpart. -/
def batchNormEligible (n : BatchNorm α) (layer : Layer α) (s : Settings α) :
    Except ConversionCause Unit :=
  if !s.inferenceOnly then .error (.ineligible layer.name .trainedNormalization)
  else if n.axis.length ≠ 1 then .error (.ineligible layer.name (.severalAxes n.axis))
  else .ok ()

/-- The input is scaled on its way to a passthrough node, and a constant node
    adds the offsets. -/
def convertBatchNorm (axes : List Int) (scale offset : List α) (i : InvocationId) :
    Step (Workspace α) View := do
  let dims ← (← get).inputDims i
  let axis ← axisIndex (← orFault axes.head?) (dims.length + 1)
  require (0 < axis) SessionCause.normalizedBatch
  let scale ← spread scale dims (axis - 1)
  let offset ← spread offset dims (axis - 1)
  let output ← buildTarget i none none
  let label ← (← get).label i
  let node ← onNetwork (Network.addObject (.node (.constant offset)) s!"{label}.bias")
  let _ ← connect (.full node) output .identity (some false)
  let _ ← wireInput i output 0 false (.diagonal scale)
  return output

/-- The rule for normalizations. -/
def batchNorm : RuleBuilder α := fun l layer =>
  match layer.kind with
  | .primitive (.batchNorm op) => do
    let (scale, offset) ← op.affine
    return { simple l (convertBatchNorm op.axis scale offset) with
      eligible := fun _ layer s => batchNormEligible op layer s }
  | _ => ruleMismatch "BatchNormalization" layer

end Neuroform.Rule

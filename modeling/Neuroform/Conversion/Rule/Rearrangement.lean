/-
  Neuroform — conversion of concatenations, flattening and reshaping.
-/
import Neuroform.Conversion.Rule

namespace Neuroform.Rule

open Workspace

variable {α : Type} [Scalar α]

/-! ## Concatenation -/

/-- The sample axis along which samples of some rank are joined. -/
def sampleAxis (c : Concatenate) (rank : Nat) : Outcome Nat := do
  let axis ← axisIndex c.axis (rank + 1)
  require (0 < axis) SessionCause.concatenatedBatch
  return axis - 1

/-- The batched rank of the first output of a layer. -/
def firstOutputRank? (g : Graph α) (layer : Layer α) : Option Nat := do
  let t ← (← layer.invocations[0]?).outputs.head?
  return (← (g.tensor t).toOption).shape.rank

/-- Whether an axis names the batch, as far as the rank is known. -/
def namesBatch (axis : Int) (rank : Option Nat) : Bool :=
  match rank with
  | some rank => (axisIndex axis rank).toOption == some 0
  | none => axis == 0

/-- Batches cannot be joined. -/
def concatenateEligible (c : Concatenate) (g : Graph α) (layer : Layer α) :
    Except ConversionCause Unit :=
  if namesBatch c.axis (firstOutputRank? g layer) then
    .error (.ineligible layer.name .batchConcatenation)
  else .ok ()

/-- The part of the output that an input fills, `start` being the total length
    of the inputs before it. -/
def slab (output : List Nat) (axis start length : Nat) : List Interval :=
  output.zipIdx.map fun (d, place) =>
    if place = axis then ⟨start, start + length⟩ else ⟨0, d⟩

/-- Every input fills its slab of a passthrough node. -/
def convertConcatenate (c : Concatenate) (i : InvocationId) : Step (Workspace α) View := do
  let dims ← (← get).outputDims i
  let axis ← sampleAxis c dims.length
  let output ← buildTarget i none none
  let mut start := 0
  for (shape, input) in (← (← get).allInputDims i).zipIdx do
    let length ← orFault shape[axis]?
    let places ← selectBox dims (slab dims axis start length)
    let _ ← wireInput i (← output.slice places) input false .identity
    start := start + length
  return output

/-- The rule for concatenations. -/
def concatenate : RuleBuilder α := fun l layer =>
  match layer.kind with
  | .primitive (.concatenate op) =>
    .ok { simple l (convertConcatenate op) with
      eligible := fun g layer _ => concatenateEligible op g layer }
  | _ => ruleMismatch "Concatenate" layer

/-! ## Other dimensions -/

/-- Objects are flat: what changes dimensions only is its own input. -/
def convertPassing (i : InvocationId) : Step (Workspace α) View := do (← get).inputView i 0

/-- The rule for flattening and reshaping. -/
def passing : RuleBuilder α := fun l layer =>
  match layer.kind with
  | .primitive .flatten | .primitive (.reshape _) => .ok (simple l convertPassing)
  | _ => ruleMismatch "Flatten or Reshape" layer

end Neuroform.Rule

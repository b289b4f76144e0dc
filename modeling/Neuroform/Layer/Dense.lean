/-
  Neuroform — dense layers and the options of trained layers.

  A dense layer is an affine map on the last axis followed by an activation.
-/
import Neuroform.Activation
import Neuroform.Layer.Operation

namespace Neuroform

/-- Names of regularizers and constraints.  They only matter while training. -/
structure Regularization where
  kernelRegularizer : Option String
  biasRegularizer : Option String
  activityRegularizer : Option String
  kernelConstraint : Option String
  biasConstraint : Option String
  deriving DecidableEq, Inhabited

/-- A regularizer or constraint as an option. -/
def Regularization.option {α : Type} (r : Regularization) : String → Option (OptionValue α)
  | "kernel_regularizer" => some (.str? r.kernelRegularizer)
  | "bias_regularizer" => some (.str? r.biasRegularizer)
  | "activity_regularizer" => some (.str? r.activityRegularizer)
  | "kernel_constraint" => some (.str? r.kernelConstraint)
  | "bias_constraint" => some (.str? r.biasConstraint)
  | _ => none

/-- An affine map on the last axis; the kernel has a row per feature and a
    column per unit. -/
structure Dense (α : Type) where
  kernel : Table α
  bias : Option (List α)
  activation : Activation
  regularization : Regularization

namespace Dense
variable {α : Type}

/-- The number of output features. -/
def units (d : Dense α) : Nat := d.kernel.columns

def option (d : Dense α) : String → Option (OptionValue α)
  | "units" => some (.size d.units)
  | "activation" => some (.str d.activation.name)
  | "use_bias" => some (.bool d.bias.isSome)
  | other => d.regularization.option other

/-- The last dimension becomes the number of units. -/
def outputShapes (d : Dense α) (inputs : List Shape) : Outcome (List Shape) := do
  let input ← onlyInput "Dense" inputs
  let last ← orRefuse input.dims.getLast? LayerCause.noFeatureAxis
  if let some features := last then
    require (features = d.kernel.rows) (LayerCause.features d.kernel.rows features)
  return [⟨input.dims.dropLast ++ [some d.units]⟩]

/-- The shape of the output for an input of shape `dims`. -/
def outputDims (d : Dense α) (dims : List Nat) : List Nat :=
  if dims.isEmpty then [] else dims.dropLast ++ [d.units]

/-- All rows of features are mapped by the kernel and moved by the bias. -/
def forward [Scalar α] (d : Dense α) (inputs : List (Grid α)) : Outcome (List (Grid α)) := do
  let x ← onlyInput "Dense" inputs
  let features := d.kernel.rows
  let rows ← Table.ofGrid (x.size / max features 1) features x
  requireRoom valueBytes [rows.rows, d.units]
  let mapped := (rows.mul d.kernel).toGrid
  let moved ← match d.bias with
    | none => .ok mapped
    | some bias => mapped.absorb (· + ·) (Grid.ofList bias)
  return [← d.activation.apply (← moved.reshape (d.outputDims x.shape))]

def parameterCount (d : Dense α) : Nat :=
  d.kernel.cells.size + (d.bias.map List.length).getD 0

/-- A dense layer as an operation. -/
def operation [Scalar α] (d : Dense α) : Operation α where
  typeName := "Dense"
  option := d.option
  outputShapes := d.outputShapes
  forward := d.forward
  parameterCount := d.parameterCount

end Dense
end Neuroform

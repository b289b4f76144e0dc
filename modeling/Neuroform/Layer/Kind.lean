/-
  Neuroform — kinds of layers.

  A layer is primitive, with an operation of its own, or a model: a part of the
  graph between given tensors, used as one layer.
-/
import Neuroform.Graph.Id
import Neuroform.Layer.Convolution
import Neuroform.Layer.Normalization
import Neuroform.Layer.Pointwise
import Neuroform.Layer.Pooling
import Neuroform.Layer.Rearrangement
import Neuroform.Layer.Resampling

namespace Neuroform

/-- A layer that is not a model. -/
inductive Primitive (α : Type) where
  | input (l : InputLayer)
  | dense (l : Dense α)
  | conv (l : Conv α)
  | pool (l : Pool)
  | activation (l : ActivationLayer)
  | merge (l : Merge)
  | batchNorm (l : BatchNorm α)
  | concatenate (l : Concatenate)
  | flatten
  | reshape (l : Reshape)
  | relu (l : Relu α)
  | leakyRelu (l : LeakyRelu α)
  | upSampling (l : UpSampling)
  | zeroPadding (l : ZeroPadding)
  /-- A layer that the caller defines. -/
  | custom (operation : Operation α)

/-- What a primitive layer does. -/
def Primitive.operation {α : Type} [Scalar α] : Primitive α → Operation α
  | input l => l.operation
  | dense l => l.operation
  | conv l => l.operation
  | pool l => l.operation
  | activation l => l.operation
  | merge l => l.operation
  | batchNorm l => l.operation
  | concatenate l => l.operation
  | flatten => Neuroform.flatten
  | reshape l => l.operation
  | relu l => l.operation
  | leakyRelu l => l.operation
  | upSampling l => l.operation
  | zeroPadding l => l.operation
  | custom operation => operation

/-- A model between input and output tensors.  `layers` are its own: those of
    its inputs first, then all others with producers before consumers. -/
structure ModelDef where
  inputs : List TensorId
  outputs : List TensorId
  layers : List LayerId
  sequential : Bool
  deriving DecidableEq, Inhabited

/-- The type of a model. -/
def ModelDef.typeName (m : ModelDef) : String :=
  if m.sequential then "Sequential" else "Functional"

/-- What a layer is. -/
inductive LayerKind (α : Type) where
  | primitive (p : Primitive α)
  | model (m : ModelDef)

namespace LayerKind
variable {α : Type}

/-- The operation of a primitive layer. -/
def operation? [Scalar α] : LayerKind α → Option (Operation α)
  | primitive p => some p.operation
  | model _ => none

/-- The definition of a model. -/
def model? : LayerKind α → Option ModelDef
  | primitive _ => none
  | model m => some m

def isModel (k : LayerKind α) : Bool := k.model?.isSome

/-- Whether a layer is the entry of a model. -/
def isInput : LayerKind α → Bool
  | primitive (.input _) => true
  | _ => false

/-- The type of a layer. -/
def typeName [Scalar α] : LayerKind α → String
  | primitive p => p.operation.typeName
  | model m => m.typeName

/-- An option of a layer; a model has none. -/
def option [Scalar α] (k : LayerKind α) (name : String) : Option (OptionValue α) :=
  k.operation?.bind (·.option name)

end LayerKind
end Neuroform

/-
  Neuroform — layers that act on every value alone, and the entry of a model.
-/
import Neuroform.Activation
import Neuroform.Layer.Operation

namespace Neuroform

/-! ## Input layers -/

/-- The entry of a model, with its batched shape.  It is applied to nothing, or
    to the tensor that a called model gets for it. -/
structure InputLayer where
  shape : Shape
  deriving DecidableEq

namespace InputLayer

def outputShapes (l : InputLayer) (inputs : List Shape) : Outcome (List Shape) := do
  require (inputs.length ≤ 1) LayerCause.inputArity
  if let some fed := inputs.head? then
    require (fed.rank = l.shape.rank) (LayerCause.inputRank l.shape fed)
  return [l.shape]

def forward {α : Type} (inputs : List (Grid α)) : Outcome (List (Grid α)) := do
  return [← orRefuse inputs.head? LayerCause.nothingFed]

/-- An input layer as an operation: what is fed passes through. -/
def operation {α : Type} (l : InputLayer) : Operation α where
  typeName := "InputLayer"
  option _ := none
  outputShapes := l.outputShapes
  forward := forward
  parameterCount := 0

end InputLayer

/-! ## Nonlinearities -/

/-- A nonlinearity as a layer of its own. -/
structure ActivationLayer where
  activation : Activation
  deriving DecidableEq

/-- An activation layer as an operation. -/
def ActivationLayer.operation {α : Type} [Scalar α] (l : ActivationLayer) : Operation α where
  typeName := "Activation"
  option
    | "activation" => some (.str l.activation.name)
    | _ => none
  outputShapes := sameShape "Activation"
  forward inputs := do return [← l.activation.apply (← onlyInput "Activation" inputs)]
  parameterCount := 0

/-- A rectifier: values below the threshold lie on a line of slope
    `negativeSlope` through it, and values from the maximum on are cut. -/
structure Relu (α : Type) where
  maxValue : Option α
  negativeSlope : α
  threshold : α

section
variable {α : Type} [Scalar α]

/-- The value of a rectifier below its maximum. -/
def Relu.evalBelow (l : Relu α) (x : α) : α :=
  if l.threshold ≤ x then x else l.negativeSlope * (x - l.threshold)

/-- The value of a rectifier. -/
def Relu.eval (l : Relu α) (x : α) : α :=
  match l.maxValue with
  | some top => if top ≤ x then top else l.evalBelow x
  | none => l.evalBelow x

/-- A rectifier as an operation. -/
def Relu.operation (l : Relu α) : Operation α where
  typeName := "ReLU"
  option
    | "max_value" => some (.float? l.maxValue)
    | "negative_slope" => some (.float l.negativeSlope)
    | "threshold" => some (.float l.threshold)
    | _ => none
  outputShapes := sameShape "ReLU"
  forward inputs := do return [(← onlyInput "ReLU" inputs).map l.eval]
  parameterCount := 0

end

/-- A rectifier whose negative side has slope `alpha`. -/
structure LeakyRelu (α : Type) where
  alpha : α

section
variable {α : Type} [Scalar α]

/-- The value of a leaky rectifier. -/
def LeakyRelu.eval (l : LeakyRelu α) (x : α) : α := if 0 < x then x else l.alpha * x

/-- A leaky rectifier as an operation. -/
def LeakyRelu.operation (l : LeakyRelu α) : Operation α where
  typeName := "LeakyReLU"
  option
    | "alpha" => some (.float l.alpha)
    | _ => none
  outputShapes := sameShape "LeakyReLU"
  forward inputs := do return [(← onlyInput "LeakyReLU" inputs).map l.eval]
  parameterCount := 0

end

/-! ## Merging -/

/-- How inputs of one shape are merged value by value. -/
inductive Merge where
  | add
  | average
  deriving DecidableEq

namespace Merge

/-- The type of a merge. -/
def typeName : Merge → String
  | add => "Add"
  | average => "Average"

/-- The samples of all inputs must have one shape. -/
def outputShapes (m : Merge) : List Shape → Outcome (List Shape)
  | first :: second :: rest => do
    for other in second :: rest do
      require (other.withoutBatch = first.withoutBatch)
        (LayerCause.mergedShapes m.typeName first other)
    return [first]
  | _ => refuse (LayerCause.tooFewInputs m.typeName)

/-- The sum of the inputs, divided by their number for an average. -/
def forward {α : Type} [Scalar α] (m : Merge) : List (Grid α) → Outcome (List (Grid α))
  | [] => refuse (LayerCause.noInputs m.typeName)
  | first :: rest => do
    let sum ← rest.foldlM (fun acc x => acc.absorb (· + ·) x) first
    match m with
    | add => return [sum]
    | average => return [sum.map (· / ((rest.length + 1 : Nat) : α))]

/-- A merge as an operation. -/
def operation {α : Type} [Scalar α] (m : Merge) : Operation α where
  typeName := m.typeName
  option _ := none
  outputShapes := m.outputShapes
  forward := m.forward
  parameterCount := 0

end Merge
end Neuroform

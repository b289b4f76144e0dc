/-
  Neuroform — what a network is made of: nodes, ensembles and tensor nodes.
-/
import Neuroform.Layer.Kind
import Neuroform.Network.Neuron

namespace Neuroform

/-! ## Nodes and ensembles -/

/-- A node relays its input, or has constant values that data may replace. -/
inductive Node (α : Type) where
  | passthrough (size : Nat)
  | constant (values : List α)

namespace Node
variable {α : Type}

def isPassthrough : Node α → Bool
  | passthrough _ => true
  | constant _ => false

/-- The number of values that a node takes. -/
def sizeIn : Node α → Nat
  | passthrough size => size
  | constant _ => 0

/-- The number of values that a node gives. -/
def sizeOut : Node α → Nat
  | passthrough size => size
  | constant values => values.length

end Node

/-- A population of neurons, each driven by its input times a gain plus a
    bias. -/
structure Ensemble (α : Type) where
  size : Nat
  neuron : Neuron α
  gain : List α
  bias : List α

/-- A population without bias and with a gain of one. -/
def Ensemble.plain {α : Type} [Zero α] [One α] (size : Nat) (neuron : Neuron α) :
    Outcome (Ensemble α) := do
  requireRoom valueBytes [size]
  return ⟨size, neuron, List.replicate size 1, List.replicate size 0⟩

section
variable {α : Type} [Scalar α]

/-- The rates of a population, in rows.  Gain and bias stretch to the input. -/
def Ensemble.rates (e : Ensemble α) (input : Table α) : Outcome (Grid α) := do
  let driven ← input.toGrid.combine (· * ·) (Grid.ofList e.gain)
  let current ← driven.combine (· + ·) (Grid.ofList e.bias)
  return current.map e.neuron.rate

end

/-! ## Tensor nodes -/

/-- A layer as it was when it was wrapped, with the sample shapes of its
    inputs. -/
structure WrappedLayer (α : Type) where
  name : String
  layer : Primitive α
  trainable : Bool
  inputShapes : List (List Nat)

/-- The columns of a batched array that start at `start`: `length` places of
    the second axis, which has to have them. -/
def Grid.columns {α : Type} [Zero α] (g : Grid α) (start length : Nat) : Outcome (Grid α) :=
  match g.shape with
  | batch :: d :: rest =>
    if start + length ≤ d then
      .ok (ofFn (batch :: length :: rest) fun p => g.value (p.set 1 (p.getD 1 0 + start)))
    else fault
  | _ => fault

namespace WrappedLayer
variable {α : Type}

/-- Cuts the columns of a batched array into arrays of the given sample shapes,
    from the place `start` on. -/
def cut [Zero α] (input : Grid α) (batch : Nat) : Nat → List (List Nat) →
    Outcome (List (Grid α))
  | _, [] => .ok []
  | start, shape :: shapes => do
    let part ← (← input.columns start (volume shape)).reshape (batch :: shape)
    return part :: (← cut input batch (start + volume shape) shapes)

/-- The inputs of a wrapped layer.  Several of them arrive side by side on one
    axis. -/
def split [Zero α] (w : WrappedLayer α) (input : Grid α) : Outcome (List (Grid α)) :=
  match w.inputShapes with
  | [_] => .ok [input]
  | shapes => do cut input (← orFault input.shape.head?) 0 shapes

variable [Scalar α]

/-- The first output of a wrapped layer. -/
def eval (w : WrappedLayer α) (input : Grid α) : Outcome (Grid α) := do
  let inputs ← w.split input
  let outputs ← (w.layer.operation.forward inputs).within (.evaluatingWrapped w.name)
  orRefuse outputs.head? (SessionCause.wrappedNoOutput w.name)

def parameterCount (w : WrappedLayer α) : Nat :=
  if w.trainable then w.layer.operation.parameterCount else 0

end WrappedLayer

/-- A computation on batched arrays inside of a network. -/
inductive TensorFunction (α : Type) where
  | activation (a : Activation)
  | layer (w : WrappedLayer α)

namespace TensorFunction
variable {α : Type} [Scalar α]

/-- The name of the activation or the layer. -/
def name : TensorFunction α → String
  | activation a => a.name
  | layer w => w.name

def eval : TensorFunction α → Grid α → Outcome (Grid α)
  | activation a => a.apply
  | layer w => w.eval

def parameterCount : TensorFunction α → Nat
  | activation _ => 0
  | layer w => w.parameterCount

end TensorFunction

/-- A function of samples of shape `shapeIn` with `sizeOut` values. -/
structure TensorNode (α : Type) where
  shapeIn : List Nat
  sizeOut : Nat
  function : TensorFunction α

/-! ## Objects -/

/-- What an object is. -/
inductive ObjectKind (α : Type) where
  | node (n : Node α)
  | neurons (e : Ensemble α)
  | tensorNode (t : TensorNode α)

namespace ObjectKind
variable {α : Type}

/-- The name of a kind of objects. -/
def typeName : ObjectKind α → String
  | node _ => "Node"
  | neurons _ => "Neurons"
  | tensorNode _ => "TensorNode"

/-- The number of values that an object takes. -/
def sizeIn : ObjectKind α → Outcome Nat
  | node n => .ok n.sizeIn
  | neurons e => .ok e.size
  | tensorNode t => Word.product t.shapeIn

/-- The number of values that an object gives. -/
def sizeOut : ObjectKind α → Nat
  | node n => n.sizeOut
  | neurons e => e.size
  | tensorNode t => t.sizeOut

def isNeurons : ObjectKind α → Bool
  | neurons _ => true
  | _ => false

/-- Whether an object has constant values, which data may replace. -/
def isConstant : ObjectKind α → Bool
  | node (.constant _) => true
  | _ => false

/-- The number of parameters of an object, if it is trained. -/
def parameterCount [Scalar α] : ObjectKind α → Nat
  | node _ => 0
  | neurons e => e.size
  | tensorNode t => t.function.parameterCount

end ObjectKind

/-- A part of a network; without a flag it is as trainable as the network. -/
structure Object (α : Type) where
  label : String
  kind : ObjectKind α
  trainable : Option Bool

/-- The text of an object: its kind and label. -/
def Object.text {α : Type} (o : Object α) : String := s!"<{o.kind.typeName} \"{o.label}\">"

end Neuroform

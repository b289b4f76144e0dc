/-
  Neuroform — graphs of layers and tensors.

  A graph is an arena: layers and tensors are named by their place and never
  removed.  Applying a layer records an invocation of it and makes its output
  tensors, each of which remembers the invocation that it comes from.  An
  output of a called model stands for a tensor inside of the call.
-/
import Neuroform.Layer.Kind

namespace Neuroform

/-- A tensor, with its batched shape. -/
structure Tensor where
  shape : Shape
  provenance : Option Provenance
  /-- For an output of a called model: the tensor inside of the call. -/
  standsFor : Option TensorId
  deriving DecidableEq, Inhabited

/-- One application of a layer. -/
structure Invocation where
  inputs : List TensorId
  outputs : List TensorId
  deriving DecidableEq, Inhabited

/-- A layer and its applications. -/
structure Layer (α : Type) where
  name : String
  kind : LayerKind α
  trainable : Bool
  invocations : Array Invocation

namespace Layer
variable {α : Type}

/-- The text of a layer: its name and type. -/
def text [Scalar α] (l : Layer α) : String := s!"{l.name} ({l.kind.typeName})"

/-- An application of a layer. -/
def invocation (l : Layer α) (i : Nat) : Outcome Invocation :=
  orRefuse l.invocations[i]? (GraphCause.noInvocation l.name i)

/-- The trainable parameters of a primitive layer. -/
def parameterCount [Scalar α] (l : Layer α) : Nat :=
  (l.kind.operation?.map (·.parameterCount)).getD 0

end Layer

/-- An arena of layers and tensors. -/
structure Graph (α : Type) where
  layers : Array (Layer α)
  tensors : Array Tensor

namespace Graph
variable {α : Type}

/-- The graph without layers. -/
def empty : Graph α := ⟨#[], #[]⟩

instance : Inhabited (Graph α) := ⟨empty⟩

/-! ## Reading -/

def layer (g : Graph α) (l : LayerId) : Outcome (Layer α) :=
  orRefuse g.layers[l.index]? (GraphCause.noLayer l)

def tensor (g : Graph α) (t : TensorId) : Outcome Tensor :=
  orRefuse g.tensors[t.index]? (GraphCause.noTensor t)

/-- The first layer of a name. -/
def layerNamed (g : Graph α) (name : String) : Outcome LayerId :=
  orRefuse ((g.layers.findIdx? (·.name = name)).map LayerId.mk) (GraphCause.noLayerNamed name)

/-- An application of a layer of the graph. -/
def invocation (g : Graph α) (i : InvocationId) : Outcome Invocation := do
  (← g.layer i.layer).invocation i.invocation

/-- The invocation output that a tensor is. -/
def producer (g : Graph α) (t : TensorId) : Outcome Provenance := do
  orRefuse (← g.tensor t).provenance (GraphCause.noProducer t)

/-- The definition of a layer that is a model. -/
def modelDef [Scalar α] (g : Graph α) (model : LayerId) : Outcome ModelDef := do
  let layer ← g.layer model
  orRefuse layer.kind.model? (GraphCause.notModel layer.text)

/-- Changes a layer of the graph. -/
def modifyLayer (g : Graph α) (l : LayerId) (f : Layer α → Layer α) : Graph α :=
  { g with layers := g.layers.modify l.index f }

end Graph

/-! ## Growing -/

namespace Graph
variable {α : Type}

/-- Adds a layer that has not been applied yet. -/
def addLayer (name : String) (kind : LayerKind α) : Step (Graph α) LayerId := do
  let g ← get
  set { g with layers := g.layers.push ⟨name, kind, true, #[]⟩ }
  return ⟨g.layers.size⟩

/-- Adds a tensor. -/
def addTensor (tensor : Tensor) : Step (Graph α) TensorId := do
  let g ← get
  set { g with tensors := g.tensors.push tensor }
  return ⟨g.tensors.size⟩

/-- Adds a tensor that no layer produces. -/
def addDetached (shape : Shape) : Step (Graph α) TensorId := addTensor ⟨shape, none, none⟩

/-- Records an application of a layer. -/
def addInvocation (l : LayerId) (i : Invocation) : Step (Graph α) Unit :=
  modify (·.modifyLayer l fun layer => { layer with invocations := layer.invocations.push i })

/-- Makes a layer trainable or fixes it. -/
def setTrainable (l : LayerId) (trainable : Bool) : Step (Graph α) Unit := do
  let _ ← (← get).layer l
  modify (·.modifyLayer l ({ · with trainable }))

end Graph
end Neuroform

/-
  Neuroform — building graphs.

  Applying a primitive layer infers the shapes of its outputs.  Applying a
  model replays its internal invocations on other tensors: its layers get new
  invocations, and the model gets one whose outputs stand for the replayed
  ones.  A step that fails keeps what it has added before.
-/
import Neuroform.Graph.Order

namespace Neuroform.Graph

variable {α : Type} [Scalar α]

/-! ## Applying layers -/

/-- Records a new invocation of a primitive layer. -/
def applyPrimitive (l : LayerId) (inputs : List TensorId) : Step (Graph α) (List TensorId) := do
  let g ← get
  let shapes ← inputs.mapM fun t => do return (← g.tensor t).shape
  let layer ← g.layer l
  let operation ← orRefuse layer.kind.operation? (GraphCause.notPrimitive layer.text)
  let shapes ← (operation.outputShapes shapes).within (.applying layer.text)
  let outputs ← shapes.zipIdx.mapM fun (shape, i) =>
    addTensor ⟨shape, some ⟨l, layer.invocations.size, i⟩, none⟩
  addInvocation l ⟨inputs, outputs⟩
  return outputs

/-- What the tensors inside of a called model become. -/
abbrev Replay := List (TensorId × TensorId)

section
variable (apply : LayerId → List TensorId → Step (Graph α) (List TensorId))

/-- Replays the producer of a model input on the tensor that a call gives for
    it. -/
def replayInput (replay : Replay) (fed : TensorId × TensorId) : Step (Graph α) Replay := do
  let source ← orRefuse (← (← get).tensor fed.1).provenance
    (GraphCause.inputWithoutProducer fed.1)
  let replayed ← orFault (← apply source.layer [fed.2]).head?
  return (fed.1, replayed) :: replay

/-- Replays an internal invocation of a model on what its inputs have
    become. -/
def replayInvocation (replay : Replay) (i : InvocationId) : Step (Graph α) Replay := do
  let invocation ← (← get).invocation i
  let fed ← invocation.inputs.mapM fun t => orRefuse (replay.lookup t) (GraphCause.notReplayed t)
  let replayed ← apply i.layer fed
  return (invocation.outputs.zip replayed).reverse ++ replay

/-- Adds a tensor that is an output of a call and stands for what the model's
    output has become. -/
def addStandIn (replay : Replay) (source : InvocationId) (output : TensorId × Nat) :
    Step (Graph α) TensorId := do
  let replayed ← orRefuse (replay.lookup output.1) (GraphCause.outputNotReplayed output.1)
  let shape := (← (← get).tensor replayed).shape
  addTensor ⟨shape, some ⟨source.layer, source.invocation, output.2⟩, some replayed⟩

/-- Replays a model on other tensors, `apply` being used on its layers. -/
def callWith (model : LayerId) (inputs : List TensorId) : Step (Graph α) (List TensorId) := do
  let g ← get
  let m ← g.modelDef model
  require (m.inputs.length = inputs.length)
    (GraphCause.modelArity (← g.layer model).text m.inputs.length inputs.length)
  let replay ← (m.inputs.zip inputs).foldlM (replayInput apply) []
  let replay ← (← (← get).internalOrder m).foldlM (replayInvocation apply) replay
  let invocation := (← (← get).layer model).invocations.size
  let outputs ← m.outputs.zipIdx.mapM (addStandIn replay ⟨model, invocation⟩)
  addInvocation model ⟨inputs, outputs⟩
  return outputs

end

/-- Applies a layer, models being nested at most `depth` deep. -/
def applyWithin : Nat → LayerId → List TensorId → Step (Graph α) (List TensorId)
  | 0, _, _ => (fault : Outcome _)
  | depth + 1, l, inputs => do
    if (← (← get).layer l).kind.isModel then callWith (applyWithin depth) l inputs
    else applyPrimitive l inputs

/-- Applies a layer to tensors and gives its outputs. -/
def apply (l : LayerId) (inputs : List TensorId) : Step (Graph α) (List TensorId) := do
  applyWithin ((← get).layers.size + 1) l inputs

/-- Applies a model to tensors and gives its outputs. -/
def call (model : LayerId) (inputs : List TensorId) : Step (Graph α) (List TensorId) := do
  callWith (applyWithin ((← get).layers.size + 1)) model inputs

/-- Adds a layer with one output and applies it. -/
def wire (name : String) (kind : LayerKind α) (inputs : List TensorId) :
    Step (Graph α) TensorId := do
  let l ← addLayer name kind
  match ← apply l inputs with
  | [output] => return output
  | outputs => refuse (GraphCause.outputCount (← (← get).layer l).text outputs.length)

/-! ## Inputs and models -/

/-- Declares a model input with a batched shape. -/
def addInputShape (name : String) (shape : Shape) : Step (Graph α) TensorId := do
  let l ← addLayer name (.primitive (.input ⟨shape⟩))
  orFault (← apply l []).head?

/-- Declares a model input with the given sample dimensions. -/
def addInput (name : String) (dims : List Nat) : Step (Graph α) TensorId :=
  addInputShape name (.batched dims)

/-- The producer of a tensor that is to be an input of a model: an input
    layer. -/
def inputLayer (g : Graph α) (model : String) (t : TensorId) : Outcome LayerId := do
  let source ← orRefuse (← g.tensor t).provenance (GraphCause.inputWithoutProducer t)
  let layer ← g.layer source.layer
  if layer.kind.isInput then return source.layer
  else refuse (GraphCause.inputNotFromInputLayer model t layer.text)

/-- Adds the layers of invocations that are not in a list yet. -/
def addLayersOf (layers : List LayerId) (order : List InvocationId) : List LayerId :=
  order.foldl (fun layers i => if i.layer ∈ layers then layers else layers ++ [i.layer]) layers

/-- Adds a model between input tensors, which come from input layers, and
    output tensors. -/
def addModel (name : String) (inputs outputs : List TensorId) : Step (Graph α) LayerId := do
  let g ← get
  let entries ← (inputs.mapM (g.inputLayer name) : Outcome (List LayerId))
  let order ← g.internalOrder ⟨inputs, outputs, [], false⟩
  let model ← addLayer name (.model ⟨inputs, outputs, addLayersOf entries order, false⟩)
  addInvocation model ⟨inputs, outputs⟩
  return model

/-- Marks a model as a stack of layers. -/
def markSequential (k : LayerKind α) : LayerKind α :=
  match k with
  | .model m => .model { m with sequential := true }
  | .primitive _ => k

/-- Adds a stack of layers behind an input of its own, and the model of it. -/
def addSequential (name : String) (dims : List Nat) (layers : List (String × LayerKind α)) :
    Step (Graph α) LayerId := do
  let input ← addInput s!"{name}_input" dims
  let output ← layers.foldlM (fun x (layerName, kind) => wire layerName kind [x]) input
  let model ← addModel name [input] [output]
  modify (·.modifyLayer model fun layer => { layer with kind := markSequential layer.kind })
  return model

end Neuroform.Graph

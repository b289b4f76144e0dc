/-
  Neuroform — things that run a model on batched arrays.

  A runner predicts, may be trained, and counts its parameters, each as a step
  on some state.  A graph and a network are runners that leave the state alone
  and cannot be trained.
-/
import Neuroform.Conversion.Session
import Neuroform.Graph.Evaluate
import Neuroform.Network.Simulate

namespace Neuroform

/-- Something that runs a model. -/
structure Runner (σ α : Type) where
  predict : List (Grid α) → Step σ (List (Grid α))
  /-- Trains on inputs and targets for a number of epochs. -/
  fit : List (Grid α) → List (Grid α) → Nat → Step σ Unit
  parameterCount : Step σ Nat

/-- The training of a runner that has none. -/
def cannotTrain {σ α : Type} (_ _ : List (Grid α)) (_ : Nat) : Step σ Unit :=
  refuse RunnerCause.cannotTrain

variable {α : Type} [Scalar α]

/-- Runs a model of a graph. -/
def Graph.runner {σ : Type} (g : Graph α) (model : LayerId) : Runner σ α where
  predict inputs := g.predict model inputs
  fit := cannotTrain
  parameterCount := g.trainableParameterCount model

/-! ## Networks -/

namespace Network

/-- Adds data for an object, one row per sample; later data of an object
    counts. -/
def addFed (batch : Nat) (fed : States α) (input : ObjectId × Grid α) : Outcome (States α) := do
  let (o, x) := input
  require (x.shape.head? = some batch) RunnerCause.batchSizes
  let rows ← Table.ofGrid batch (x.size / max batch 1) x
  return fed.filter (·.1 ≠ o) ++ [(o, rows)]

/-- The outputs of some probes; the output of a probe is taken only once. -/
def takeOutputs : List (ProbeId × Table α) → List ProbeId → Outcome (List (Grid α))
  | _, [] => .ok []
  | outputs, p :: ps => do
    let y ← orRefuse (outputs.lookup p) (RunnerCause.noProbeOutput p)
    return y.toGrid :: (← takeOutputs (outputs.filter (·.1 ≠ p)) ps)

/-- Feeds arrays to objects and reads probes; the batch is that of the first
    array. -/
def run (n : Network α) (order : List ObjectId) (inputs : List ObjectId) (probes : List ProbeId)
    (arrays : List (Grid α)) : Outcome (List (Grid α)) := do
  require (arrays.length = inputs.length) (RunnerCause.inputCount inputs.length arrays.length)
  let batch := (arrays.head?.bind (·.shape.head?)).getD 1
  let fed ← (inputs.zip arrays).foldlM (addFed batch) []
  let outputs ← n.simulate order fed batch
  takeOutputs (outputs.zipIdx.map fun (y, i) => (⟨i⟩, y)) probes

/-- Runs a network that feeds on some objects and is read at some probes; it
    must not be recurrent. -/
def runner {σ : Type} (n : Network α) (inputs : List ObjectId) (probes : List ProbeId) :
    Outcome (Runner σ α) := do
  let order ← n.order
  return {
    predict := fun arrays => n.run order inputs probes arrays
    fit := cannotTrain
    parameterCount := n.trainableParameterCount }

end Network

/-- Runs the network of a session, fed and read in the order of its model. -/
def Session.runner {σ : Type} (s : Session α) : Outcome (Runner σ α) := do
  let g := s.workspace.graph
  let m ← g.modelDef s.model
  let inputs ← m.inputs.mapM fun t => do return (← s.inputs.get g (.tensor t)).object
  let probes ← m.outputs.mapM fun t => s.outputs.get g (.tensor t)
  s.network.runner inputs probes

end Neuroform

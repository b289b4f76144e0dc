/-
  Neuroform — the network under construction.

  A workspace holds the graph that is converted, the network built so far and
  the views that stand for the outputs of converted invocations.  Conversion
  rules use three operations of it: `buildTarget` makes the object for an
  output, `wireInput` connects an input of an invocation to it, and `connect`
  joins any two views.
-/
import Neuroform.Conversion.Settings
import Neuroform.Graph.Provenance
import Neuroform.Network.Basic

namespace Neuroform

/-- The state of a conversion as far as rules see it. -/
structure Workspace (α : Type) where
  graph : Graph α
  settings : Settings α
  network : Network α
  /-- The views of the outputs of converted invocations. -/
  views : List (InvocationId × List View)
  warnings : List String

namespace Workspace
variable {α : Type} [Scalar α]

/-- Runs a step on the network. -/
def onNetwork {β : Type} (s : Step (Network α) β) : Step (Workspace α) β :=
  s.on (·.network) fun w network => { w with network }

/-- Notes a warning. -/
def warn (text : String) : Step (Workspace α) Unit :=
  modify fun w => { w with warnings := w.warnings ++ [text] }

/-! ## What is there -/

/-- Whether an invocation has been converted. -/
def isConverted (w : Workspace α) (i : InvocationId) : Bool := (w.views.lookup i).isSome

/-- The view with the value of a tensor, whose invocation must have been
    converted. -/
def tensorView (w : Workspace α) (t : TensorId) : Outcome View := do
  let source ← w.graph.resolveProvenance t
  orRefuse ((w.views.lookup source.source).bind (·[source.output]?))
    (SessionCause.notConverted t source.layer source.invocation)

/-- The view that feeds an input of an invocation. -/
def inputView (w : Workspace α) (i : InvocationId) (input : Nat) : Outcome View := do
  let layer ← w.graph.layer i.layer
  let invocation ← layer.invocation i.invocation
  let t ← orRefuse invocation.inputs[input]?
    (SessionCause.noInput layer.text i.invocation input)
  w.tensorView t

/-- The sample dimensions of the only input of an invocation. -/
def inputDims (w : Workspace α) (i : InvocationId) : Outcome (List Nat) := do
  (← w.graph.invocationShape i .input false).resolved

/-- The sample dimensions of all inputs of an invocation. -/
def allInputDims (w : Workspace α) (i : InvocationId) : Outcome (List (List Nat)) := do
  (← w.graph.invocationShapes i .input false).mapM Shape.resolved

/-- The sample dimensions of the only output of an invocation. -/
def outputDims (w : Workspace α) (i : InvocationId) : Outcome (List Nat) := do
  (← w.graph.invocationShape i .output false).resolved

/-- The synapse of what leaves a view: only neurons have one. -/
def synapseOf (w : Workspace α) (v : View) : Outcome (Option (Synapse α)) := do
  return if (← w.network.object v.object).kind.isNeurons then w.settings.synapse else none

/-- The label of the objects of an invocation. -/
def label (w : Workspace α) (i : InvocationId) : Outcome String := do
  return s!"{(← w.graph.layer i.layer).name}.{i.invocation}"

/-! ## Building -/

/-- Connects two views; only what leaves neurons is filtered. -/
def connect (pre post : View) (transform : Transform α) (trainable : Option Bool) :
    Step (Workspace α) ConnectionId := do
  let synapse ← (← get).synapseOf pre
  let c ← onNetwork (Network.connect pre post transform synapse)
  onNetwork (Network.setTrainable (.connection c) trainable)
  return c

/-- Connects an input of an invocation to a view. -/
def wireInput (i : InvocationId) (post : View) (input : Nat) (trainable : Bool)
    (transform : Transform α) : Step (Workspace α) ConnectionId := do
  let pre ← (← get).inputView i input
  connect pre post transform (some trainable)

/-- Adds a constant node that feeds biases to an object. -/
def attachBias (label : String) (o : ObjectId) (bias : List α) : Step (Workspace α) Unit := do
  let node ← onNetwork (Network.addObject (.node (.constant [1])) s!"{label}.bias")
  let _ ← onNetwork
    (Network.connect (.full node) (.full o) (.dense (Table.ofColumn bias)) none)

/-- A neuron type whose output is scaled down by a factor, if it can be. -/
def scaleDown (factor : Option α) (n : Neuron α) : Step (Workspace α) (Neuron α) := do
  let some k := factor | return n
  if n.amplitude?.isNone then
    warn ("Firing rate scaling being applied to activation type that does not support amplitude " ++
      s!"({n.name}); this will change the output")
  return n.mapAmplitude (· / k)

/-- Adds an ensemble that holds biases itself.  Its gain and biases are scaled
    up by the factor that its output is scaled down by; without biases it is
    not trained. -/
def addEnsemble (label : String) (size : Nat) (factor : Option α) (n : Neuron α)
    (biases : Option (List α)) : Step (Workspace α) ObjectId := do
  let scaled := biases.map fun b => factor.elim b fun k => b.map (· * k)
  let neuron ← scaleDown factor n
  requireRoom valueBytes [size]
  let gain := List.replicate size (factor.getD 1)
  let bias := scaled.getD (List.replicate size 0)
  let o ← onNetwork (Network.addObject (.neurons ⟨size, neuron, gain, bias⟩) label)
  if biases.isNone then onNetwork (Network.setTrainable (.object o) (some false))
  return o

/-- Adds a tensor node for an activation without counterpart, if that is
    allowed. -/
def addActivation (i : InvocationId) (label : String) (shape : List Nat) (size : Nat)
    (a : Activation) : Step (Workspace α) ObjectId := do
  let w ← get
  if w.settings.allowFallback then
    warn (s!"Activation type {a.name} does not have a native equivalent; " ++
      "falling back to a tensor node")
    let node : TensorNode α := ⟨shape, size, .activation a⟩
    onNetwork (Network.addObject (.tensorNode node) label)
  else
    refuse (ConversionCause.unsupportedActivation (← w.graph.layer i.layer).name a.name)

/-- Checks that there is a bias for each of `size` values of an invocation. -/
def checkBiases (w : Workspace α) (i : InvocationId) (size : Nat) :
    Option (List α) → Outcome Unit
  | none => .ok ()
  | some b => do
    let layer ← w.graph.layer i.layer
    require (b.length = size) (SessionCause.biasCount layer.text b.length size)

/-- Adds an object for an activation: a passthrough node if it is linear. -/
def addNode (i : InvocationId) (label : String) (shape : List Nat) (size : Nat)
    (a : Activation) : Step (Workspace α) ObjectId :=
  if a = .linear then onNetwork (Network.addObject (.node (.passthrough size)) label)
  else addActivation i label shape size a

/-- Adds an object for a nonlinearity, with biases that it holds itself or gets
    from a constant node. -/
def addTarget (i : InvocationId) (label : String) (shape : List Nat) (size : Nat)
    (biases : Option (List α)) : Nonlinearity α → Step (Workspace α) ObjectId
  | .neuron n => do addEnsemble label size ((← get).settings.scale.ofLayer? i.layer) n biases
  | .activation a => do
    let o ← addNode i label shape size a
    biases.forM (attachBias label o)
    return o

/-- Adds the object for the only output of an invocation: a passthrough node
    for what is linear, an ensemble for what has a neuron type, a tensor node
    for all other activations.  Nodes get biases from a constant node. -/
def buildTarget (i : InvocationId) (biases : Option (List α))
    (nonlinearity : Option (Nonlinearity α)) : Step (Workspace α) View := do
  let w ← get
  let label ← w.label i
  let shape ← w.outputDims i
  let size ← Word.product shape
  w.checkBiases i size biases
  let target := w.settings.target (nonlinearity.getD (.activation .linear))
  return .full (← addTarget i label shape size biases target)

end Workspace
end Neuroform

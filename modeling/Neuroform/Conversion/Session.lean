/-
  Neuroform — converting a model to a network.

  A session walks through a model from its outputs backwards and converts every
  primitive invocation on the way, producers first.  The converter of a layer
  is bound on first use.  In the end the inputs of the model are looked up and
  its outputs are probed.
-/
import Neuroform.Conversion.Registry

namespace Neuroform

/-- The state of a conversion, and its result. -/
structure Session (α : Type) where
  model : LayerId
  registry : Registry α
  workspace : Workspace α
  /-- The converters bound to layers so far. -/
  converters : List (LayerId × Converter α)
  /-- The nodes that receive the inputs of the model. -/
  inputs : TensorTable View
  /-- The probes of the outputs of the model. -/
  outputs : TensorTable ProbeId
  /-- The views of all outputs of converted invocations. -/
  layers : TensorTable View

namespace Session
variable {α : Type} [Scalar α]

/-- Runs a step on the workspace. -/
def onWorkspace {β : Type} (s : Step (Workspace α) β) : Step (Session α) β :=
  s.on (·.workspace) fun session workspace => { session with workspace }

/-- Runs a step on the network. -/
def onNetwork {β : Type} (s : Step (Network α) β) : Step (Session α) β :=
  onWorkspace (Workspace.onNetwork s)

/-- The network built so far. -/
def network (s : Session α) : Network α := s.workspace.network

/-! ## Converters -/

/-- The converter that a registry has for a layer, or why it has none. -/
def native (s : Session α) (l : LayerId) (layer : Layer α) :
    Outcome (Except String (Converter α)) := do
  let some builder := s.registry.lookup layer.kind.typeName
    | return .error s!"Layer type {layer.kind.typeName} does not have a registered converter"
  let converter ← builder l layer
  match converter.convertible s.workspace.graph layer s.workspace.settings with
  | .ok () => return .ok converter
  | .error cause => return .error cause.text

/-- The fallback, if there is one and it is allowed. -/
def fallback? (s : Session α) : Option (ConverterBuilder α) :=
  if s.workspace.settings.allowFallback then s.registry.fallback else none

/-- Chooses a converter for a layer: the registered one if it accepts the
    layer, else the fallback. -/
def chooseConverter (l : LayerId) (layer : Layer α) : Step (Session α) (Converter α) := do
  let s ← get
  match ← s.native l layer with
  | .ok converter => return converter
  | .error reason =>
    match s.fallback? with
    | some builder =>
      onWorkspace (Workspace.warn s!"{reason}. Falling back to tensor node.")
      builder l layer
    | none => refuse (ConversionCause.unconvertibleLayer layer.name reason)

/-- Binds a converter to a layer. -/
def bindConverter (l : LayerId) (layer : Layer α) : Step (Session α) (Converter α) := do
  let converter ← chooseConverter l layer
  modify fun s => { s with converters := (l, converter) :: s.converters }
  return converter

/-- The converter of a layer, bound on first use.  One with weights may be used
    again only if weights are split. -/
def getConverter (l : LayerId) : Step (Session α) (Converter α) := do
  let s ← get
  let layer ← s.workspace.graph.layer l
  match s.converters.lookup l with
  | some converter =>
    if converter.hasWeights ∧ !s.workspace.settings.splitSharedWeights then
      refuse (ConversionCause.duplicateLayerApplication layer.name)
    else return converter
  | none => bindConverter l layer

/-! ## Invocations -/

/-- Converts an invocation by running its converter, unless that has been done. -/
def convertWith (run : Converter α → Nat → Step (Session α) (Option View)) (i : InvocationId) :
    Step (Session α) (List View) := do
  let s ← get
  match s.workspace.views.lookup i with
  | some views => return views
  | none =>
    let converter ← getConverter i.layer
    let layer ← s.workspace.graph.layer i.layer
    let result ← (run converter i.invocation).within (.converting layer.name i.invocation)
    let view ← orRefuse result (SessionCause.builtNothing i.layer)
    onWorkspace (modify fun w => { w with views := (i, [view]) :: w.views })
    return [view]

/-- Runs a rule.  The walk through a model is none, and only a model has one. -/
def runRule (c : Converter α) (invocation : Nat) : Step (Session α) (Option View) := do
  match c with
  | .rule r => onWorkspace (r.convert invocation)
  | .model l =>
    let _ ← (← get).workspace.graph.modelDef l
    (fault : Outcome _)

/-- Converts all primitive invocations that the outputs and inputs of a model
    depend on, producers first. -/
def convertModel (l : LayerId) (invocation : Nat) : Step (Session α) (Option View) := do
  let g := (← get).workspace.graph
  let layer ← g.layer l
  let m ← g.modelDef l
  require (invocation = 0) (SessionCause.calledModel layer.text)
  for p in ← g.trace (m.outputs ++ m.inputs) do
    if !(← get).workspace.isConverted p.source then
      let _ ← convertWith runRule p.source
  return none

/-- Runs a converter. -/
def run (c : Converter α) (invocation : Nat) : Step (Session α) (Option View) :=
  match c with
  | .rule _ => runRule c invocation
  | .model l => convertModel l invocation

/-- The views of the outputs of an invocation, which is converted on first
    use. -/
def convertInvocation (i : InvocationId) : Step (Session α) (List View) := convertWith run i

/-! ## Whole models -/

/-- The session before anything is converted. -/
def start (g : Graph α) (model : LayerId) (settings : Settings α) (registry : Registry α) :
    Outcome (Session α) := do
  settings.validate
  let root ← g.layer model
  let _ ← g.modelDef model
  let network := Network.empty root.name settings.inferenceOnly
  let workspace : Workspace α := ⟨g, settings, network, [], registry.warnings⟩
  return ⟨model, registry, workspace, [], [], [], []⟩

/-- Looks up the view of an input of the model. -/
def bindInput (t : TensorId) : Step (Session α) Unit := do
  let view ← (← get).workspace.tensorView t
  modify fun s => { s with inputs := s.inputs.insert t view }

/-- Probes the view of an output of the model. -/
def bindOutput (t : TensorId) : Step (Session α) Unit := do
  let s ← get
  let view ← s.workspace.tensorView t
  let probe ← onNetwork (Network.addProbe view (← s.workspace.synapseOf view))
  modify fun s => { s with outputs := s.outputs.insert t probe }

/-- Notes the views of the outputs of all converted invocations. -/
def bindLayers : Step (Session α) Unit := do
  let w := (← get).workspace
  for (i, views) in w.views do
    let invocation ← w.graph.invocation i
    for (t, view) in invocation.outputs.zip views do
      modify fun s => { s with layers := s.layers.insert t view }

/-- Converts the model of a session. -/
def convertAll : Step (Session α) Unit := do
  let s ← get
  let m ← s.workspace.graph.modelDef s.model
  let _ ← run (← getConverter s.model) 0
  if m.sequential then
    onWorkspace (Workspace.warn "Converting sequential model to functional model")
  m.inputs.forM bindInput
  m.outputs.forM bindOutput
  bindLayers

/-- Converts a model of a graph to a network. -/
def convert (g : Graph α) (model : LayerId) (settings : Settings α) (registry : Registry α) :
    Outcome (Session α) := do
  let (result, s) := convertAll.run (← start g model settings registry)
  result
  return s

end Session
end Neuroform

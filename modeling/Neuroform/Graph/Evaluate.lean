/-
  Neuroform — evaluation of a model on batched arrays, and its parameters.

  The invocations of a model are evaluated in their internal order.  The value
  of an output of a called model is that of the tensor it stands for, found
  inside of the call on demand.
-/
import Neuroform.Graph.Order

namespace Neuroform

/-- Values of tensors; the latest entry of a tensor counts. -/
abbrev Valuation (α : Type) := List (TensorId × Grid α)

/-- Adds the values of the outputs of an invocation. -/
def Valuation.assign {α : Type} (values : Valuation α) (outputs : List TensorId)
    (results : List (Grid α)) : Valuation α :=
  (outputs.zip results).reverse ++ values

namespace Graph
variable {α : Type} [Scalar α]

/-! ## Evaluation -/

/-- The outputs of an invocation of a primitive layer. -/
def forward (g : Graph α) (l : LayerId) (invocation : Invocation) (values : Valuation α) :
    Outcome (List (Grid α)) := do
  let layer ← g.layer l
  let operation ← orRefuse layer.kind.operation? (GraphCause.notPrimitive layer.text)
  let inputs ← invocation.inputs.mapM fun t => orRefuse (values.lookup t) (GraphCause.noValue t)
  let results ← (operation.forward inputs).within (.evaluating layer.text)
  require (results.length = invocation.outputs.length)
    (GraphCause.producedCount layer.text results.length invocation.outputs.length)
  return results

/-- Finds the value of a tensor inside of a called model, evaluating what it
    depends on: the valuation with its value, and the value. -/
def resolve (g : Graph α) : Nat → Valuation α → TensorId → Outcome (Valuation α × Grid α)
  | 0, _, _ => fault
  | depth + 1, values, t =>
    match values.lookup t with
    | some v => .ok (values, v)
    | none => do
      let source ← g.producer t
      let layer ← g.layer source.layer
      if layer.kind.isModel then
        let inner ← orRefuse (← g.tensor t).standsFor (GraphCause.noInternalTensor t)
        let (values, v) ← g.resolve depth values inner
        return ((t, v) :: values, v)
      else
        let invocation ← layer.invocation source.invocation
        let values ← invocation.inputs.foldlM (fun values u => (·.1) <$> g.resolve depth values u)
          values
        let results ← g.forward source.layer invocation values
        let values := values.assign invocation.outputs results
        return (values, ← orRefuse (values.lookup t) (GraphCause.notProduced t))

/-- Adds the value of an output of a call to the values of those before it. -/
def evaluateOutput (g : Graph α) (found : Valuation α × List (Grid α)) (t : TensorId) :
    Outcome (Valuation α × List (Grid α)) := do
  let inner ← orRefuse (← g.tensor t).standsFor (GraphCause.noInternalTensor t)
  let (values, v) ← g.resolve (g.tensors.size + 1) found.1 inner
  return (values, found.2 ++ [v])

/-- Evaluates one invocation of a model. -/
def evaluate (g : Graph α) (values : Valuation α) (i : InvocationId) :
    Outcome (Valuation α) := do
  let layer ← g.layer i.layer
  let invocation ← layer.invocation i.invocation
  if layer.kind.isModel then
    let (values, results) ← invocation.outputs.foldlM g.evaluateOutput (values, [])
    return values.assign invocation.outputs results
  else
    return values.assign invocation.outputs (← g.forward i.layer invocation values)

/-- The values fed to the inputs of a model, which have to match their
    shapes. -/
def feed (g : Graph α) (values : Valuation α) (fed : TensorId × Grid α) :
    Outcome (Valuation α) := do
  let shape := (← g.tensor fed.1).shape
  require (shape.matchesDims fed.2.shape) (GraphCause.fedShape fed.1 shape fed.2.shape)
  return fed :: values

/-- Evaluates a model on one batched array per input. -/
def predict (g : Graph α) (model : LayerId) (inputs : List (Grid α)) :
    Outcome (List (Grid α)) := do
  let m ← g.modelDef model
  require (m.inputs.length = inputs.length)
    (GraphCause.modelArity (← g.layer model).text m.inputs.length inputs.length)
  let fed ← (m.inputs.zip inputs).foldlM g.feed []
  let values ← (← g.internalOrder m).foldlM g.evaluate fed
  m.outputs.mapM fun t => orRefuse (values.lookup t) (GraphCause.outputNotComputed t)

/-! ## Parameters -/

/-- Adds the parameters of trainable layers that were not seen before; models
    are nested at most `depth` deep. -/
def countUnique (g : Graph α) :
    Nat → List LayerId × Nat → List LayerId → Outcome (List LayerId × Nat)
  | 0, _, _ => fault
  | depth + 1, counted, layers =>
    layers.foldlM (fun (seen, count) l => do
      if l ∈ seen then return (seen, count)
      let seen := l :: seen
      let layer ← g.layer l
      if layer.trainable then
        match layer.kind.model? with
        | some m => g.countUnique depth (seen, count) m.layers
        | none => return (seen, count + layer.parameterCount)
      else return (seen, count)) counted

/-- The number of trainable parameters of a model, each layer counted once. -/
def trainableParameterCount (g : Graph α) (model : LayerId) : Outcome Nat := do
  let m ← g.modelDef model
  Word.ofNat (← g.countUnique (g.layers.size + 1) ([], 0) m.layers).2

end Graph
end Neuroform

/-
  Neuroform — wrapping a layer as it is in a tensor node.
-/
import Neuroform.Conversion.Rule

namespace Neuroform.Rule

open Workspace

variable {α : Type} [Scalar α]

/-- The shape that a tensor node takes samples in: that of the only input, or
    all values of several inputs on one axis. -/
def packedShape (inputShapes : List (List Nat)) : Outcome (List Nat) := do
  let sizes ← inputShapes.mapM Word.product
  match inputShapes with
  | [shape] => return shape
  | _ => return [← Word.sum sizes]

/-- The views of a tensor node that take its inputs: the whole node for an only
    input, otherwise consecutive parts from the place `start` on. -/
def inputParts (output : View) (inputShapes : List (List Nat)) : Outcome (List View) :=
  match inputShapes with
  | [_] => .ok [output]
  | shapes => parts 0 shapes
where
  parts (start : Nat) : List (List Nat) → Outcome (List View)
    | [] => .ok []
    | shape :: rest => do
      requireRoom placeBytes [volume shape]
      let part ← output.slice (List.range' start (volume shape))
      return part :: (← parts (start + volume shape) rest)

/-- The layer is evaluated in a tensor node on all of its inputs. -/
def convertWrapped (p : Primitive α) (i : InvocationId) : Step (Workspace α) View := do
  let w ← get
  let layer ← w.graph.layer i.layer
  let outputs := (← layer.invocation i.invocation).outputs.length
  require (outputs = 1) (SessionCause.wrappedOutputs layer.text outputs)
  let inputShapes ← w.allInputDims i
  let outputDims ← w.outputDims i
  let shapeIn ← packedShape inputShapes
  let size ← Word.product outputDims
  let function : TensorFunction α := .layer ⟨layer.name, p, layer.trainable, inputShapes⟩
  let node : TensorNode α := ⟨shapeIn, size, function⟩
  let output := View.full (← onNetwork (Network.addObject (.tensorNode node) (← w.label i)))
  for (part, input) in (← inputParts output inputShapes).zipIdx do
    let _ ← wireInput i part input false .identity
  return output

/-- The rule for layers that are wrapped; a model cannot be. -/
def wrapping : RuleBuilder α := fun l layer =>
  match layer.kind with
  | .primitive p => .ok (simple l (convertWrapped p))
  | .model _ => refuse (SessionCause.wrappedModel layer.text)

end Neuroform.Rule

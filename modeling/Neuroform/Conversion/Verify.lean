/-
  Neuroform — comparing a network with the model it was made from.

  Two lists of arrays are close if they have equally many values and every
  difference is within a tolerance, an absolute one plus one relative to the
  second value.  What differs from itself is close to nothing.
-/
import Neuroform.Conversion.Runner

namespace Neuroform

/-! ## Closeness -/

/-- How two lists of arrays differ. -/
inductive Mismatch (α : Type) where
  | outputCount (source target : Nat)
  | valueCount (output source target : Nat)
  /-- The largest difference of an output that is not within the tolerance. -/
  | values (output : Nat) (largest : α)

/-- The refusal for a mismatch. -/
def Mismatch.cause {α : Type} [Printed α] : Mismatch α → Cause
  | outputCount source target => .runner (.outputCount source target)
  | valueCount output source target => .runner (.valueCount output source target)
  | values output largest => .conversion (.verificationMismatch output (Printed.brief largest))

/-- The tolerance of a comparison. -/
structure Tolerance (α : Type) where
  absolute : α
  relative : α

section
variable {α : Type} [Scalar α]

/-- Whether a value is close to another. -/
def Tolerance.close (t : Tolerance α) (x y : α) : Bool :=
  decide (magnitude (x - y) ≤ t.absolute + t.relative * magnitude y)

/-- The differences that are not within the tolerance. -/
def Tolerance.failing (t : Tolerance α) (expected actual : List α) : List α :=
  ((expected.zip actual).filter fun (x, y) => !t.close x y).map fun (x, y) => magnitude (x - y)

/-- The largest of some differences; one that differs from itself counts as
    larger than all others. -/
def largestDifference (differences : List α) : α :=
  differences.foldl (fun largest d =>
    if isNaN largest then largest else if isNaN d then d else larger largest d) 0

/-- Compares the values of one output. -/
def Tolerance.compareValues (t : Tolerance α) (output : Nat) (expected actual : List α) :
    Except (Mismatch α) Unit :=
  if expected.length ≠ actual.length then
    .error (.valueCount output expected.length actual.length)
  else
    match t.failing expected actual with
    | [] => .ok ()
    | differences => .error (.values output (largestDifference differences))

/-- Compares all outputs, in order. -/
def Tolerance.compare (t : Tolerance α) (expected actual : List (Grid α)) :
    Except (Mismatch α) Unit :=
  if expected.length ≠ actual.length then
    .error (.outputCount expected.length actual.length)
  else
    (expected.zip actual).zipIdx.forM fun ((e, a), output) =>
      t.compareValues output e.toList a.toList

end

/-! ## Verification -/

/-- How a network is compared with its model. -/
structure VerifyOptions (α : Type) where
  /-- Both sides are trained before they are compared. -/
  training : Bool
  /-- The inputs; without them, ones in batches of `batchSize`. -/
  inputs : Option (List (Grid α))
  tolerance : Tolerance α
  epochs : Nat
  batchSize : Nat

section
variable {α : Type} [Scalar α]

/-- A comparison on ones, without training. -/
def VerifyOptions.standard : VerifyOptions α := ⟨false, none, ⟨1e-8, 1e-5⟩, 3, 2⟩

/-- Batches of ones in the shapes of tensors. -/
def Graph.ones (g : Graph α) (batch : Nat) (ts : List TensorId) : Outcome (List (Grid α)) :=
  ts.mapM fun t => do
    let dims ← (← g.tensor t).shape.withoutBatch.resolved
    requireRoom valueBytes (batch :: dims)
    return Grid.fill (batch :: dims) 1

/-- The inputs of a comparison and their batch size. -/
def VerifyOptions.batch (o : VerifyOptions α) (g : Graph α) (m : ModelDef) :
    Outcome (List (Grid α) × Nat) := do
  match o.inputs with
  | some inputs =>
    require (inputs.all (0 < ·.rank)) RunnerCause.noBatchAxis
    return (inputs, (inputs.head?.bind (·.shape.head?)).getD o.batchSize)
  | none => return (← g.ones o.batchSize m.inputs, o.batchSize)

/-- Trains both sides, which must have equally many parameters. -/
def trainBoth {σ : Type} (source target : Runner σ α) (inputs targets : List (Grid α))
    (epochs : Nat) : Step σ Unit := do
  let network ← target.parameterCount
  let model ← source.parameterCount
  require (network = model) (ConversionCause.parameterCountMismatch network model)
  (source.fit inputs targets epochs).within .trainingSource
  (target.fit inputs targets epochs).within .trainingTarget

/-- Compares two runners on the inputs of a model. -/
def Graph.verify {σ : Type} (g : Graph α) (model : LayerId) (source target : Runner σ α)
    (o : VerifyOptions α) : Step σ Unit := do
  let m ← g.modelDef model
  let (inputs, batch) ← o.batch g m
  if o.training then
    trainBoth source target inputs (← g.ones batch m.outputs) o.epochs
  let expected ← source.predict inputs
  let actual ← target.predict inputs
  (o.tolerance.compare expected actual).mapError fun m => Failure.refused [] m.cause

/-- Compares the network of a session with its model. -/
def Session.verify (s : Session α) (o : VerifyOptions α) : Outcome Unit := do
  let target : Runner Unit α ← s.runner
  (s.workspace.graph.verify s.model (s.workspace.graph.runner s.model) target o).result

end
end Neuroform

/-
  Neuroform — where tensors come from, and the shapes around an invocation.

  `resolveProvenance` looks through called models to the primitive invocation
  behind a tensor; `trace` lists all primitive invocations behind some tensors,
  producers first; a layer that was applied once stands for its only output
  tensor.
-/
import Neuroform.Graph.Basic

namespace Neuroform

namespace Graph
variable {α : Type} [Scalar α]

/-! ## Primitive provenance -/

/-- Follows what `current` stands for, at most `depth` times; `t` is where the
    search began. -/
def followInner (g : Graph α) (t : TensorId) : Nat → TensorId → Outcome Provenance
  | 0, current => refuse (SessionCause.provenanceLoop t current)
  | depth + 1, current => do
    let tensor ← g.tensor current
    let unresolved := ConversionCause.unresolvedProvenance current
    let source ← orRefuse tensor.provenance unresolved
    if (← g.layer source.layer).kind.isModel then
      g.followInner t depth (← orRefuse tensor.standsFor unresolved)
    else return source

/-- The primitive invocation output that a tensor is, seen through called
    models. -/
def resolveProvenance (g : Graph α) (t : TensorId) : Outcome Provenance :=
  g.followInner t (g.tensors.size + 1) t

/-- The provenances of tensors, resolved from the last one on. -/
def resolveAll (g : Graph α) (ts : List TensorId) : Outcome (List Provenance) := do
  return (← ts.reverse.mapM g.resolveProvenance).reverse

/-- Lists an invocation behind those that it depends on, unless it is listed
    already. -/
def traceFrom (g : Graph α) : Nat → List Provenance → Provenance → Outcome (List Provenance)
  | 0, _, _ => fault
  | depth + 1, order, p =>
    if order.any (·.source = p.source) then .ok order else do
      let producers ← g.resolveAll (← g.invocation p.source).inputs
      let order ← producers.foldlM (g.traceFrom depth) order
      return order ++ [p]

/-- The primitive invocations that tensors depend on, producers first. -/
def trace (g : Graph α) (ts : List TensorId) : Outcome (List Provenance) := do
  (← g.resolveAll ts).foldlM (g.traceFrom (g.tensors.size + 1)) []

/-! ## Shapes around an invocation -/

/-- The shapes of all inputs or outputs of an invocation. -/
def invocationShapes (g : Graph α) (i : InvocationId) (side : Side) (batch : Bool) :
    Outcome (List Shape) := do
  let invocation ← g.invocation i
  let tensors := match side with
    | .input => invocation.inputs
    | .output => invocation.outputs
  tensors.mapM fun t => do
    let shape := (← g.tensor t).shape
    return if batch then shape else shape.withoutBatch

/-- The shape of the only input or output of an invocation. -/
def invocationShape (g : Graph α) (i : InvocationId) (side : Side) (batch : Bool) :
    Outcome Shape := do
  match ← g.invocationShapes i side batch with
  | [shape] => return shape
  | shapes =>
    refuse (SessionCause.tensorCount (← g.layer i.layer).text i.invocation shapes.length side)

end Graph

/-- The dimensions of the shape of a sample, all of which must be known. -/
def Shape.resolved (s : Shape) : Outcome (List Nat) :=
  orRefuse s.concrete? (ConversionCause.shapeUnderspecified s)

/-! ## Layers as keys -/

/-- A tensor, or a layer in the place of its only output. -/
inductive TensorKey where
  | tensor (t : TensorId)
  | layer (l : LayerId)
  deriving DecidableEq

/-- The tensor that a key names in a graph. -/
def TensorKey.resolve {α : Type} [Scalar α] (g : Graph α) : TensorKey → Outcome TensorId
  | tensor t => .ok t
  | layer l => do
    let layer ← g.layer l
    match layer.invocations.toList.map (·.outputs) with
    | [] => refuse (SessionCause.notApplied layer.text)
    | [[t]] => return t
    | _ => refuse (ConversionCause.ambiguousKey layer.name)

/-- Values of tensors; the latest entry of a tensor counts. -/
abbrev TensorTable (β : Type) := List (TensorId × β)

namespace TensorTable
variable {β : Type}

/-- Sets the value of a tensor. -/
def insert (table : TensorTable β) (t : TensorId) (value : β) : TensorTable β :=
  (t, value) :: table.filter (·.1 ≠ t)

/-- The value that a key names. -/
def get {α : Type} [Scalar α] (table : TensorTable β) (g : Graph α) (key : TensorKey) :
    Outcome β := do
  let t ← key.resolve g
  orRefuse (table.lookup t) (SessionCause.noEntry t)

/-- Whether a key names a tensor with a value. -/
def contains {α : Type} [Scalar α] (table : TensorTable β) (g : Graph α) (key : TensorKey) :
    Bool :=
  (table.get g key).isOk

end TensorTable
end Neuroform

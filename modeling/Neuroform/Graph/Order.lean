/-
  Neuroform — the order of the invocations of a model.

  The invocations between the inputs and the outputs of a model are listed in
  depth-first post-order, so that each one comes after the producers of its
  inputs.  A tensor is made after everything that it depends on, so the depth
  of the search is bounded by the number of tensors.
-/
import Neuroform.Graph.Basic

namespace Neuroform.Graph

variable {α : Type} [Scalar α]

/-- Lists the invocation that a tensor comes from behind those that it depends
    on, unless the tensor is one to stop at or the invocation is listed
    already. -/
def visit (g : Graph α) (stop : List TensorId) :
    Nat → List InvocationId → TensorId → Outcome (List InvocationId)
  | 0, _, _ => fault
  | depth + 1, order, t =>
    if t ∈ stop then .ok order else do
      let source := (← g.producer t).source
      if source ∈ order then return order
      let invocation ← g.invocation source
      if invocation.inputs.isEmpty then
        refuse (GraphCause.disconnected (← g.layer source.layer).text)
      else
        let order ← invocation.inputs.foldlM (g.visit stop depth) order
        return order ++ [source]

/-- The invocations between the inputs and the outputs of a model, producers
    first. -/
def internalOrder (g : Graph α) (m : ModelDef) : Outcome (List InvocationId) :=
  m.outputs.foldlM (g.visit m.inputs (g.tensors.size + 1)) []

end Neuroform.Graph

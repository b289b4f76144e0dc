/-
  Neuroform — the steady state of a network.

  Objects are evaluated once, after everything that they read from, on all
  samples of a batch.  Synapses pass constant values on and spiking neurons
  fire at their rates, so this is what a long simulation settles on.
-/
import Neuroform.Network.Order

namespace Neuroform

/-- Values of objects: a row per sample. -/
abbrev States (α : Type) := List (ObjectId × Table α)

section
variable {α : Type}

/-- The columns that a view shows. -/
def View.select [Zero α] (v : View) (value : Table α) : Outcome (Table α) :=
  match v.indices with
  | none => .ok value
  | some indices => value.selectColumns indices

/-- Adds each column of `y` to the column of `input` that the view has at its
    place. -/
def scatter [Zero α] [Add α] (indices : List Nat) (y input : Table α) : Table α :=
  Table.ofFn input.rows input.columns fun i j =>
    indices.zipIdx.foldl (fun acc (target, column) =>
      if target = j then acc + y.value i column else acc) (input.value i j)

/-- Adds values to the positions of a view.  Values that do not fit are a
    fault. -/
def View.accumulate [Zero α] [Add α] (v : View) (y input : Table α) : Outcome (Table α) := do
  match v.indices with
  | none => Table.ofGrid input.rows input.columns (← input.toGrid.absorb (· + ·) y.toGrid)
  | some indices =>
    if indices.length ≤ y.columns then return scatter indices y input else fault

namespace Network
variable [Scalar α]

/-- Adds what a connection carries to the input of an object. -/
def receive (states : States α) (o : ObjectId) (input : Table α)
    (c : ConnectionId × Connection α) : Outcome (Table α) := do
  let (id, c) := c
  let pre ← orRefuse (states.lookup c.pre.object) (NetworkCause.evaluatedBefore o c.pre.text)
  let x ← c.pre.select pre
  let y ← (c.transform.apply x).within (.applyingConnection id)
  c.post.accumulate y input

/-- The input of an object: what all connections into it carry, added up in
    their order. -/
def inputOf (n : Network α) (states : States α) (batch : Nat) (o : ObjectId) (size : Nat) :
    Outcome (Table α) :=
  (n.connectionsInto o).foldlM (receive states o) (Table.zeros batch size)

/-- A grid of two axes as a table. -/
def tableOf (g : Grid α) : Outcome (Table α) := do
  match g.shape with
  | [rows, columns] => Table.ofGrid rows columns g
  | _ => refuse Cause.arrangement

/-- What an object makes of its input; `fed` is data in the place of its
    constant values. -/
def react (o : Object α) (fed : Option (Table α)) (batch : Nat) (input : Table α) :
    Outcome (Table α) := do
  match o.kind with
  | .node (.passthrough _) => return input
  | .node (.constant values) =>
    return fed.getD (Table.ofFn batch values.length fun _ j => values.getD j 0)
  | .neurons e => tableOf (← e.rates input)
  | .tensorNode t =>
    let x ← input.toGrid.reshape (batch :: t.shapeIn)
    let y ← (t.function.eval x).within (.evaluating o.text)
    let expected ← Word.ofNat (batch * t.sizeOut)
    require (y.size = expected) (NetworkCause.producedValues o.text y.size t.sizeOut)
    Table.ofGrid batch t.sizeOut y

/-- Evaluates one more object. -/
def evaluate (n : Network α) (fed : States α) (batch : Nat) (states : States α)
    (o : ObjectId) : Outcome (States α) := do
  let object ← n.object o
  let input ← n.inputOf states batch o (← object.kind.sizeIn)
  return (o, ← react object (fed.lookup o) batch input) :: states

/-- Data is fed to constant nodes, one row per sample. -/
def checkFed (n : Network α) (batch : Nat) (fed : ObjectId × Table α) : Outcome Unit := do
  let object ← n.object fed.1
  require object.kind.isConstant (NetworkCause.notConstant object.text)
  let size := object.kind.sizeOut
  require (fed.2.rows = batch ∧ fed.2.columns = size)
    (NetworkCause.fedData object.text fed.2.rows fed.2.columns batch size)

/-- Checks that memory can hold the inputs of all objects and the values of all
    constant nodes. -/
def requireSpace (n : Network α) (batch : Nat) : Outcome Unit :=
  n.objects.toList.forM fun o => do
    requireRoom valueBytes [batch, ← o.kind.sizeIn]
    if o.kind.isConstant then requireRoom valueBytes [batch, o.kind.sizeOut]

/-- Evaluates the objects in a given order. -/
def settle (n : Network α) (order : List ObjectId) (fed : States α) (batch : Nat) :
    Outcome (States α) :=
  order.foldlM (n.evaluate fed batch) []

/-- Checks the data, evaluates the objects in a given order and reads all
    probes. -/
def simulate (n : Network α) (order : List ObjectId) (fed : States α) (batch : Nat) :
    Outcome (List (Table α)) := do
  fed.forM (n.checkFed batch)
  n.requireSpace batch
  let states ← n.settle order fed batch
  n.probes.toList.mapM fun p => do
    p.target.select (← orRefuse (states.lookup p.target.object) NetworkCause.probedNotEvaluated)

/-- The values of all probes for `batch` samples. -/
def predict (n : Network α) (fed : States α) (batch : Nat) : Outcome (List (Table α)) := do
  n.simulate (← n.order) fed batch

end Network
end
end Neuroform

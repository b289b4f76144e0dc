/-
  Neuroform — layers that only move values: joining, flattening and reshaping.
-/
import Neuroform.Layer.Operation

namespace Neuroform

/-! ## Concatenation -/

/-- Inputs joined along an axis, counted on the batched shape, negative ones
    from the end. -/
structure Concatenate where
  axis : Int
  deriving DecidableEq

namespace Concatenate

/-- The dimensions after one more input is joined along `axis`: lengths add up
    there, elsewhere an unknown length is taken from the input. -/
def joinDims (axis : Nat) (dims other : List (Option Nat)) : Outcome (List (Option Nat)) :=
  (dims.zip other).zipIdx.mapM fun ((d, e), place) =>
    if place = axis then
      match d, e with
      | some a, some b => some <$> Word.ofNat (a + b)
      | _, _ => .ok none
    else .ok (d <|> e)

def outputShapes (c : Concatenate) : List Shape → Outcome (List Shape)
  | first :: second :: rest => do
    let axis ← axisIndex c.axis first.rank
    let dims ← (second :: rest).foldlM (fun (dims : List (Option Nat)) (other : Shape) => do
      require (other.rank = first.rank) LayerCause.concatenatedRanks
      joinDims axis dims other.dims) first.dims
    return [⟨dims⟩]
  | _ => refuse (LayerCause.tooFewInputs "Concatenate")

def forward {α : Type} [Zero α] (c : Concatenate) (inputs : List (Grid α)) :
    Outcome (List (Grid α)) := do
  let first ← orRefuse inputs.head? (LayerCause.noInputs "Concatenate")
  let axis ← axisIndex c.axis first.rank
  return [← Grid.concatenate axis inputs]

/-- A concatenation as an operation. -/
def operation {α : Type} [Zero α] (c : Concatenate) : Operation α where
  typeName := "Concatenate"
  option
    | "axis" => some (.int c.axis)
    | _ => none
  outputShapes := c.outputShapes
  forward := c.forward
  parameterCount := 0

end Concatenate

/-! ## Flattening -/

/-- The batch dimension of a shape, which has to exist. -/
def Shape.batch (s : Shape) : Outcome (Option Nat) := orFault s.dims.head?

/-- The number of samples of a batched array and the number of values in each. -/
def Grid.batchVolume {α : Type} (g : Grid α) : Outcome (Nat × Nat) := do
  let batch ← orFault g.shape.head?
  return (batch, g.size / max batch 1)

/-- Samples become rows of values. -/
def flatten {α : Type} : Operation α where
  typeName := "Flatten"
  option _ := none
  outputShapes inputs := do
    let input ← onlyInput "Flatten" inputs
    return [⟨[← input.batch, ← input.withoutBatch.volume?]⟩]
  forward inputs := do
    let x ← onlyInput "Flatten" inputs
    let (batch, volume) ← x.batchVolume
    return [← x.reshape [batch, volume]]
  parameterCount := 0

/-! ## Reshaping -/

/-- Other dimensions for the same values; one of them may be `-1`, which is
    then the missing factor. -/
structure Reshape where
  targetShape : List Int
  deriving DecidableEq

namespace Reshape

/-- The product of the given dimensions. -/
def known (r : Reshape) : Outcome Int := Word.signedProduct (r.targetShape.filter (· ≠ -1))

/-- The dimensions for samples of `volume` values.  A negative entry stands for
    the word with its bits. -/
def resolve (r : Reshape) (volume : Nat) : Outcome (List Nat) := do
  let known ← r.known
  let impossible := LayerCause.reshape volume r.targetShape
  require (r.targetShape.count (-1) ≤ 1) (LayerCause.severalWildcards r.targetShape)
  require (0 < known ∧ volume % known.toNat = 0) impossible
  let fill := volume / known.toNat
  let dims := r.targetShape.map fun d => if d = -1 then fill else Word.unsigned d
  require ((← Word.product dims) = volume) impossible
  return dims

/-- The dimensions for samples of unknown volume. -/
def unresolved (r : Reshape) : List (Option Nat) :=
  r.targetShape.map fun d => if d < 0 then none else some d.toNat

def outputShapes (r : Reshape) (inputs : List Shape) : Outcome (List Shape) := do
  let input ← onlyInput "Reshape" inputs
  let batch ← input.batch
  match ← input.withoutBatch.volume? with
  | some volume => return [(Shape.concrete (← r.resolve volume)).withBatch batch]
  | none => return [(Shape.mk r.unresolved).withBatch batch]

def forward {α : Type} (r : Reshape) (inputs : List (Grid α)) : Outcome (List (Grid α)) := do
  let x ← onlyInput "Reshape" inputs
  let (batch, volume) ← x.batchVolume
  return [← x.reshape (batch :: (← r.resolve volume))]

/-- A reshaping as an operation. -/
def operation {α : Type} (r : Reshape) : Operation α where
  typeName := "Reshape"
  option
    | "target_shape" => some (.ints r.targetShape)
    | _ => none
  outputShapes := r.outputShapes
  forward := r.forward
  parameterCount := 0

end Reshape
end Neuroform

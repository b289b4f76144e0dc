/-
  Neuroform — normalization with fixed statistics.

  Every channel is moved by its mean and divided by its deviation, that is,
  mapped by `scale * x + offset`.
-/
import Neuroform.Layer.Operation

namespace Neuroform

/-- Combines two lists value by value; a list of one value stretches to the
    length of the other, all other differences of length are faults. -/
def stretchWith {α : Type} (f : α → α → α) (xs ys : List α) : Outcome (List α) :=
  if xs.length = ys.length then .ok (List.zipWith f xs ys)
  else match xs, ys with
    | [x], _ => .ok (ys.map (f x))
    | _, [y] => .ok (xs.map (f · y))
    | _, _ => fault

/-- Statistics of the entries of an axis.  Axes are counted on the batched
    shape, negative ones from the end. -/
structure BatchNorm (α : Type) where
  axis : List Int
  epsilon : α
  gamma : Option (List α)
  beta : Option (List α)
  mean : List α
  variance : List α

namespace BatchNorm
variable {α : Type}

def option (n : BatchNorm α) : String → Option (OptionValue α)
  | "axis" => some (.ints n.axis)
  | "epsilon" => some (.float n.epsilon)
  | "center" => some (.bool n.beta.isSome)
  | "scale" => some (.bool n.gamma.isSome)
  | _ => none

/-- The known lengths of the normalised axes have to be the number of
    statistics. -/
def outputShapes (n : BatchNorm α) (inputs : List Shape) : Outcome (List Shape) := do
  let input ← onlyInput "BatchNormalization" inputs
  for axis in n.axis do
    let place ← axisIndex axis input.rank
    if let some d := (input.dims[place]?).join then
      require (d = n.mean.length) (LayerCause.statistics place d n.mean.length)
  return [input]

section
variable [Scalar α]

/-- The factor of every entry: gamma over the deviation. -/
def scale (n : BatchNorm α) : Outcome (List α) :=
  let deviation := n.variance.map fun v => Elementary.sqrt (v + n.epsilon)
  match n.gamma with
  | some gamma => stretchWith (· / ·) gamma deviation
  | none => .ok (deviation.map (1 / ·))

/-- The factor and the offset of every entry. -/
def affine (n : BatchNorm α) : Outcome (List α × List α) := do
  let scale ← n.scale
  let moved ← stretchWith (· * ·) scale n.mean
  match n.beta with
  | some beta => return (scale, ← stretchWith (· - ·) beta moved)
  | none => return (scale, moved.map (- ·))

/-- Every value is scaled and moved by the statistics of its place on the
    axis; a place without statistics is a fault. -/
def forward (n : BatchNorm α) (inputs : List (Grid α)) : Outcome (List (Grid α)) := do
  let x ← onlyInput "BatchNormalization" inputs
  match n.axis with
  | [axis] =>
    let place ← axisIndex axis x.rank
    let (scale, offset) ← n.affine
    if x.shape.getD place 0 ≤ min scale.length offset.length then
      return [Grid.ofFn x.shape fun p =>
        scale.getD (p.getD place 0) 0 * x.value p + offset.getD (p.getD place 0) 0]
    else fault
  | axes => refuse (LayerCause.severalAxes axes)

end

def parameterCount (n : BatchNorm α) : Nat :=
  (n.gamma.map List.length).getD 0 + (n.beta.map List.length).getD 0

/-- A normalization as an operation. -/
def operation [Scalar α] (n : BatchNorm α) : Operation α where
  typeName := "BatchNormalization"
  option := n.option
  outputShapes := n.outputShapes
  forward := n.forward
  parameterCount := n.parameterCount

end BatchNorm
end Neuroform

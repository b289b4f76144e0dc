/-
  Neuroform — linear maps on connections.

  A transform maps rows of `sizeIn` values to rows of `sizeOut` values.  Some
  kinds fix these sizes, others keep the size they meet; `check` compares them
  with the ends of a connection.
-/
import Neuroform.Scalar
import Neuroform.Window.Convolution

namespace Neuroform

/-- Weights at explicit places of a matrix; weights at one place add up. -/
structure SparseTransform (α : Type) where
  rows : Nat
  columns : Nat
  indices : List (Nat × Nat)
  values : List α

/-- A convolution of samples that arrive as rows. -/
structure ConvolutionTransform (α : Type) where
  filters : Nat
  inputShape : List Nat
  kernelSize : List Nat
  strides : List Nat
  padding : Padding
  layout : Layout
  kernel : Grid α

/-- A linear map; a dense one has a row per output. -/
inductive Transform (α : Type) where
  | identity
  | scalar (factor : α)
  | diagonal (factors : List α)
  | dense (weights : Table α)
  | sparse (s : SparseTransform α)
  | convolution (c : ConvolutionTransform α)

/-! ## Convolutions -/

namespace ConvolutionTransform
variable {α : Type}

/-- A convolution whose kernel fits its filters and the channels of the input. -/
def make (filters : Nat) (inputShape kernelSize strides : List Nat) (padding : Padding)
    (layout : Layout) (kernel : Grid α) : Outcome (ConvolutionTransform α) := do
  require (inputShape.length = kernelSize.length + 1 ∧ strides.length = kernelSize.length)
    (NetworkCause.convolutionDims inputShape)
  let channels := (layout.channel? inputShape).getD 0
  let expected := kernelSize ++ [channels, filters]
  require (kernel.shape = expected) (NetworkCause.convolutionKernel kernel.shape expected)
  return ⟨filters, inputShape, kernelSize, strides, padding, layout, kernel⟩

/-- The windows of a convolution, which are not dilated. -/
def geometry (c : ConvolutionTransform α) : Geometry :=
  ⟨c.kernelSize, c.strides, List.replicate c.kernelSize.length 1, c.padding⟩

/-- The shape of an output sample. -/
def outputShape (c : ConvolutionTransform α) : Outcome (List Nat) := do
  let axes ← c.geometry.axes (c.layout.spatial c.inputShape)
  return c.layout.join c.filters (outputDims axes)

/-- The number of input values. -/
def sizeIn (c : ConvolutionTransform α) : Outcome Nat := Word.product c.inputShape

/-- The number of output values. -/
def sizeOut (c : ConvolutionTransform α) : Outcome Nat := do Word.product (← c.outputShape)

/-- The convolution of one row. -/
def applyRow [Zero α] [Add α] [Mul α] (c : ConvolutionTransform α) (row : List α) :
    Outcome (Grid α) := do
  let sample ← (Grid.ofList row).reshape c.inputShape
  convolve c.layout c.geometry sample c.kernel

end ConvolutionTransform

/-- The rows of a sparse transform's result. -/
def SparseTransform.apply {α : Type} [Zero α] [Add α] [Mul α] (s : SparseTransform α)
    (x : Table α) : Outcome (Table α) := do
  let entries := s.indices.zip s.values
  requireRoom valueBytes [x.rows, s.rows]
  if x.rows = 0 ∨ entries.all fun ((row, column), _) => row < s.rows && column < s.columns then
    .ok (Table.ofFn x.rows s.rows fun i j =>
      entries.foldl (fun acc ((row, column), w) =>
        if row = j then acc + w * x.value i column else acc) 0)
  else fault

/-! ## All transforms -/

namespace Transform
variable {α : Type}

/-- The number of input values that a transform fixes. -/
def sizeIn? : Transform α → Outcome (Option Nat)
  | identity | scalar _ => .ok none
  | diagonal factors => .ok (some factors.length)
  | dense weights => .ok (some weights.columns)
  | sparse s => .ok (some s.columns)
  | convolution c => some <$> c.sizeIn

/-- The number of output values that a transform fixes. -/
def sizeOut? : Transform α → Outcome (Option Nat)
  | identity | scalar _ => .ok none
  | diagonal factors => .ok (some factors.length)
  | dense weights => .ok (some weights.rows)
  | sparse s => .ok (some s.rows)
  | convolution c => some <$> c.sizeOut

/-- The entries of a sparse transform have to be values at places of its
    matrix. -/
def checkEntries : Transform α → Outcome Unit
  | sparse s => do
    require (s.indices.length = s.values.length)
      (NetworkCause.sparseCount s.indices.length s.values.length)
    require (s.indices.all fun (row, column) => row < s.rows && column < s.columns)
      (NetworkCause.sparseIndex s.rows s.columns)
  | _ => .ok ()

/-- Checks that a transform maps `sizeIn` to `sizeOut` values. -/
def check (t : Transform α) (sizeIn sizeOut : Nat) : Outcome Unit := do
  let expectedIn := (← t.sizeIn?).getD sizeIn
  let expectedOut := (← t.sizeOut?).getD sizeIn
  require (expectedIn = sizeIn ∧ expectedOut = sizeOut)
    (NetworkCause.transformSizes expectedIn expectedOut sizeIn sizeOut)
  t.checkEntries

/-- The number of weights. -/
def parameterCount : Transform α → Nat
  | identity => 0
  | scalar _ => 1
  | diagonal factors => factors.length
  | dense weights => weights.cells.size
  | sparse s => s.values.length
  | convolution c => c.kernel.size

/-- The result for every row of a batch. -/
def apply [Zero α] [Add α] [Mul α] (t : Transform α) (x : Table α) : Outcome (Table α) := do
  if let some expected := ← t.sizeIn? then
    require (expected = x.columns) (NetworkCause.transformInput expected x.columns)
  match t with
  | identity => return x
  | scalar factor => return x.map (· * factor)
  | diagonal factors =>
    return Table.ofFn x.rows x.columns fun i j => x.value i j * factors.getD j 0
  | dense weights =>
    requireRoom valueBytes [x.rows, weights.rows]
    return x.mul weights.transpose
  | sparse s => s.apply x
  | convolution c =>
    let size ← c.sizeOut
    requireRoom valueBytes [x.rows, size]
    let results ← (List.range x.rows).mapM fun i => c.applyRow (x.row i)
    let cells := (results.map (·.cells)).toArray
    return Table.ofFn x.rows size fun i j => (cells.getD i #[]).getD j 0

end Transform
end Neuroform

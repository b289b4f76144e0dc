/-
  Neuroform — convolution layers of one to three spatial axes.
-/
import Neuroform.Layer.Dense
import Neuroform.Window.Convolution

namespace Neuroform

/-- A convolution.  The kernel has the axes of the window, then input channels,
    then filters; a bias has one entry per filter. -/
structure Conv (α : Type) where
  kernel : Grid α
  bias : Option (List α)
  activation : Activation
  strides : List Nat
  dilationRate : List Nat
  padding : Padding
  layout : Layout
  regularization : Regularization
  rank_kernel : 3 ≤ kernel.rank ∧ kernel.rank ≤ 5
  length_bias : ∀ b ∈ bias, b.length = kernel.shape.getD (kernel.rank - 1) 0

namespace Conv
variable {α : Type}

/-- A convolution without padding that moves by single steps, channels last. -/
def make (kernel : Grid α) (bias : Option (List α)) (activation : Activation) :
    Outcome (Conv α) :=
  if rank : 3 ≤ kernel.rank ∧ kernel.rank ≤ 5 then
    if length : ∀ b ∈ bias, b.length = kernel.shape.getD (kernel.rank - 1) 0 then
      let ones := List.replicate (kernel.rank - 2) 1
      .ok ⟨kernel, bias, activation, ones, ones, .valid, .channelsLast, default, rank, length⟩
    else refuse LayerCause.biasCount
  else refuse (LayerCause.kernelRank kernel.shape)

/-- The number of spatial axes. -/
def rank (c : Conv α) : Nat := c.kernel.rank - 2

/-- The lengths of the window. -/
def kernelSize (c : Conv α) : List Nat := c.kernel.shape.take c.rank

/-- The number of input channels. -/
def channels (c : Conv α) : Nat := c.kernel.shape.getD c.rank 0

/-- The number of output channels. -/
def filters (c : Conv α) : Nat := c.kernel.shape.getD (c.rank + 1) 0

/-- The windows of a convolution. -/
def geometry (c : Conv α) : Geometry := ⟨c.kernelSize, c.strides, c.dilationRate, c.padding⟩

/-- The type of a convolution, by its number of spatial axes. -/
def typeName (c : Conv α) : String := s!"Conv{c.rank}D"

def option (c : Conv α) : String → Option (OptionValue α)
  | "filters" => some (.size c.filters)
  | "kernel_size" => some (.sizes c.kernelSize)
  | "strides" => some (.sizes c.strides)
  | "dilation_rate" => some (.sizes c.dilationRate)
  | "padding" => some (.str c.padding.name)
  | "data_format" => some (.str c.layout.name)
  | "activation" => some (.str c.activation.name)
  | "use_bias" => some (.bool c.bias.isSome)
  | other => c.regularization.option other

/-- Spatial dimensions become numbers of window positions, channels become
    filters. -/
def outputShapes (c : Conv α) (inputs : List Shape) : Outcome (List Shape) := do
  let input ← onlyInput "Conv" inputs
  let parts ← input.splitChannels c.layout
  require (parts.spatial.length = c.rank) (LayerCause.unexpectedInput c.typeName input)
  if let some channels := parts.channels then
    require (channels = c.channels) (LayerCause.channels c.channels channels)
  let spatial ← parts.spatial.zipIdx.mapM fun (d, axis) =>
    c.padding.outputLength d c.kernelSize[axis]? c.dilationRate[axis]? c.strides[axis]?
  return [ChannelShape.join c.layout ⟨parts.batch, spatial, some c.filters⟩]

/-- Adds to every value of a sample the bias of its channel. -/
def addBias [Zero α] [Add α] (l : Layout) (bias : List α) (y : Grid α) : Grid α :=
  let axis := l.channelAxis y.rank
  Grid.ofFn y.shape fun p =>
    match bias[p.getD axis 0]? with
    | some b => y.value p + b
    | none => y.value p

/-- Each sample is convolved and moved by the bias. -/
def forward [Scalar α] (c : Conv α) (inputs : List (Grid α)) : Outcome (List (Grid α)) := do
  let x ← onlyInput "Conv" inputs
  let y ← x.mapSamples fun sample => do
    let y ← convolve c.layout c.geometry sample c.kernel
    return c.bias.elim y (addBias c.layout · y)
  return [← c.activation.apply y]

def parameterCount (c : Conv α) : Nat := c.kernel.size + (c.bias.map List.length).getD 0

/-- A convolution as an operation. -/
def operation [Scalar α] (c : Conv α) : Operation α where
  typeName := c.typeName
  option := c.option
  outputShapes := c.outputShapes
  forward := c.forward
  parameterCount := c.parameterCount

end Conv
end Neuroform

/-
  Neuroform — conversion of convolutions and poolings.
-/
import Neuroform.Conversion.Rule

namespace Neuroform.Rule

open Workspace

variable {α : Type} [Scalar α]

/-! ## Convolutions -/

/-- The map from one value per channel to all positions of a sample. -/
def channelSpread (l : Layout) (dims : List Nat) (channels : Nat) : SparseTransform α :=
  let axis := l.channelAxis dims.length
  let indices := (positions dims).zipIdx.map fun (p, place) => (place, p.getD axis 0)
  ⟨indices.length, channels, indices, List.replicate indices.length 1⟩

/-- A constant node feeds the biases to one relay value per filter, which all
    output positions of the filter read. -/
def wireBiases (c : Conv α) (i : InvocationId) (output : View) (bias : List α) :
    Step (Workspace α) Unit := do
  let w ← get
  let label ← w.label i
  let dims ← w.outputDims i
  let node ← onNetwork (Network.addObject (.node (.constant [1])) s!"{label}.bias")
  let relay ← onNetwork
    (Network.addObject (.node (.passthrough c.filters)) s!"{label}.channel_bias")
  let _ ← connect (.full node) (.full relay) (.dense (Table.ofColumn bias)) none
  requireRoom (2 * placeBytes) [volume dims]
  let _ ← connect (.full relay) output (.sparse (channelSpread c.layout dims c.filters))
    (some false)

/-- A convolution of samples with the kernel of a layer. -/
def convTransform (c : Conv α) (dims : List Nat) : Outcome (ConvolutionTransform α) :=
  ConvolutionTransform.make c.filters dims c.kernelSize c.strides c.padding c.layout c.kernel

/-- The kernel is on the connection; biases come from a relay. -/
def convertConv (c : Conv α) (i : InvocationId) : Step (Workspace α) View := do
  let output ← buildTarget i none (some (.activation c.activation))
  if let some bias := c.bias then wireBiases c i output bias
  let dims ← (← get).inputDims i
  let _ ← wireInput i output 0 true (.convolution (← convTransform c dims))
  return output

/-- The rule for convolutions, which may not be dilated. -/
def conv : RuleBuilder α := fun l layer =>
  match layer.kind with
  | .primitive (.conv op) =>
    .ok { simple l (convertConv op) with
      fixedOptions := [⟨"dilation_rate", .sizes (List.replicate op.rank 1)⟩]
      fixedInTraining := regularizers
      hasWeights := true }
  | _ => ruleMismatch "Conv" layer

/-! ## Poolings -/

/-- Maximum pooling has no counterpart unless it may be averaged. -/
def poolEligible (p : Pool) (layer : Layer α) (s : Settings α) : Except ConversionCause Unit :=
  if p.kind = .maximum ∧ !s.maxToAverage then .error (.ineligible layer.name .maximumPooling)
  else .ok ()

/-- The window and strides of a pooling of samples; a global one has a single
    window. -/
def poolWindow (p : Pool) (dims : List Nat) : List Nat × List Nat :=
  match p.extent with
  | .everywhere _ =>
    let spatial := p.layout.spatial dims
    (spatial, List.replicate spatial.length 1)
  | .windows size strides _ => (size, strides)

/-- The kernel that averages each channel over a window by itself. -/
def averagingKernel (window : List Nat) (channels : Nat) : Grid α :=
  let share : α := 1 / ((volume window : Nat) : α)
  Grid.ofFn (window ++ [channels, channels]) fun p =>
    if p.getD window.length 0 = p.getD (window.length + 1) 0 then share else 0

/-- A pooling of samples as a convolution that averages each channel. -/
def poolTransform (p : Pool) (dims : List Nat) : Outcome (ConvolutionTransform α) := do
  let channels ← orFault (p.layout.channel? dims)
  let (window, strides) := poolWindow p dims
  require (0 < (← Word.product window)) (SessionCause.emptyWindow window)
  requireRoom valueBytes [channels, channels]
  requireRoom valueBytes (window ++ [channels, channels])
  ConvolutionTransform.make channels dims window strides .valid p.layout
    (averagingKernel window channels)

/-- The averaging convolution is on the connection, and is not trained. -/
def convertPool (p : Pool) (i : InvocationId) : Step (Workspace α) View := do
  let transform ← poolTransform p (← (← get).inputDims i)
  let output ← buildTarget i none none
  let _ ← wireInput i output 0 false (.convolution transform)
  return output

/-- The rule for poolings, which may not be padded. -/
def pool : RuleBuilder α := fun l layer =>
  match layer.kind with
  | .primitive (.pool op) =>
    .ok { simple l (convertPool op) with
      fixedOptions := if op.isGlobal then [] else [⟨"padding", .str "valid"⟩]
      eligible := fun _ layer s => poolEligible op layer s }
  | _ => ruleMismatch "pooling" layer

end Neuroform.Rule

/-
  Neuroform — pooling layers.
-/
import Neuroform.Layer.Operation
import Neuroform.Window.Pooling

namespace Neuroform

/-- What a pooling layer reduces: everything along the spatial axes, or
    windows. -/
inductive PoolExtent where
  | everywhere (rank : Nat)
  | windows (size strides : List Nat) (padding : Padding)
  deriving DecidableEq

/-- A pooling of samples. -/
structure Pool where
  kind : PoolKind
  extent : PoolExtent
  layout : Layout
  deriving DecidableEq

/-- The name of a reduction in the types of layers. -/
def PoolKind.typeName : PoolKind → String
  | average => "Average"
  | maximum => "Max"

namespace Pool

/-- The number of spatial axes. -/
def rank (p : Pool) : Nat :=
  match p.extent with
  | .everywhere rank => rank
  | .windows size _ _ => size.length

/-- Whether all positions are reduced to one. -/
def isGlobal (p : Pool) : Bool :=
  match p.extent with
  | .everywhere _ => true
  | .windows .. => false

/-- The type of a pooling layer. -/
def typeName (p : Pool) : String :=
  (if p.isGlobal then "Global" else "") ++ p.kind.typeName ++ s!"Pooling{p.rank}D"

/-- The windows of a pooling of windows, which are not dilated. -/
def windows (size strides : List Nat) (padding : Padding) : Geometry :=
  ⟨size, strides, List.replicate size.length 1, padding⟩

section
variable {α : Type}

def option (p : Pool) (name : String) : Option (OptionValue α) :=
  match name, p.extent with
  | "data_format", _ => some (.str p.layout.name)
  | "pool_size", .windows size _ _ => some (.sizes size)
  | "strides", .windows _ strides _ => some (.sizes strides)
  | "padding", .windows _ _ padding => some (.str padding.name)
  | _, _ => none

/-- Spatial dimensions become numbers of window positions, or disappear. -/
def outputShapes (p : Pool) (inputs : List Shape) : Outcome (List Shape) := do
  let input ← onlyInput "Pooling" inputs
  let parts ← input.splitChannels p.layout
  require (parts.spatial.length = p.rank) (LayerCause.unexpectedInput p.typeName input)
  match p.extent with
  | .everywhere _ => return [⟨[parts.batch, parts.channels]⟩]
  | .windows size strides padding =>
    let spatial ← parts.spatial.zipIdx.mapM fun (d, axis) => do
      let k ← orFault size[axis]?
      let s ← orFault strides[axis]?
      padding.outputLength d (some k) (some 1) (some s)
    return [ChannelShape.join p.layout ⟨parts.batch, spatial, parts.channels⟩]

/-- Each sample is pooled. -/
def forward [Scalar α] (p : Pool) (inputs : List (Grid α)) : Outcome (List (Grid α)) := do
  let x ← onlyInput "Pooling" inputs
  let y ← x.mapSamples fun sample =>
    match p.extent with
    | .everywhere _ => globalPool p.layout p.kind sample
    | .windows size strides padding =>
      pool p.layout (windows size strides padding) p.kind sample
  return [y]

/-- A pooling as an operation; nothing in it is trained. -/
def operation [Scalar α] (p : Pool) : Operation α where
  typeName := p.typeName
  option := p.option
  outputShapes := p.outputShapes
  forward := p.forward
  parameterCount := 0

end
end Pool
end Neuroform

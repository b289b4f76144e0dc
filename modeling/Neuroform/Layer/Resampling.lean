/-
  Neuroform — layers that change the spatial extent of samples: up-sampling and
  zero padding.
-/
import Neuroform.Layer.Operation

namespace Neuroform

/-! ## Up-sampling -/

/-- How values between input positions are found. -/
inductive Interpolation where
  | nearest
  | bilinear
  deriving DecidableEq, Inhabited

/-- The name of an interpolation in layer options. -/
def Interpolation.name : Interpolation → String
  | nearest => "nearest"
  | bilinear => "bilinear"

/-- The two input coordinates around an output coordinate, and how far it lies
    on the way from the lower to the upper one. -/
structure Neighbours (α : Type) where
  low : Nat
  high : Nat
  fraction : α

section
variable {α : Type}

/-- The neighbours of output coordinate `i` on an axis of `length` cells that
    is stretched by `factor`; centres of cells are half a cell from their
    borders, and coordinates outside of the axis are moved to its ends. -/
def Neighbours.around [Scalar α] (length factor i : Nat) : Neighbours α :=
  let source : α := larger (((i : α) + 0.5) / (factor : α) - 0.5) 0
  let low := min (Elementary.wholePart source) (length - 1)
  ⟨low, min (low + 1) (length - 1), source - (low : α)⟩

/-- The corner with the chosen neighbour on each axis: its input coordinates
    and the product of its weights. -/
def corner [One α] [Sub α] [Mul α] (axes : List (Neighbours α)) (choice : List Bool) :
    List Nat × α :=
  ((axes.zip choice).map fun (n, upper) => if upper then n.high else n.low,
    (axes.zip choice).foldl (fun w (n, upper) =>
      w * if upper then n.fraction else 1 - n.fraction) 1)

/-- The choices on some axes that a number stands for: its lowest bit is the
    choice on the first axis. -/
def choices (axes number : Nat) : List Bool := (List.range axes).map number.testBit

namespace Interpolation

/-- The value of an up-sampled channel: `value` reads the input at spatial
    coordinates. -/
def read [Scalar α] (interpolation : Interpolation) (dims factors : List Nat)
    (value : List Nat → α) (p : List Nat) : α :=
  match interpolation with
  | nearest => value (List.zipWith (· / ·) p factors)
  | bilinear =>
    let axes := (dims.zip (factors.zip p)).map fun (d, f, i) =>
      (Neighbours.around d f i : Neighbours α)
    (List.range (1 <<< axes.length)).foldl (fun acc number =>
      let (i, weight) := corner axes (choices axes.length number)
      acc + weight * value i) 0

end Interpolation

/-- Every spatial axis stretched by a factor of its own. -/
structure UpSampling where
  size : List Nat
  layout : Layout
  interpolation : Interpolation
  deriving DecidableEq

namespace UpSampling

/-- The number of spatial axes. -/
def rank (u : UpSampling) : Nat := u.size.length

/-- The type of an up-sampling, by its number of spatial axes. -/
def typeName (u : UpSampling) : String := s!"UpSampling{u.rank}D"

def option (u : UpSampling) : String → Option (OptionValue α)
  | "size" => some (.sizes u.size)
  | "data_format" => if 1 < u.rank then some (.str u.layout.name) else none
  | "interpolation" => if u.rank = 2 then some (.str u.interpolation.name) else none
  | _ => none

def outputShapes (u : UpSampling) (inputs : List Shape) : Outcome (List Shape) := do
  let input ← onlyInput "UpSampling" inputs
  let parts ← input.splitChannels u.layout
  require (parts.spatial.length = u.rank) (LayerCause.unexpectedInput u.typeName input)
  let spatial ← (parts.spatial.zip u.size).mapM fun (d, s) => d.mapM fun d => Word.ofNat (d * s)
  return [ChannelShape.join u.layout ⟨parts.batch, spatial, parts.channels⟩]

/-- The dimensions of an up-sampled sample whose last axis holds the channels. -/
def dimsLast (u : UpSampling) (dims : List Nat) : List Nat :=
  List.zipWith (· * ·) dims.dropLast u.size ++ dims.getLast?.toList

/-- An up-sampled sample whose last axis holds the channels. -/
def sampleLast [Scalar α] (u : UpSampling) (x : Grid α) : Grid α :=
  Grid.ofFn (u.dimsLast x.shape) fun p =>
    u.interpolation.read x.shape.dropLast u.size (fun i => x.value (i ++ p.getLast?.toList))
      p.dropLast

/-- What lies between input positions is read from their corners, and the number
    of corners has to be a word. -/
def requireCorners (u : UpSampling) (dims : List Nat) : Outcome Unit :=
  if u.interpolation = .bilinear ∧ 0 < volume dims then discard (Word.shiftedOne u.rank)
  else .ok ()

/-- An up-sampled sample. -/
def sample [Scalar α] (u : UpSampling) (x : Grid α) : Outcome (Grid α) := do
  u.layout.requireSpatial x.rank u.rank (LayerCause.sampleRank u.rank x.rank)
  let dims := u.dimsLast (u.layout.toLast x.shape)
  requireRoom valueBytes dims
  u.requireCorners dims
  return (u.sampleLast (x.toLast u.layout)).fromLast u.layout

def forward [Scalar α] (u : UpSampling) (inputs : List (Grid α)) : Outcome (List (Grid α)) := do
  return [← (← onlyInput "UpSampling" inputs).mapSamples u.sample]

/-- An up-sampling as an operation. -/
def operation [Scalar α] (u : UpSampling) : Operation α where
  typeName := u.typeName
  option := u.option
  outputShapes := u.outputShapes
  forward := u.forward
  parameterCount := 0

end UpSampling

/-! ## Zero padding -/

/-- The position inside of the padding, if it is one of the box. -/
def unpadded? : List (Nat × Nat) → List Nat → List Nat → Option (List Nat)
  | (before, _) :: pads, d :: ds, i :: is =>
    if before ≤ i ∧ i < before + d then (unpadded? pads ds is).map ((i - before) :: ·) else none
  | _, _, _ => some []

/-- The dimensions with padding before and after each axis. -/
def paddedDims (pads : List (Nat × Nat)) (dims : List Nat) : List Nat :=
  List.zipWith (fun (before, after) d => d + before + after) pads dims

/-- A grid with zeros before and after each axis. -/
def Grid.padded [Zero α] (pads : List (Nat × Nat)) (g : Grid α) : Grid α :=
  ofFn (paddedDims pads g.shape) fun p => ((unpadded? pads g.shape p).map g.value).getD 0

/-- Zeros before and after every spatial axis. -/
structure ZeroPadding where
  padding : List (Nat × Nat)
  layout : Layout
  deriving DecidableEq

namespace ZeroPadding

/-- The number of spatial axes. -/
def rank (z : ZeroPadding) : Nat := z.padding.length

/-- The type of a zero padding, by its number of spatial axes. -/
def typeName (z : ZeroPadding) : String := s!"ZeroPadding{z.rank}D"

def option (z : ZeroPadding) : String → Option (OptionValue α)
  | "padding" => some (.sizes (z.padding.flatMap fun (before, after) => [before, after]))
  | "data_format" => if 1 < z.rank then some (.str z.layout.name) else none
  | _ => none

def outputShapes (z : ZeroPadding) (inputs : List Shape) : Outcome (List Shape) := do
  let input ← onlyInput "ZeroPadding" inputs
  let parts ← input.splitChannels z.layout
  require (parts.spatial.length = z.rank) (LayerCause.unexpectedInput z.typeName input)
  let spatial ← (parts.spatial.zip z.padding).mapM fun (d, before, after) =>
    d.mapM fun d => Word.ofNat (d + before + after)
  return [ChannelShape.join z.layout ⟨parts.batch, spatial, parts.channels⟩]

/-- The zeros around every axis of a batched array of some rank: none around
    the batch and the channels. -/
def pads (z : ZeroPadding) : Nat → Outcome (List (Nat × Nat))
  | 0 => fault
  | 1 => if z.layout = .channelsFirst then .ok [(0, 0)] else fault
  | spatial + 2 =>
    if spatial ≤ z.rank then .ok ((0, 0) :: z.layout.join (0, 0) (z.padding.take spatial))
    else fault

def forward [Zero α] (z : ZeroPadding) (inputs : List (Grid α)) : Outcome (List (Grid α)) := do
  let x ← onlyInput "ZeroPadding" inputs
  let pads ← z.pads x.rank
  requireRoom valueBytes (paddedDims pads x.shape)
  return [x.padded pads]

/-- A zero padding as an operation. -/
def operation [Zero α] (z : ZeroPadding) : Operation α where
  typeName := z.typeName
  option := z.option
  outputShapes := z.outputShapes
  forward := z.forward
  parameterCount := 0

end ZeroPadding
end
end Neuroform

/-
  Neuroform — pooling of one sample.

  Pooling reduces the taps of each window, channel by channel, to their average
  or their maximum; only taps on the input count.  Global pooling reduces a
  whole channel, as an array that lies in a sample.  A window without taps gives
  zero or the lowest number.

  The taps of all windows are visited one after the other, and the values and
  numbers of taps of the windows are accumulated (`Pooled`).  Windows have no
  entries before a tap of them, or of a later one, has been found.
-/
import Neuroform.Grid
import Neuroform.Scalar
import Neuroform.Window.Tap

namespace Neuroform

/-- How the values under a window are reduced to one. -/
inductive PoolKind where
  | average
  | maximum
  deriving DecidableEq, Inhabited

/-- The largest of the values and the lowest number. -/
def largest {α : Type} [LT α] [DecidableLT α] [BEq α] [Elementary α] (values : List α) : α :=
  values.foldl larger Elementary.lowest

/-! ## Accumulators -/

/-- What is known of the windows while their taps are visited: a value for every
    channel, and the number of taps. -/
structure Pooled (α : Type) where
  values : Array α
  counts : Array Nat

section
variable {α : Type} [Zero α] [Add α] [Div α] [NatCast α] [LT α] [DecidableLT α] [BEq α]
  [Elementary α]

namespace PoolKind

/-- What a window without taps is reduced to. -/
def start : PoolKind → α
  | average => 0
  | maximum => Elementary.lowest

/-- Takes one more value into account. -/
def combine (kind : PoolKind) (acc v : α) : α :=
  match kind with
  | average => acc + v
  | maximum => larger acc v

/-- The value of a whole channel, whose values lie `apart` places apart. -/
def ofChannel (kind : PoolKind) (apart : Nat) (dims : List Nat) (values : List α) : α :=
  match kind with
  | average => Elementary.arraySum 0 (· + ·) apart dims values / (values.length : α)
  | maximum => largest values

end PoolKind

namespace Pooled

/-- Makes entries for all windows up to one. -/
def upTo (kind : PoolKind) (channels : Nat) (s : Pooled α) (window : Nat) : Pooled α :=
  if s.counts.size ≤ window then
    ⟨grown s.values ((window + 1) * channels) kind.start, grown s.counts (window + 1) 0⟩
  else s

/-- Takes the values at an input position, which lies under a tap of a window,
    into account. -/
def visit (kind : PoolKind) (input : Grid α) (channels : Nat) (s : Pooled α) :
    Nat × List Nat × List Nat → Pooled α
  | (window, _, i) =>
    let s := s.upTo kind channels window
    ⟨(List.range channels).foldl (fun values c =>
      values.modify (window * channels + c) (kind.combine · (input.value (i ++ [c])))) s.values,
      s.counts.modify window (· + 1)⟩

/-- The values in the end: sums are divided by the numbers of their taps. -/
def results (kind : PoolKind) (channels : Nat) (s : Pooled α) : Array α :=
  match kind with
  | .average => s.values.mapIdx fun j v =>
    let taps := s.counts.getD (j / channels) 0
    if 0 < taps then v / (taps : α) else v
  | .maximum => s.values

end Pooled

/-! ## Samples -/

/-- The pooling of a sample whose last axis holds the channels. -/
def poolLast (g : Geometry) (kind : PoolKind) (input : Grid α) : Outcome (Grid α) := do
  let channels ← orRefuse input.shape.getLast? GridCause.poolingRank
  let dims := input.shape.dropLast
  g.check dims.length
  let axes ← g.axes dims
  requireTaps g.kernel axes
  let shape := outputDims axes ++ [channels]
  requireRoom valueBytes [← Word.product shape]
  let s := (visits g.kernel axes).foldl (Pooled.visit kind input channels) ⟨#[], #[]⟩
  let values := s.results kind channels
  Grid.arrange shape fun p => values.getD (offset shape p) kind.start

/-- The pooling of a sample. -/
def pool (l : Layout) (g : Geometry) (kind : PoolKind) (input : Grid α) :
    Outcome (Grid α) :=
  input.throughLast l (poolLast g kind)

/-- How far apart in memory the neighbours of one channel are: channels that come
    last lie between them. -/
def apartInChannel (l : Layout) (channels : Nat) : Nat :=
  match l with
  | .channelsFirst => 1
  | .channelsLast => channels

/-- One value per channel: the reduction of all spatial positions. -/
def globalPool (l : Layout) (kind : PoolKind) (input : Grid α) : Outcome (Grid α) := do
  require (2 ≤ input.rank) (GridCause.globalPoolingRank input.rank)
  let axis := l.channelAxis input.rank
  let channels := input.shape.getD axis 0
  requireRoom valueBytes [channels]
  let dims := l.spatial input.shape
  return Grid.ofList ((List.range channels).map fun c =>
    kind.ofChannel (apartInChannel l channels) dims
      ((positions dims).map fun p => input.value (l.join c p)))

end
end Neuroform

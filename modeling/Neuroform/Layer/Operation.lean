/-
  Neuroform — what every primitive layer can do.

  A layer maps the shapes of its inputs to those of its outputs and batched
  arrays to batched arrays, shows its configuration as named options, and
  counts its trainable parameters.  An `Operation` is a layer seen through
  these alone.
-/
import Neuroform.Grid
import Neuroform.OptionValue

namespace Neuroform

/-- A primitive layer, seen from outside. -/
structure Operation (α : Type) where
  typeName : String
  /-- The value of an option, if the layer has one of that name. -/
  option : String → Option (OptionValue α)
  outputShapes : List Shape → Outcome (List Shape)
  forward : List (Grid α) → Outcome (List (Grid α))
  parameterCount : Nat

/-- The only entry of a list; `layer` takes one input. -/
def onlyInput {β : Type} (layer : String) : List β → Outcome β
  | [x] => .ok x
  | xs => refuse (LayerCause.arity layer 1 xs.length)

/-- A layer that leaves the shape of its one input alone. -/
def sameShape (layer : String) (inputs : List Shape) : Outcome (List Shape) := do
  return [← onlyInput layer inputs]

/-! ## Channels of batched shapes -/

/-- A batched shape, taken apart: batch, spatial dimensions and channels. -/
structure ChannelShape where
  batch : Option Nat
  spatial : List (Option Nat)
  channels : Option Nat

/-- Takes a batched shape apart; without a sample axis it has no channels. -/
def Shape.splitChannels (l : Layout) (s : Shape) : Outcome ChannelShape :=
  match s.dims, l.channel? s.withoutBatch.dims with
  | batch :: _, some channels => .ok ⟨batch, l.spatial s.withoutBatch.dims, channels⟩
  | _, _ => refuse (LayerCause.noChannelAxis s)

/-- The batched shape with the given parts. -/
def ChannelShape.join (l : Layout) (c : ChannelShape) : Shape :=
  ⟨c.batch :: l.join c.channels c.spatial⟩

/-- Checks that a sample of some rank has `spatial` axes besides the channels;
    that a channels-last one has no channels is a fault. -/
def Layout.requireSpatial {γ : Type} [IsCause γ] (l : Layout) (rank spatial : Nat) (c : γ) :
    Outcome Unit :=
  if l = .channelsLast ∧ rank = 0 then fault else require (rank - 1 = spatial) c

end Neuroform

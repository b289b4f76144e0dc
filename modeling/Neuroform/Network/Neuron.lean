/-
  Neuroform — neuron types and their rate curves.

  A spiking type is evaluated through the rate that it settles on, so it has
  the same curve as its rate type.
-/
import Neuroform.Scalar

namespace Neuroform

/-- The type of the neurons of an ensemble.  `refractory` and `membrane` are
    time constants; an amplitude scales the output. -/
inductive Neuron (α : Type) where
  | rectified (amplitude : α)
  | spikingRectified (amplitude : α)
  | leaky (slope amplitude : α)
  | spikingLeaky (slope amplitude : α)
  | sigmoid (refractory : α)
  | tanh (refractory : α)
  | lifRate (membrane refractory amplitude : α)
  | lif (membrane refractory amplitude : α)

namespace Neuron
variable {α : Type}

/-- The name of a neuron type. -/
def name : Neuron α → String
  | rectified _ => "RectifiedLinear"
  | spikingRectified _ => "SpikingRectifiedLinear"
  | leaky _ _ => "LeakyReLU"
  | spikingLeaky _ _ => "SpikingLeakyReLU"
  | sigmoid _ => "Sigmoid"
  | tanh _ => "Tanh"
  | lifRate _ _ _ => "LIFRate"
  | lif _ _ _ => "LIF"

/-- The text of a neuron type. -/
def text (n : Neuron α) : String := s!"{n.name}()"

/-- Whether neurons of a type emit spikes. -/
def isSpiking : Neuron α → Bool
  | spikingRectified _ | spikingLeaky _ _ | lif _ _ _ => true
  | _ => false

/-- The parameters of a type other than the amplitude. -/
def parameters : Neuron α → List α
  | rectified _ | spikingRectified _ => []
  | leaky slope _ | spikingLeaky slope _ => [slope]
  | sigmoid refractory | tanh refractory => [refractory]
  | lifRate membrane refractory _ | lif membrane refractory _ => [membrane, refractory]

/-- The output scale of a type, if it has one. -/
def amplitude? : Neuron α → Option α
  | rectified a | spikingRectified a | leaky _ a | spikingLeaky _ a => some a
  | lifRate _ _ a | lif _ _ a => some a
  | sigmoid _ | tanh _ => none

/-- Changes the output scale of the types that have one. -/
def mapAmplitude (f : α → α) : Neuron α → Neuron α
  | rectified a => rectified (f a)
  | spikingRectified a => spikingRectified (f a)
  | leaky slope a => leaky slope (f a)
  | spikingLeaky slope a => spikingLeaky slope (f a)
  | sigmoid refractory => sigmoid refractory
  | tanh refractory => tanh refractory
  | lifRate membrane refractory a => lifRate membrane refractory (f a)
  | lif membrane refractory a => lif membrane refractory (f a)

/-- Types of one name with equal parameters. -/
def beq [BEq α] (m n : Neuron α) : Bool :=
  m.name == n.name && m.parameters == n.parameters && m.amplitude? == n.amplitude?

instance [BEq α] : BEq (Neuron α) := ⟨beq⟩

section
variable [Scalar α]

/-- The rate of integrate-and-fire neurons: zero up to the threshold current of
    one. -/
def integrateAndFire (membrane refractory amplitude current : α) : α :=
  if 1 < current then
    amplitude / (refractory + membrane * Elementary.log1p (1 / (current - 1)))
  else 0

/-- The rate that a neuron settles on at an input current. -/
def rate (n : Neuron α) (current : α) : α :=
  match n with
  | rectified a | spikingRectified a => a * larger current 0
  | leaky slope a | spikingLeaky slope a =>
    a * if 0 < current then current else slope * current
  | sigmoid refractory => 1 / (1 + Elementary.exp (-current)) / refractory
  | tanh refractory => Elementary.tanh current / refractory
  | lifRate membrane refractory a | lif membrane refractory a =>
    integrateAndFire membrane refractory a current

end
end Neuron
end Neuroform

/-
  Neuroform — the settings of a conversion.

  Nonlinearities are swapped by a table before and after they are mapped to
  neuron types.  Firing rates may be scaled; the synapse is put on everything
  that leaves neurons.
-/
import Neuroform.Activation
import Neuroform.Graph.Id
import Neuroform.Network.Neuron
import Neuroform.Network.Synapse

namespace Neuroform

/-! ## Nonlinearities -/

/-- An activation of a layer, or a neuron type of a network. -/
inductive Nonlinearity (α : Type) where
  | activation (a : Activation)
  | neuron (n : Neuron α)

namespace Nonlinearity
variable {α : Type}

/-- The text of a nonlinearity. -/
def text : Nonlinearity α → String
  | activation a => a.name
  | neuron n => n.text

/-- The same activation, or equal neuron types. -/
def beq [BEq α] : Nonlinearity α → Nonlinearity α → Bool
  | activation a, activation b => a == b
  | neuron m, neuron n => m == n
  | _, _ => false

instance [BEq α] : BEq (Nonlinearity α) := ⟨beq⟩

/-- The counterpart of a nonlinearity in a network: linear stays, three
    activations have neuron types, and neuron types are their own. -/
def native? [One α] : Nonlinearity α → Option (Nonlinearity α)
  | neuron n => some (neuron n)
  | activation .linear => some (activation .linear)
  | activation .relu => some (neuron (.rectified 1))
  | activation .sigmoid => some (neuron (.sigmoid 1))
  | activation .tanh => some (neuron (.tanh 1))
  | activation _ => none

end Nonlinearity

/-! ## Settings -/

/-- How firing rates are scaled: not, all alike, or by a factor per layer. -/
inductive RateScale (α : Type) where
  | none
  | everywhere (factor : α)
  | perLayer (factors : List (LayerId × α))

namespace RateScale
variable {α : Type}

/-- The factor of a layer. -/
def ofLayer? (s : RateScale α) (l : LayerId) : Option α :=
  match s with
  | none => .none
  | everywhere factor => some factor
  | perLayer factors => factors.lookup l

/-- All factors. -/
def factors : RateScale α → List α
  | none => []
  | everywhere factor => [factor]
  | perLayer factors => factors.map (·.2)

end RateScale

/-- The settings of a conversion. -/
structure Settings (α : Type) where
  /-- Layers and activations without counterpart are wrapped in tensor nodes. -/
  allowFallback : Bool
  /-- The network is only run, never trained. -/
  inferenceOnly : Bool
  /-- Maximum pooling is converted as average pooling. -/
  maxToAverage : Bool
  /-- Every application of a layer with weights gets a copy of them. -/
  splitSharedWeights : Bool
  /-- Replacements of nonlinearities; the first match counts. -/
  swaps : List (Nonlinearity α × Nonlinearity α)
  scale : RateScale α
  synapse : Option (Synapse α)

namespace Settings
variable {α : Type}

/-- The settings without any change of behaviour. -/
def standard : Settings α := ⟨true, false, false, false, [], .none, none⟩

/-- The replacement of a nonlinearity, or itself. -/
def swap [BEq α] (s : Settings α) (n : Nonlinearity α) : Nonlinearity α :=
  ((s.swaps.find? (·.1 == n)).map (·.2)).getD n

/-- What a nonlinearity becomes: it is swapped, and if it has a native
    counterpart then, that is swapped once more. -/
def target [BEq α] [One α] (s : Settings α) (n : Nonlinearity α) : Nonlinearity α :=
  let swapped := s.swap n
  match swapped.native? with
  | some native => s.swap native
  | none => swapped

/-- The first nonlinearity that a table swaps again after an earlier entry. -/
def swappedAgain? [BEq α] : List (Nonlinearity α) → List (Nonlinearity α) →
    Option (Nonlinearity α)
  | _, [] => none
  | earlier, n :: later =>
    if earlier.any (· == n) then some n else swappedAgain? (earlier ++ [n]) later

variable [Scalar α]

/-- Settings are refused for factors that are not positive and finite, for an
    impossible synapse, and for a nonlinearity that is swapped twice. -/
def validate (s : Settings α) : Outcome Unit := do
  if let some k := s.scale.factors.find? fun k => !(isFinite k && decide (0 < k)) then
    refuse (ConversionCause.invalidConfig (.scale (Printed.plain k)))
  if let some synapse := s.synapse then
    synapse.validate.mapError fun failure =>
      .refused [] (.conversion (.invalidConfig (.synapse failure.text)))
  if let some n := swappedAgain? [] (s.swaps.map (·.1)) then
    refuse (ConversionCause.invalidConfig (.swappedTwice n.text))

end Settings
end Neuroform

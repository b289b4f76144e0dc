/-
  Neuroform — which rule converts which type of layers.

  A registry maps names of layer types to builders of converters, and may have
  a fallback for all other layers.  Registering over an earlier entry is noted
  as a warning.
-/
import Neuroform.Conversion.Rule.Affine
import Neuroform.Conversion.Rule.Pointwise
import Neuroform.Conversion.Rule.Rearrangement
import Neuroform.Conversion.Rule.Resampling
import Neuroform.Conversion.Rule.Sampling
import Neuroform.Conversion.Rule.Wrapping
import Neuroform.Text.Quoted

namespace Neuroform

/-- What is bound to a layer: a rule, or the walk through a model. -/
inductive Converter (α : Type) where
  | rule (r : Rule α)
  | model (l : LayerId)

namespace Converter
variable {α : Type}

/-- The layer that a converter is bound to. -/
def layer : Converter α → LayerId
  | rule r => r.layer
  | model l => l

/-- The options that must keep their defaults. -/
def fixedOptions : Converter α → List (OptionDefault α)
  | rule r => r.fixedOptions
  | model _ => []

/-- The options that must keep their defaults in training. -/
def fixedInTraining : Converter α → List (OptionDefault α)
  | rule r => r.fixedInTraining
  | model _ => []

def hasWeights : Converter α → Bool
  | rule r => r.hasWeights
  | model _ => false

/-- Whether a layer can be converted; models always can. -/
def convertible [Scalar α] (c : Converter α) (g : Graph α) (layer : Layer α)
    (s : Settings α) : Except ConversionCause Unit :=
  match c with
  | rule r => r.convertible g layer s
  | model _ => .ok ()

end Converter

/-- Binds converters to layers. -/
abbrev ConverterBuilder (α : Type) := LayerId → Layer α → Outcome (Converter α)

/-- A builder of rules as a builder of converters. -/
def RuleBuilder.converter {α : Type} (b : RuleBuilder α) : ConverterBuilder α :=
  fun l layer => do return .rule (← b l layer)

/-- Builders by the name of a layer type, and a fallback. -/
structure Registry (α : Type) where
  builders : List (String × ConverterBuilder α)
  fallback : Option (ConverterBuilder α)
  warnings : List String

namespace Registry
variable {α : Type}

/-- The registry without builders. -/
def empty : Registry α := ⟨[], none, []⟩

/-- The builder for a type of layers. -/
def lookup (r : Registry α) (typeName : String) : Option (ConverterBuilder α) :=
  r.builders.lookup typeName

/-- Notes that an entry is replaced. -/
def noteOverwriting (r : Registry α) (name : String) : Registry α :=
  { r with
    warnings := r.warnings ++ [s!"Layer '{name}' already has a converter. Overwriting."] }

/-- Registers a builder for a type of layers, or as the fallback. -/
def insert (r : Registry α) (typeName : Option String) (b : ConverterBuilder α) : Registry α :=
  match typeName with
  | some name =>
    let r := if (r.lookup name).isSome then r.noteOverwriting name else r
    { r with builders := r.builders.filter (·.1 ≠ name) ++ [(name, b)] }
  | none =>
    let r := if r.fallback.isSome then r.noteOverwriting "None" else r
    { r with fallback := some b }

/-- The names with a builder, sorted. -/
def typeNames (r : Registry α) : List String :=
  (r.builders.map (·.1)).mergeSort fun a b => !decide (b < a)

/-- The text of a registry. -/
def text (r : Registry α) : String :=
  let types := Listing.bracketed (r.typeNames.map Text.quoted)
  let fallback := if r.fallback.isSome then "true" else "false"
  "Registry \x7b types: " ++ types ++ ", fallback: " ++ fallback ++ " \x7d"

variable [Scalar α]

/-- The walk through a model. -/
def model : ConverterBuilder α := fun l layer =>
  if layer.kind.isModel then .ok (.model l) else ruleMismatch "model" layer

/-- The builders of the types of layers that have one spatial rank in their
    name. -/
def ofRank (rank : Nat) : List (String × RuleBuilder α) :=
  [(s!"Conv{rank}D", Rule.conv),
    (s!"AveragePooling{rank}D", Rule.pool), (s!"GlobalAveragePooling{rank}D", Rule.pool),
    (s!"MaxPooling{rank}D", Rule.pool), (s!"GlobalMaxPooling{rank}D", Rule.pool),
    (s!"UpSampling{rank}D", Rule.upSampling), (s!"ZeroPadding{rank}D", Rule.zeroPadding)]

/-- The builders of all types of primitive layers. -/
def primitiveRules : List (String × RuleBuilder α) :=
  [("InputLayer", Rule.input), ("Dense", Rule.dense), ("Activation", Rule.activation),
    ("ReLU", Rule.relu), ("LeakyReLU", Rule.leakyRelu), ("Add", Rule.merge),
    ("Average", Rule.merge), ("BatchNormalization", Rule.batchNorm),
    ("Concatenate", Rule.concatenate), ("Flatten", Rule.passing), ("Reshape", Rule.passing)] ++
    ofRank 1 ++ ofRank 2 ++ ofRank 3

/-- The registry for all built-in layers, with wrapping as the fallback. -/
def standard : Registry α where
  builders := primitiveRules.map (fun (name, b) => (name, b.converter)) ++
    [("Functional", model), ("Sequential", model)]
  fallback := some (RuleBuilder.converter Rule.wrapping)
  warnings := []

end Registry
end Neuroform

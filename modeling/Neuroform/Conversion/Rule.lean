/-
  Neuroform — conversion rules.

  A rule is bound to one layer and converts its invocations one by one.  It
  names the options that must keep their defaults, some of them only in
  networks that may be trained, and may have further conditions.
-/
import Neuroform.Conversion.Workspace

namespace Neuroform

/-- An option and the value that is supported. -/
structure OptionDefault (α : Type) where
  name : String
  value : OptionValue α

/-- How the invocations of one layer are converted. -/
structure Rule (α : Type) where
  layer : LayerId
  /-- Options that must keep their defaults. -/
  fixedOptions : List (OptionDefault α)
  /-- Options that must keep their defaults in networks that may be trained. -/
  fixedInTraining : List (OptionDefault α)
  /-- Whether invocations share weights. -/
  hasWeights : Bool
  /-- Further conditions for a native conversion. -/
  eligible : Graph α → Layer α → Settings α → Except ConversionCause Unit
  /-- Builds the objects for an invocation and gives the view of its output. -/
  convert : Nat → Step (Workspace α) (Option View)

namespace Rule
variable {α : Type}

/-- A rule for all layers of a type, without weights. -/
def simple (layer : LayerId) (convert : InvocationId → Step (Workspace α) View) : Rule α where
  layer
  fixedOptions := []
  fixedInTraining := []
  hasWeights := false
  eligible _ _ _ := .ok ()
  convert i := some <$> convert ⟨layer, i⟩

variable [Scalar α]

/-- The first option of a layer that differs from its default. -/
def changed? (layer : Layer α) (defaults : List (OptionDefault α)) : Option (OptionDefault α) :=
  defaults.find? fun d => !((layer.kind.option d.name).getD .none).agrees d.value

/-- Refuses a layer for an option that differs from its default. -/
def checkOptions (layer : Layer α) (trainingOnly : Bool) (defaults : List (OptionDefault α)) :
    Except ConversionCause Unit :=
  match changed? layer defaults with
  | none => .ok ()
  | some d =>
    let value := (layer.kind.option d.name).getD .none
    .error (.unsupportedOption layer.name d.name value.text d.value.text trainingOnly)

/-- Whether a layer can be converted by a rule; the error says why not. -/
def convertible (r : Rule α) (g : Graph α) (layer : Layer α) (s : Settings α) :
    Except ConversionCause Unit := do
  r.eligible g layer s
  checkOptions layer false r.fixedOptions
  if !s.inferenceOnly then checkOptions layer true r.fixedInTraining

end Rule

/-- Regularizers and constraints, which must be missing in training. -/
def regularizers {α : Type} : List (OptionDefault α) :=
  ["kernel_regularizer", "bias_regularizer", "activity_regularizer", "kernel_constraint",
    "bias_constraint"].map (⟨·, .none⟩)

/-- Binds rules to layers; a layer of another kind is refused. -/
abbrev RuleBuilder (α : Type) := LayerId → Layer α → Outcome (Rule α)

/-- Refuses to bind a rule for `expected` layers to another one. -/
def ruleMismatch {α β : Type} [Scalar α] (expected : String) (layer : Layer α) : Outcome β :=
  refuse (SessionCause.ruleMismatch expected layer.text)

end Neuroform

/-
  Neuroform — named nonlinearities.

  All activations but softmax act on each value alone (`Activation.eval`);
  softmax normalises the last axis.
-/
import Neuroform.Grid
import Neuroform.Scalar
import Neuroform.Window.Pooling

namespace Neuroform

/-- A nonlinearity that layer configurations name. -/
inductive Activation where
  | linear
  | relu
  | sigmoid
  | tanh
  | elu
  | selu
  | softplus
  | softsign
  | softmax
  | swish
  | hardSigmoid
  | exponential
  | gelu
  deriving DecidableEq, Inhabited

namespace Activation

/-- The name of an activation in layer configurations. -/
def name : Activation → String
  | linear => "linear"
  | relu => "relu"
  | sigmoid => "sigmoid"
  | tanh => "tanh"
  | elu => "elu"
  | selu => "selu"
  | softplus => "softplus"
  | softsign => "softsign"
  | softmax => "softmax"
  | swish => "swish"
  | hardSigmoid => "hard_sigmoid"
  | exponential => "exponential"
  | gelu => "gelu"

/-- All activations. -/
def all : List Activation :=
  [linear, relu, sigmoid, tanh, elu, selu, softplus, softsign, softmax, swish, hardSigmoid,
    exponential, gelu]

/-- The activation of a name; swish has a second one. -/
def ofName (text : String) : Outcome Activation :=
  if text = "silu" then .ok swish
  else orRefuse (all.find? (·.name = text)) (LayerCause.unknownActivation text)

/-- Whether an activation acts on each value alone. -/
def isElementwise (a : Activation) : Bool := a ≠ softmax

end Activation

/-! ## Values -/

section
variable {α : Type} [Scalar α]

/-- The error function, by a polynomial in `1 / (1 + p |x|)` with an error below
    two units of the seventh place. -/
def errorFunction (x : α) : α :=
  let t := 1 / (1 + 0.3275911 * magnitude x)
  let poly := t * (0.2548296 + t * (-0.28449674 + t * (1.4214138 +
    t * (-1.4531521 + t * 1.0614054))))
  let y := magnitude (1 - poly * Elementary.exp (-x * x))
  if x < 0 then -y else y

/-- A number moved between zero and one. -/
def clampUnit (x : α) : α := if x < 0 then 0 else if 1 < x then 1 else x

/-- The logistic curve. -/
def logistic (x : α) : α := 1 / (1 + Elementary.exp (-x))

/-- The value of an activation at a number; softmax has none and gives the
    number itself. -/
def Activation.eval (a : Activation) (x : α) : α :=
  match a with
  | .linear | .softmax => x
  | .relu => larger x 0
  | .sigmoid => logistic x
  | .tanh => Elementary.tanh x
  | .elu => if 0 < x then x else Elementary.expm1 x
  | .selu =>
    if 0 < x then 1.050701 * x else 1.050701 * 1.6732632 * Elementary.expm1 x
  | .softplus => Elementary.log1p (Elementary.exp x)
  | .softsign => x / (1 + magnitude x)
  | .swish => x / (1 + Elementary.exp (-x))
  | .hardSigmoid => clampUnit (0.2 * x + 0.5)
  | .exponential => Elementary.exp x
  | .gelu => 0.5 * x * (1 + errorFunction (x / 1.4142135623730951))

/-- Exponentials of the values, divided by their sum; the largest value is
    subtracted first. -/
def softmax (values : List α) : List α :=
  let top := largest values
  let powers := values.map fun v => Elementary.exp (v - top)
  let sum := Elementary.arraySum 0 (· + ·) 1 [powers.length] powers
  powers.map (· / sum)

/-- Softmax along the last axis; a grid without axes is one value. -/
def softmaxGrid (g : Grid α) : Outcome (Grid α) := do
  let length := g.shape.getLast?.getD 1
  let normalised := (positions g.shape.dropLast).flatMap fun p =>
    softmax ((List.range length).map fun i => g.value (p ++ [i]))
  orFault (Grid.ofArray? g.shape normalised.toArray)

/-- An activation applied to a batch. -/
def Activation.apply (a : Activation) (g : Grid α) : Outcome (Grid α) :=
  match a with
  | .linear => .ok g
  | .softmax => softmaxGrid g
  | _ => .ok (g.map a.eval)

end
end Neuroform

/-
  Neuroform — the numbers that networks are computed with.

  Layers, transforms and neurons are written over any type with the operations
  of `Scalar`; no law is assumed of them.  Evaluation runs on numbers of 32
  bits (`Neuroform.Scalar.Single`).  The elementary functions are operations of
  their own, so that exact arithmetic can leave them uninterpreted.  So are the
  sums of arrays, because the array library adds up their values in an order of
  its own, which depends on where they are in memory.
-/
import Neuroform.Shape

namespace Neuroform

/-- Functions and constants beyond field arithmetic, and sums of arrays. -/
class Elementary (α : Type) where
  exp : α → α
  /-- `exp x - 1`, accurate near zero. -/
  expm1 : α → α
  /-- The logarithm of `1 + x`, accurate near zero. -/
  log1p : α → α
  tanh : α → α
  sqrt : α → α
  /-- The whole part of a number, zero for negative ones. -/
  wholePart : α → Nat
  /-- What a maximum starts from: negative infinity, if there is one. -/
  lowest : α
  /-- The sum of the values of an array, given in row-major order, whose
      neighbours lie `apart` places apart in memory. -/
  arraySum (zero : α) (add : α → α → α) (apart : Nat) (dims : List Nat) (values : List α) : α
  /-- The values are added up in some order. -/
  arraySum_eq_foldl : ∀ (zero : α) (add : α → α → α) (apart : Nat) (dims : List Nat)
    (values : List α), (∀ a, add zero a = a) → (∀ a b, add a b = add b a) →
    (∀ a b c, add (add a b) c = add a (add b c)) → values.length = volume dims →
    arraySum zero add apart dims values = values.foldl add zero

/-- The texts of a number: plain, as an option value, and rounded to two places
    in scientific notation. -/
class Printed (α : Type) where
  plain : α → String
  option : α → String
  brief : α → String

/-- The arithmetic of layers and neurons. -/
class Scalar (α : Type) extends Zero α, One α, Add α, Sub α, Mul α, Div α, Neg α, NatCast α,
    IntCast α, OfScientific α, LT α, LE α, BEq α, Elementary α, Printed α where
  decidableLT : DecidableLT α
  decidableLE : DecidableLE α

attribute [reducible, instance] Scalar.decidableLT Scalar.decidableLE

instance {α : Type} [Zero α] [One α] [Add α] [Sub α] [Mul α] [Div α] [Neg α] [NatCast α]
    [IntCast α] [OfScientific α] [LT α] [LE α] [BEq α] [Elementary α] [Printed α]
    [DecidableLT α] [DecidableLE α] : Scalar α where
  decidableLT := inferInstance
  decidableLE := inferInstance

section
variable {α : Type}

/-- The larger of two numbers; what is not equal to itself loses. -/
def larger [LT α] [DecidableLT α] [BEq α] (x y : α) : α :=
  if x < y then y else if x == x then x else y

/-- The absolute value. -/
def magnitude [Zero α] [Neg α] [LT α] [DecidableLT α] (x : α) : α :=
  if x < 0 then -x else x

/-- Whether a number is one of finite size: the difference with itself is
    zero. -/
def isFinite [Zero α] [Sub α] [BEq α] (x : α) : Bool := x - x == 0

/-- Whether a number differs from itself. -/
def isNaN [BEq α] (x : α) : Bool := !(x == x)

end

end Neuroform

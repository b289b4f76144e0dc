/-
  Neuroform — shapes whose dimensions may be unresolved.

  A tensor of a layered model has a batched shape: its first dimension counts
  the samples of a batch and is usually unresolved.  `volume` is the number of
  positions of a concrete list of dimensions.
-/
import Neuroform.Listing

namespace Neuroform

/-- The number of positions of a box with the given dimensions. -/
def volume (dims : List Nat) : Nat := dims.foldr (· * ·) 1

/-- The sum of some sizes. -/
def totalSize (sizes : List Nat) : Nat := sizes.foldr (· + ·) 0

/-- A static shape; `none` stands for a dimension that is not known. -/
structure Shape where
  dims : List (Option Nat)
  deriving DecidableEq, Inhabited

namespace Shape

/-- The shape with exactly the given dimensions. -/
def concrete (dims : List Nat) : Shape := ⟨dims.map some⟩

/-- The given dimensions behind an unresolved batch dimension. -/
def batched (dims : List Nat) : Shape := ⟨none :: dims.map some⟩

/-- The number of dimensions. -/
def rank (s : Shape) : Nat := s.dims.length

/-- Whether every dimension is known. -/
def isConcrete (s : Shape) : Bool := s.dims.all Option.isSome

/-- The dimensions, if all of them are known. -/
def concrete? (s : Shape) : Option (List Nat) := s.dims.mapM id

/-- The shape of one sample: all dimensions but the first. -/
def withoutBatch (s : Shape) : Shape := ⟨s.dims.tail⟩

/-- The shape behind the given batch dimension. -/
def withBatch (s : Shape) (batch : Option Nat) : Shape := ⟨batch :: s.dims⟩

/-- Whether an array of dimensions `dims` has this shape: an unresolved
    dimension matches any. -/
def matchesDims (s : Shape) (dims : List Nat) : Bool :=
  s.dims.length == dims.length &&
    (s.dims.zip dims).all fun (d, v) => d.all (· == v)

/-- The text of a shape, such as `(None, 4, 3)`. -/
def text (s : Shape) : String :=
  Listing.tuple (s.dims.map fun d => d.elim "None" toString)

end Shape
end Neuroform

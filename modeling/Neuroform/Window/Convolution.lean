/-
  Neuroform — convolution of one sample.

  A kernel has the axes of its window, then input channels, then filters.  At
  every tap of a window, the products of the values there with those of the
  kernel are added to the sums of the window, one for each filter; padding adds
  nothing.  The sums of all windows are kept in one array, in which a window has
  no entries before a tap of it, or of a later one, has been found.
-/
import Neuroform.Grid
import Neuroform.Window.Tap

namespace Neuroform

section
variable {α : Type} [Zero α] [Add α] [Mul α]

/-- Adds what is under a tap to the sums of its window, channel by channel. -/
def addTap (input kernel : Grid α) (channels filters : Nat) (sums : Array α) :
    Nat × List Nat × List Nat → Array α
  | (window, k, i) =>
    (List.range channels).foldl (fun sums c =>
      let x := input.value (i ++ [c])
      (List.range filters).foldl (fun sums f =>
        sums.modify (window * filters + f) (· + x * kernel.value (k ++ [c, f]))) sums)
      (grown sums ((window + 1) * filters) 0)

/-- The convolution of a sample whose last axis holds the channels. -/
def convolveLast (g : Geometry) (input kernel : Grid α) : Outcome (Grid α) := do
  let channels ← orRefuse input.shape.getLast? GridCause.convolutionRank
  let dims := input.shape.dropLast
  let spatial := dims.length
  g.check spatial
  require (kernel.rank = spatial + 2 ∧ kernel.shape.take spatial = g.kernel)
    (GridCause.kernelGeometry kernel.shape g)
  let expected := kernel.shape.getD spatial 0
  require (expected = channels) (GridCause.kernelInputs expected channels)
  let filters := kernel.shape.getD (spatial + 1) 0
  let axes ← g.axes dims
  requireTaps g.kernel axes
  let shape := outputDims axes ++ [filters]
  requireRoom valueBytes [← Word.product shape]
  let sums := (visits g.kernel axes).foldl (addTap input kernel channels filters) #[]
  Grid.arrange shape fun p => sums.getD (offset shape p) 0

/-- The convolution of a sample. -/
def convolve (l : Layout) (g : Geometry) (input kernel : Grid α) : Outcome (Grid α) :=
  input.throughLast l fun x => convolveLast g x kernel

end
end Neuroform

/-
  Neuroform — the taps of a sliding window.

  The window at output position `o` has one tap per kernel position `k`; on
  each axis the tap lies at `o * stride + k * dilation`, counted from the start
  of the padding.  `taps` are those that lie on a cell of the input.

  Whether a tap lies on the input is decided in signed words, axis by axis up to
  the first one where it does not.  A tap so far out that its distance from the
  input is no signed word is a fault (`requireTaps`).

  The taps of all windows are visited one after the other (`visits`), while the
  values of the windows are accumulated in arrays that grow (`grown`).
-/
import Neuroform.Grid
import Neuroform.Window.Axis

namespace Neuroform

/-- A padded axis with the steps of the window that slides over it. -/
structure SlidingAxis where
  padded : PaddedAxis
  stride : Nat
  dilation : Nat
  deriving DecidableEq

namespace SlidingAxis

/-- The coordinate of tap `k` of window `o`, counted from the start of the
    padding. -/
def reached (a : SlidingAxis) (o k : Nat) : Nat := o * a.stride + k * a.dilation

/-- The input coordinate under tap `k` of window `o`, if it is not padding. -/
def under? (a : SlidingAxis) (o k : Nat) : Option Nat :=
  if a.padded.before ≤ a.reached o k ∧ a.reached o k < a.padded.before + a.padded.input then
    some (a.reached o k - a.padded.before)
  else none

/-- Whether the distance of tap `k` of window `o` from the input falls short of
    the signed words.  Its coordinate is read as signed, so that a large one
    counts as negative. -/
def fallsShort (a : SlidingAxis) (o k : Nat) : Bool :=
  Word.signLimit ≤ a.reached o k && a.reached o k < Word.signLimit + a.padded.before

/-- Whether some tap of some window has a property; the window has `kernel`
    taps. -/
def anyTap (a : SlidingAxis) (kernel : Nat) (p : Nat → Nat → Bool) : Bool :=
  (List.range a.padded.output).any fun o => (List.range kernel).any fun k => p o k

/-- The coordinate of the last tap of the last window. -/
def lastReached (a : SlidingAxis) (kernel : Nat) : Nat :=
  a.reached (a.padded.output - 1) (kernel - 1)

end SlidingAxis

/-- The input position under tap `k` of window `o`, if no coordinate of it is
    padding. -/
def underAll? : List SlidingAxis → List Nat → List Nat → Option (List Nat)
  | a :: axes, o :: os, k :: ks => do
    let i ← a.under? o k
    let is ← underAll? axes os ks
    return i :: is
  | _, _, _ => some []

namespace Geometry

/-- Checks that a geometry is one for `spatial` axes and moves on each. -/
def check (g : Geometry) (spatial : Nat) : Outcome Unit := do
  require (g.kernel.length = spatial ∧ g.strides.length = spatial ∧ g.dilations.length = spatial)
    (GridCause.geometryRank g spatial)
  require (∀ s ∈ g.strides, 0 < s) GridCause.zeroStride

/-- The axes of an input with spatial dimensions `dims`. -/
def axes (g : Geometry) (dims : List Nat) : Outcome (List SlidingAxis) := do
  let padded ← g.padding.axes dims g.kernel g.dilations g.strides
  return padded.zipWith (fun p (stride, dilation) => ⟨p, stride, dilation⟩)
    (g.strides.zip g.dilations)

end Geometry

/-- Whether some tap falls short on an axis, while it lies on the input on all
    axes before. -/
def someFallsShort : List SlidingAxis → List Nat → Bool
  | a :: axes, kernel :: kernels =>
    (Word.signLimit ≤ a.lastReached kernel && a.anyTap kernel a.fallsShort) ||
      (a.anyTap kernel (fun o k => (a.under? o k).isSome) && someFallsShort axes kernels)
  | _, _ => false

/-- Checks that signed words tell of all taps whether they lie on the input. -/
def requireTaps (kernel : List Nat) (axes : List SlidingAxis) : Outcome Unit :=
  if axes.all (0 < ·.padded.output) ∧ someFallsShort axes kernel then fault else .ok ()

/-- The spatial dimensions of the output. -/
def outputDims (axes : List SlidingAxis) : List Nat := axes.map fun a => a.padded.output

/-- The taps of the window at `o` that lie on the input: kernel position and
    input position, in row-major order of the kernel. -/
def taps (kernel : List Nat) (axes : List SlidingAxis) (o : List Nat) :
    List (List Nat × List Nat) :=
  (positions kernel).filterMap fun k => (underAll? axes o k).map (k, ·)

/-- The taps of all windows that lie on the input, window by window: the number
    of the window, kernel position and input position. -/
def visits (kernel : List Nat) (axes : List SlidingAxis) : List (Nat × List Nat × List Nat) :=
  (positions (outputDims axes)).zipIdx.flatMap fun (o, window) =>
    (taps kernel axes o).map (window, ·)

/-- An array with at least `size` entries; new ones are `a`. -/
def grown {α : Type} (xs : Array α) (size : Nat) (a : α) : Array α :=
  xs ++ Array.replicate (size - xs.size) a

end Neuroform

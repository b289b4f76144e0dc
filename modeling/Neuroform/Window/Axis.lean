/-
  Neuroform — one axis under a sliding window.

  From the length of an axis and the window that slides over it follow the
  number of window positions and the cells that are added before and after
  (`PaddedAxis`).  Lengths are words; a window without taps, a stride of zero
  and lengths beyond the words are faults.
-/
import Neuroform.Word

namespace Neuroform

/-- One axis under a sliding window: its length, the number of window
    positions, and the padding cells before and after it. -/
structure PaddedAxis where
  input : Nat
  output : Nat
  before : Nat
  after : Nat
  deriving DecidableEq, Inhabited

/-- Division that counts a started step as a whole one. -/
def ceilDiv (n step : Nat) : Nat := n / step + if n % step = 0 then 0 else 1

/-- The number of cells from the first tap of a window to its last. -/
def windowReach (kernel dilation : Nat) : Outcome Nat :=
  if kernel = 0 then fault else Word.ofNat ((kernel - 1) * dilation + 1)

namespace Padding

/-- The window positions and padding of one axis.  In mode `same` an odd
    padding cell goes after the input. -/
def axis (p : Padding) (input kernel dilation stride : Nat) : Outcome PaddedAxis := do
  let reach ← windowReach kernel dilation
  if stride = 0 then fault else
  match p with
  | valid =>
    let starts := (← Word.ofNat (input + 1)) - reach
    return ⟨input, ceilDiv starts stride, 0, 0⟩
  | same =>
    let output := ceilDiv input stride
    let pad := (← Word.ofNat ((max output 1 - 1) * stride + reach)) - input
    return ⟨input, output, pad / 2, pad - pad / 2⟩

/-- The windows on every axis; an axis without kernel size, dilation or stride
    is a fault. -/
def axes (p : Padding) : List Nat → List Nat → List Nat → List Nat → Outcome (List PaddedAxis)
  | [], _, _, _ => .ok []
  | input :: inputs, kernel :: kernels, dilation :: dilations, stride :: strides => do
    let first ← p.axis input kernel dilation stride
    return first :: (← p.axes inputs kernels dilations strides)
  | _ :: _, _, _, _ => fault

/-- The number of window positions along an axis; nothing is known of an axis
    of unknown length, and a missing entry is a fault. -/
def outputLength (p : Padding) (length kernel dilation stride : Option Nat) :
    Outcome (Option Nat) :=
  match length with
  | none => .ok none
  | some d => do
    return some (← p.axis d (← orFault kernel) (← orFault dilation) (← orFault stride)).output

end Padding
end Neuroform

/-
  Neuroform — windows sliding over an axis.

  A window of `kernel` taps, `dilation` apart, slides over an axis in steps of
  `stride`.  `Padding` says whether windows may reach over the ends of the
  axis, and `Geometry` holds the windows of all axes.
-/
import Neuroform.Listing

namespace Neuroform

/-- Whether windows stay inside the input (`valid`) or cover it in full steps
    (`same`). -/
inductive Padding where
  | valid
  | same
  deriving DecidableEq, Inhabited

namespace Padding

/-- The name of a padding mode in layer options. -/
def name : Padding → String
  | valid => "valid"
  | same => "same"

end Padding

/-- The windows of a convolution or pooling: taps, steps and dilations per
    spatial axis. -/
structure Geometry where
  kernel : List Nat
  strides : List Nat
  dilations : List Nat
  padding : Padding
  deriving DecidableEq, Inhabited

/-- The text of a geometry. -/
def Geometry.text (g : Geometry) : String :=
  let padding := match g.padding with
    | .valid => "Valid"
    | .same => "Same"
  "Geometry \x7b kernel: " ++ Listing.sizes g.kernel ++ ", strides: " ++ Listing.sizes g.strides ++
    ", dilations: " ++ Listing.sizes g.dilations ++ ", padding: " ++ padding ++ " \x7d"

end Neuroform

/-
  Neuroform — conversion of up-sampling and zero padding.

  Both only move values: up-sampling reads each input place many times
  (`gatherPlaces`), padding writes the input to the interior of the output
  (`interiorPlaces`).
-/
import Neuroform.Conversion.Rule

namespace Neuroform

/-! ## Up-sampling -/

/-- The position that an up-sampled position repeats. -/
def repeatedPosition (l : Layout) (size : List Nat) (p : List Nat) : List Nat :=
  let q := l.toLast p
  l.fromLast (List.zipWith (· / ·) q.dropLast size ++ q.getLast?.toList)

/-- The dimensions of up-sampled samples. -/
def upSampledDims (l : Layout) (size : List Nat) (dims : List Nat) : List Nat :=
  let d := l.toLast dims
  l.fromLast (List.zipWith (· * ·) d.dropLast size ++ d.getLast?.toList)

/-- The input place that each output place of an up-sampling reads. -/
def gatherPlaces (l : Layout) (size : List Nat) (dims : List Nat) : Outcome (List Nat) := do
  l.requireSpatial dims.length size.length (SessionCause.upsampledInput size.length dims)
  requireRoom placeBytes (upSampledDims l size dims)
  requireRoom placeBytes dims
  return (positions (upSampledDims l size dims)).map fun p =>
    offset dims (repeatedPosition l size p)

/-! ## Zero padding -/

/-- The interval between padding cells of an axis. -/
def interiorInterval (axis : Nat) (d : Nat) (pads : Nat × Nat) : Outcome Interval := do
  require ((← Word.ofNat (pads.1 + pads.2)) ≤ d) (SessionCause.paddingExceeds axis)
  return ⟨pads.1, d - pads.2⟩

/-- The output places of a padded sample that hold its input. -/
def interiorPlaces (l : Layout) (padding : List (Nat × Nat)) (dims : List Nat) :
    Outcome (List Nat) := do
  l.requireSpatial dims.length padding.length (SessionCause.paddedOutput padding.length dims)
  let first := (l.spatialAxes dims.length).1
  let intervals ← ((l.spatial dims).zip padding).zipIdx.mapM fun ((d, pads), i) =>
    interiorInterval (first + i) d pads
  let channels := (l.channel? dims).toList.map fun d => (⟨0, d⟩ : Interval)
  selectBox dims (l.fromLast (intervals ++ channels))

/-! ## Rules -/

namespace Rule

open Workspace

variable {α : Type} [Scalar α]

/-- A passthrough node reads the repeated places of the input. -/
def convertUpSampling (u : UpSampling) (i : InvocationId) : Step (Workspace α) View := do
  let places ← gatherPlaces u.layout u.size (← (← get).inputDims i)
  let output ← buildTarget i none none
  let input ← (← (← get).inputView i 0).slice places
  let _ ← connect input output .identity (some false)
  return output

/-- The rule for up-sampling, which must repeat the nearest value. -/
def upSampling : RuleBuilder α := fun l layer =>
  match layer.kind with
  | .primitive (.upSampling op) =>
    .ok { simple l (convertUpSampling op) with
      fixedOptions := if op.rank = 2 then [⟨"interpolation", .str "nearest"⟩] else [] }
  | _ => ruleMismatch "UpSampling" layer

/-- The input fills the interior of a passthrough node; nothing reaches the
    border. -/
def convertZeroPadding (z : ZeroPadding) (i : InvocationId) : Step (Workspace α) View := do
  let places ← interiorPlaces z.layout z.padding (← (← get).outputDims i)
  let output ← buildTarget i none none
  let _ ← wireInput i (← output.slice places) 0 false .identity
  return output

/-- The rule for zero padding. -/
def zeroPadding : RuleBuilder α := fun l layer =>
  match layer.kind with
  | .primitive (.zeroPadding op) => .ok (simple l (convertZeroPadding op))
  | _ => ruleMismatch "ZeroPadding" layer

end Rule
end Neuroform

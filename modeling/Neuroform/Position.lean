/-
  Neuroform — positions in a box and their row-major order.

  A box with dimensions `dims` has the positions `positions dims`, one
  coordinate per axis, the last axis running fastest.  `offset` is a position's
  place in that order, `selectBox` the places of a sub-box.  Boxes that memory
  cannot hold are faults (`requireRoom`).
-/
import Neuroform.Word

namespace Neuroform

/-- All positions of a box in row-major order.  An empty box has none, however
    long its other axes are. -/
def positions : List Nat → List (List Nat)
  | [] => [[]]
  | d :: ds =>
    if volume (d :: ds) = 0 then []
    else
      let rest := positions ds
      (List.range d).flatMap fun i => rest.map (i :: ·)

theorem length_positions (dims : List Nat) : (positions dims).length = volume dims := by
  induction dims with
  | nil => rfl
  | cons d ds ih =>
    rw [positions]
    split
    case isTrue h => exact h.symm
    case isFalse => simp [List.length_flatMap, List.map_const', ih, volume]

/-- Empty boxes are no exception to the row-major order. -/
theorem positions_cons (d : Nat) (ds : List Nat) :
    positions (d :: ds) = (List.range d).flatMap fun i => (positions ds).map (i :: ·) := by
  rw [positions]
  split
  case isTrue h =>
    refine (List.eq_nil_of_length_eq_zero ?_).symm
    simpa [List.length_flatMap, List.map_const', length_positions, volume] using h
  case isFalse => rfl

/-- The place of a position in row-major order. -/
def offset : List Nat → List Nat → Nat
  | _ :: ds, i :: is => i * volume ds + offset ds is
  | _, _ => 0

/-- How far apart neighbours on each axis are in row-major order. -/
def rowMajorStrides : List Nat → List Nat
  | [] => []
  | _ :: ds => volume ds :: rowMajorStrides ds

/-- The distances of neighbours as words. -/
def wordStrides (dims : List Nat) : Outcome (List Nat) := (rowMajorStrides dims).mapM Word.ofNat

/-- Whether the product of the lengths, empty axes left out, is a signed word:
    other boxes are not the shape of any array. -/
def addressable (dims : List Nat) : Bool := volume (dims.filter (0 < ·)) < Word.signLimit

/-- Checks that memory can hold `bytes` bytes for every position of a box. -/
def requireRoom (bytes : Nat) (dims : List Nat) : Outcome Unit :=
  if addressable dims ∧ volume dims * bytes < Word.signLimit then .ok () else fault

/-- The bytes of a place. -/
abbrev placeBytes : Nat := 8

/-- The bytes of a value. -/
abbrev valueBytes : Nat := 4

/-- All places of a box, in order. -/
def places (dims : List Nat) : Outcome (List Nat) := do
  requireRoom placeBytes dims
  return List.range (volume dims)

/-- Whether a position lies in a box. -/
def inBox : List Nat → List Nat → Bool
  | [], [] => true
  | d :: ds, i :: is => i < d && inBox ds is
  | _, _ => false

/-- The number of positions in an interval. -/
def Interval.length (r : Interval) : Nat := r.stop - r.start

/-- All positions of the box spanned by one interval per axis, in row-major
    order: those of a box of their lengths, moved to their starts. -/
def Interval.positions (ranges : List Interval) : List (List Nat) :=
  (Neuroform.positions (ranges.map Interval.length)).map
    (List.zipWith (· + ·) (ranges.map Interval.start))

/-- Checks that each interval lies on its axis, the axes counted from `axis`. -/
def checkIntervals (axis : Nat) : List Nat → List Interval → Outcome Unit
  | d :: ds, r :: rs => do
    require (r.start ≤ r.stop ∧ r.stop ≤ d) (GridCause.rangeBounds r axis d)
    checkIntervals (axis + 1) ds rs
  | _, _ => .ok ()

/-- The places of the sub-box of `dims` spanned by `ranges`, in row-major
    order. -/
def selectBox (dims : List Nat) (ranges : List Interval) : Outcome (List Nat) := do
  require (dims.length = ranges.length) (GridCause.rangeCount ranges.length dims.length)
  checkIntervals 0 dims ranges
  requireRoom placeBytes dims
  return (Interval.positions ranges).map (offset dims)

/-- The axis that a possibly negative number names; negative numbers count
    from the end. -/
def axisIndex (axis : Int) (rank : Nat) : Outcome Nat := do
  let resolved ← if axis < 0 then Word.ofInt (axis + Word.signed rank) else pure axis
  require (0 ≤ resolved ∧ resolved < rank) (GridCause.axisRange axis rank)
  return resolved.toNat

/-- The dimensions of a shape, which must all be known. -/
def Shape.requireConcrete (s : Shape) : Outcome (List Nat) :=
  orRefuse s.concrete? (GridCause.unresolved s)

/-- The number of positions of a shape, if every dimension is known.  The
    product is taken up to the first dimension that is not. -/
def Shape.volume? (s : Shape) : Outcome (Option Nat) := do
  let known ← Word.product ((s.dims.takeWhile Option.isSome).filterMap id)
  return if s.isConcrete then some known else none

end Neuroform

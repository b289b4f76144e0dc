/-
  Neuroform — the order in which the objects of a network are evaluated.

  An object is ready once all objects that it reads from are ordered.  Ready
  objects wait in a queue; each is taken from it once, so there are at most as
  many steps as objects.  Objects on a circle of connections, or behind one,
  are never ready.
-/
import Neuroform.Network.Basic

namespace Neuroform

/-- The state of ordering: the objects ordered so far, the ready ones, and for
    each object the number of connections into it from others that are not
    ordered. -/
structure Schedule where
  order : List ObjectId
  ready : List ObjectId
  pending : Array Nat

namespace Schedule

/-- Counts off a connection into an object; after the last one it is ready. -/
def release (s : Schedule) (o : ObjectId) : Schedule :=
  let pending := s.pending.getD o.index 0 - 1
  { s with
    pending := s.pending.setIfInBounds o.index pending
    ready := if pending = 0 then s.ready ++ [o] else s.ready }

end Schedule

namespace Network
variable {α : Type}

/-- The objects that read from an object, once per connection. -/
def successors (n : Network α) (o : ObjectId) : List ObjectId :=
  (n.connectionsFrom o).map (·.2.post.object)

/-- The schedule before the first object is ordered. -/
def initialSchedule (n : Network α) : Schedule :=
  let objects := (List.range n.objects.size).map ObjectId.mk
  let pending := objects.map fun o => (n.connectionsInto o).length
  ⟨[], objects.filter fun o => pending.getD o.index 0 = 0, pending.toArray⟩

/-- Orders up to `steps` more objects. -/
def advance (n : Network α) : Nat → Schedule → Schedule
  | 0, s => s
  | steps + 1, s =>
    match s.ready with
    | [] => s
    | o :: ready =>
      n.advance steps
        ((n.successors o).foldl Schedule.release { s with order := s.order ++ [o], ready })

/-- The objects of a network, each after those that it reads from. -/
def order (n : Network α) : Outcome (List ObjectId) := do
  let s := n.advance n.objects.size n.initialSchedule
  if s.order.length = n.objects.size then return s.order
  else
    let stuck ← orFault (s.pending.findIdx? (0 < ·))
    refuse (NetworkCause.recurrent n.label (← n.object ⟨stuck⟩).text)

end Network
end Neuroform

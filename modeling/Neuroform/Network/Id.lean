/-
  Neuroform — names of the parts of a network.
-/

namespace Neuroform

/-- An object of a network. -/
structure ObjectId where
  index : Nat
  deriving DecidableEq, Inhabited

/-- A connection of a network. -/
structure ConnectionId where
  index : Nat
  deriving DecidableEq, Inhabited

/-- A probe of a network. -/
structure ProbeId where
  index : Nat
  deriving DecidableEq, Inhabited

/-- The text of an object's name. -/
def ObjectId.text (o : ObjectId) : String := s!"obj#{o.index}"

/-- The text of a connection's name. -/
def ConnectionId.text (c : ConnectionId) : String := s!"conn#{c.index}"

/-- The text of a probe's name. -/
def ProbeId.text (p : ProbeId) : String := s!"probe#{p.index}"

end Neuroform

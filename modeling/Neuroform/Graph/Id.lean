/-
  Neuroform — names of the parts of a layered model.

  Layers and tensors live in an arena and are named by their place in it.
-/

namespace Neuroform

/-- A layer of a graph. -/
structure LayerId where
  index : Nat
  deriving DecidableEq, Inhabited

/-- A tensor of a graph. -/
structure TensorId where
  index : Nat
  deriving DecidableEq, Inhabited

/-- The text of a layer's name. -/
def LayerId.text (l : LayerId) : String := s!"layer#{l.index}"

/-- The text of a tensor's name. -/
def TensorId.text (t : TensorId) : String := s!"tensor#{t.index}"

/-- One application of a layer, counted per layer. -/
structure InvocationId where
  layer : LayerId
  invocation : Nat
  deriving DecidableEq, Inhabited

/-- Where a tensor comes from: an output of an invocation of a layer. -/
structure Provenance where
  layer : LayerId
  invocation : Nat
  output : Nat
  deriving DecidableEq, Inhabited

/-- The invocation that a tensor comes from. -/
def Provenance.source (p : Provenance) : InvocationId := ⟨p.layer, p.invocation⟩

end Neuroform

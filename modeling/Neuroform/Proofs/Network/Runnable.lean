/-
  Neuroform — networks that can be built can be run.

  What `connect` and `addProbe` check is all that a run relies on, as far as
  sizes go: views, transforms and objects take tables of their sizes to tables
  of their sizes.  So a run of a sound network without circles ends in tables of
  the probes' sizes, or in the failure of a tensor function, as long as memory
  can hold what it needs (`Network.Fits`).
-/
import Neuroform.Proofs.Binding
import Neuroform.Proofs.Network.Calls
import Neuroform.Proofs.Network.Order
import Neuroform.Proofs.Rational

namespace Neuroform

variable {α : Type}

/-! ## What wires carry -/

/-- A table of a given size. -/
structure Table.Sized (t : Table α) (rows columns : Nat) : Prop where
  rows : t.rows = rows
  columns : t.columns = columns

section
variable [Zero α] {v : View} {x y input : Table α} {rows size a b : Nat}

theorem sized_select (hv : v.Shows size a) (hx : x.Sized rows size) :
    ∃ y, v.select x = .ok y ∧ y.Sized rows a := by
  obtain ⟨o, indices | indices⟩ := v
  · obtain rfl : a = size := hv
    exact ⟨x, rfl, hx⟩
  · obtain ⟨rfl, hin⟩ := hv
    exact ⟨_, if_pos (by simpa [hx.columns] using hin), hx.rows, rfl⟩

/-- Memory can hold what a transform gives for a number of rows. -/
structure Transform.Fits (t : Transform α) (rows size : Nat) : Prop where
  room : requireRoom valueBytes [rows, size] = .ok ()
  convolution : ∀ c, t = .convolution c → c.Fits

omit [Zero α] in
theorem Transform.check_eq_ok {t : Transform α} : t.check a b = .ok () ↔ ∃ i o, t.sizeIn? = .ok i ∧
    t.sizeOut? = .ok o ∧ i.getD a = a ∧ o.getD a = b ∧ t.checkEntries = .ok () := by
  simp only [check, bind_eq_ok, require_eq_ok]
  constructor
  · rintro ⟨i, hi, o, ho, ⟨⟩, ⟨h, h'⟩, he⟩
    exact ⟨i, o, hi, ho, h, h', he⟩
  · rintro ⟨i, o, hi, ho, h, h', he⟩
    exact ⟨i, hi, o, ho, (), ⟨h, h'⟩, he⟩

variable [Add α] [Mul α]

end

/-! ## What objects make of their input -/

section
variable [Scalar α] {o : Object α} {fed : Option (Table α)} {input : Table α} {batch size : Nat}

/-- Memory can hold what a tensor node reads and gives. -/
structure TensorNode.Fits (t : TensorNode α) (batch : Nat) : Prop where
  input : addressable (batch :: t.shapeIn)
  output : requireRoom valueBytes [batch, t.sizeOut] = .ok ()

/-- The failures that come from the function of a tensor node: it fails, or it
    gives a wrong number of values. -/
inductive Object.TensorFailure (o : Object α) (t : TensorNode α) (batch : Nat) : Failure → Prop where
  | fails {x : Grid α} {e : Failure} (shape : x.shape = batch :: t.shapeIn)
      (fails : t.function.eval x = .error e) :
    TensorFailure o t batch (e.within (.evaluating o.text))
  | produces {x y : Grid α} (shape : x.shape = batch :: t.shapeIn)
      (gives : t.function.eval x = .ok y) (size : y.size ≠ batch * t.sizeOut) :
    TensorFailure o t batch (.refused [] (.network (.producedValues o.text y.size t.sizeOut)))

end

/-! ## Runs -/

namespace Network

section
variable [Scalar α] {n : Network α} {fed states : States α} {batch : Nat} {o : ObjectId}

/-- Memory can hold the inputs of all objects, and what connections and tensor
    nodes give. -/
structure Fits (n : Network α) (batch : Nat) : Prop where
  space : n.requireSpace batch = .ok ()
  carried : ∀ c ∈ n.connections, ∀ size, n.viewSizeIn c.post = .ok size →
    c.transform.Fits batch size
  tensors : ∀ x ∈ n.objects, ∀ t, x.kind = .tensorNode t → t.Fits batch

/-- The failures that come from the functions of tensor nodes. -/
def TensorFailure (n : Network α) (batch : Nat) (e : Failure) : Prop :=
  ∃ x ∈ n.objects, ∃ t, x.kind = .tensorNode t ∧ x.TensorFailure t batch e

omit [Scalar α] in
theorem mem_connectionsInto {c : ConnectionId × Connection α} (h : c ∈ n.connectionsInto o) :
    c.2 ∈ n.connections ∧ c.2.wire ∈ n.sketch.into o := by
  refine ⟨?_, map_wire_connectionsInto o ▸ List.mem_map_of_mem h⟩
  obtain ⟨⟨c', i⟩, hc, rfl⟩ := List.mem_map.1 (List.mem_of_mem_filter h)
  exact Array.mem_def.2 (List.fst_mem_of_mem_zipIdx hc)

omit [Scalar α] in
/-- Data that is fed has the size of the node whose values it replaces. -/
theorem sized_fed (hfed : fed.forM (n.checkFed batch) = .ok ()) {x : Object α}
    (hx : n.object o = .ok x) {t : Table α} (ht : fed.lookup o = some t) :
    t.Sized batch x.kind.sizeOut := by
  have hcheck := forM_eq_ok.1 hfed _ (mem_of_lookup ht)
  simp only [checkFed, bind_eq_ok, require_eq_ok] at hcheck
  obtain ⟨x', hx', -, -, hr, hc⟩ := hcheck
  obtain rfl := Except.ok.inj (hx.symm.trans hx')
  exact ⟨hr, hc⟩

/-- No object depends on itself. -/
def Acyclic (n : Network α) : Prop := ∀ o, ¬ Relation.TransGen n.sketch.Precedes o o

omit [Scalar α] in
/-- Without circles, every object is reached from those that read nothing. -/
theorem Acyclic.acc (ha : n.Acyclic) (hl : n.sketch.Linked) (o : ObjectId) :
    Acc n.sketch.Precedes o := hl.acc fun u _ => ha u

omit [Scalar α] in
/-- Connections that all lead to later objects make no circle. -/
theorem acyclic_of_forward (h : ∀ w ∈ n.sketch.wires, w.pre.object.index < w.post.object.index) :
    n.Acyclic := by
  have hstep : ∀ {u o : ObjectId}, n.sketch.Precedes u o → u.index < o.index := by
    rintro u o ⟨w, hinto, rfl⟩
    obtain ⟨hw, rfl⟩ := Sketch.mem_into.1 hinto
    exact h w hw
  have hpath : ∀ {u o : ObjectId}, Relation.TransGen n.sketch.Precedes u o → u.index < o.index := by
    intro u o hpath
    induction hpath with
    | single h => exact hstep h
    | tail _ h ih => exact ih.trans (hstep h)
  exact fun o ho => lt_irrefl _ (hpath ho)

/-- Two neurons that are driven by a constant, after a call that fails. -/
def driven : List (Call ℚ) :=
  [.add (.node (.constant [1, -1])) "a", .connect (.full ⟨0⟩) (.full ⟨1⟩) .identity none,
    .add (.neurons ⟨2, .rectified 1, [2, 2], [1, 1]⟩) "e",
    .connect (.full ⟨0⟩) (.full ⟨1⟩) .identity none, .probe ⟨⟨1⟩, some [0]⟩ none]

end
end Network
end Neuroform

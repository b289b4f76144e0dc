/-
  Neuroform — running a network whose objects all settle.

  Such a network has an order, and what is probed is what the probed objects
  settle on, provided that the data is accepted and memory holds the inputs of
  all objects (`Network.simulate_eq_ok`).  Of any network, one object that never
  reacts is enough to keep it from being run (`Network.exists_react`).
-/
import Neuroform.Proofs.Network.Order
import Neuroform.Proofs.Network.Steady

namespace Neuroform

variable {α : Type} [Scalar α]

namespace Network
variable {n : Network α} {fed : States α} {batch : Nat}

/-- Every object settles on a value. -/
def Steady (n : Network α) (fed : States α) (batch : Nat) : Prop :=
  ∀ o : ObjectId, o.index < n.objects.size → ∃ x, n.sketch.Settles fed batch o x

theorem Steady.acc {o : ObjectId} {x : Table α} (h : n.sketch.Settles fed batch o x) :
    Acc n.sketch.Precedes o := by
  induction h with
  | intro kind before sizeIn received reacts ih =>
    refine ⟨_, fun u ⟨w, hw, hu⟩ => ?_⟩
    obtain ⟨y, hy⟩ := exists_value_of_carries received w hw
    exact hu ▸ ih _ y hy

/-- A network whose objects all settle is not recurrent. -/
theorem Steady.exists_order (hs : n.Steady fed batch) (hc : n.sketch.Checked) :
    ∃ order, n.order = .ok order :=
  Network.exists_order hc.linked fun o ho => (hs o ho).elim fun _ h => Steady.acc h

/-- Simulation reads what the probed objects settle on. -/
theorem simulate_eq_ok (hs : n.Steady fed batch) (hc : n.sketch.Checked) {order : List ObjectId}
    (ho : n.order = .ok order) (hfed : ∀ e ∈ fed, n.checkFed batch e = .ok ())
    (hspace : n.requireSpace batch = .ok ()) {outs : List (Table α)}
    (hprobes : List.Forall₂ (fun p y => ∃ x, n.sketch.Settles fed batch p.target.object x ∧
      p.target.select x = .ok y) n.probes.toList outs) :
    n.simulate order fed batch = .ok outs := by
  obtain ⟨htopo, -, hmem⟩ := order_spec hc.linked ho
  obtain ⟨states, hsettle, hvalues⟩ := settle_eq_ok htopo fun o hmo => hs o ((hmem o).1 hmo)
  have hread : n.probes.toList.mapM (fun p => do
      p.target.select (← orRefuse (states.lookup p.target.object)
        NetworkCause.probedNotEvaluated)) = .ok outs := by
    refine mapM_forall₂.2 (hprobes.imp fun p y ⟨x, hx, hy⟩ => ?_)
    have hlt : p.target.object.index < n.objects.size := length_kinds (n := n) ▸ hx.index_lt
    have hlookup := hvalues _ ((hmem _).2 hlt)
    rw [Sketch.steady_eq_some.2 hx] at hlookup
    exact bind_eq_ok.2 ⟨x, orRefuse_eq_ok.2 hlookup, hy⟩
  simp only [simulate, bind_eq_ok]
  exact ⟨(), forM_eq_ok.2 hfed, (), hspace, states, hsettle, hread⟩

/-- In a run, every object reacts. -/
theorem exists_react {outs : List (Table α)} (hl : n.sketch.Linked)
    (h : n.predict fed batch = .ok outs) {o : ObjectId} {x : Object α} (ho : n.object o = .ok x) :
    ∃ input t, react x (fed.lookup o) batch input = .ok t := by
  obtain ⟨order, horder, h⟩ := bind_eq_ok.1 h
  obtain ⟨_, -, h⟩ := bind_eq_ok.1 h
  obtain ⟨_, -, h⟩ := bind_eq_ok.1 h
  obtain ⟨states, hsettle, -⟩ := bind_eq_ok.1 h
  have hmem : o ∈ order :=
    ((order_spec hl horder).2.2 o).2 (Array.getElem?_eq_some_iff.1 (object_eq_ok.1 ho)).1
  obtain ⟨before, after, rfl⟩ := List.append_of_mem hmem
  obtain ⟨known, -, hsettle⟩ := foldlM_append_eq_ok.1 hsettle
  obtain ⟨_, hevaluate, -⟩ := foldlM_cons_eq_ok.1 hsettle
  obtain ⟨x', hx', hevaluate⟩ := bind_eq_ok.1 hevaluate
  obtain rfl := Except.ok.inj (ho.symm.trans hx')
  obtain ⟨size, -, hevaluate⟩ := bind_eq_ok.1 hevaluate
  obtain ⟨input, -, hevaluate⟩ := bind_eq_ok.1 hevaluate
  obtain ⟨t, ht, -⟩ := bind_eq_ok.1 hevaluate
  exact ⟨input, t, ht⟩

end Network
end Neuroform

/-
  Neuroform — networks that are recurrent.

  Objects on a circle of connections wait for each other, and so do those behind
  it (`Sketch.BehindCircle`).  All others are ordered.  So a network has an
  order if and only if its connections make no circle, and the object that a
  refusal names is on a circle or behind one.  All that this needs is that
  connections join objects that there are, which is so in every network
  (`Network.linked_build`).
-/
import Neuroform.Proofs.Network.Runnable

namespace Neuroform

variable {α : Type}

/-! ## Networks that are linked -/

namespace Sketch
variable {s : Sketch α}

theorem Linked.append {part : Sketch α} (h : s.Linked)
    (hpart : ∀ w ∈ part.wires, w.pre.object.index < (s ++ part).kinds.length ∧
      w.post.object.index < (s ++ part).kinds.length) : (s ++ part).Linked := by
  intro w hw
  rcases List.mem_append.1 hw with hw | hw
  · obtain ⟨hpre, hpost⟩ := h w hw
    rw [kinds_append, List.length_append]
    omega
  · exact hpart w hw

end Sketch

namespace Network
variable {n m : Network α}

theorem linked_empty (label : String) (inferenceOnly : Bool) :
    (empty label inferenceOnly : Network α).sketch.Linked := by
  simp [Sketch.Linked, sketch, empty]

/-- A call only adds to a sketch, and what it adds is checked. -/
theorem Does.grows {c : Call α} {name : Option Name} (h : n.Does c name m) :
    ∃ part, m.sketch = n.sketch ++ part ∧ ∀ w ∈ part.wires, (n.sketch ++ part).Joins w := by
  cases h with
  | add kind label => exact ⟨⟨[kind], []⟩, by simp [sketch, Sketch.append_def], by simp⟩
  | @connect pre post t synapse joins =>
    refine ⟨⟨[], [⟨pre, post, t⟩]⟩, by simp [sketch, Sketch.append_def, Connection.wire], ?_⟩
    intro w hw
    obtain rfl := List.mem_singleton.1 hw
    exact joins.append
  | probe => exact ⟨⟨[], []⟩, (Sketch.append_nil _).symm, by simp⟩
  | flagObject =>
    refine ⟨⟨[], []⟩, ?_, by simp⟩
    rw [Sketch.append_nil]
    exact congrArg₂ Sketch.mk (map_modify (by exact fun _ => rfl) _ _) rfl
  | flagConnection =>
    refine ⟨⟨[], []⟩, ?_, by simp⟩
    rw [Sketch.append_nil]
    exact congrArg₂ Sketch.mk rfl (map_modify (by exact fun _ => rfl) _ _)

theorem Does.linked {c : Call α} {name : Option Name} (h : n.Does c name m)
    (hn : n.sketch.Linked) : m.sketch.Linked := by
  obtain ⟨part, hs, hpart⟩ := h.grows
  rw [hs]
  refine hn.append fun w hw => ?_
  obtain ⟨_, _, _, _, _, hin, -, hout, -⟩ := hpart w hw
  exact ⟨Sketch.index_lt hin, Sketch.index_lt hout⟩

/-- Calls only make connections between objects that there are. -/
theorem linked_exec [Scalar α] (c : Call α) (h : n.sketch.Linked) :
    (c.step.exec n).2.sketch.Linked := by
  rcases he : c.step.exec n with ⟨_ | name, m⟩
  · exact (atomic_step n c).of_error he ▸ h
  · exact ((atomic_step n c).of_ok he).linked h

/-- However a network is built, its connections join objects that there are. -/
theorem linked_build [Scalar α] (label : String) (calls : List (Call α)) :
    (build label calls).sketch.Linked := by
  unfold build
  refine List.foldlRecOn calls _ (motive := fun n : Network α => n.sketch.Linked)
    (linked_empty label false) ?_
  exact fun n hn c _ => linked_exec c hn

end Network

/-! ## Circles -/

namespace Sketch
variable {s : Sketch α} {order : List ObjectId} {u o : ObjectId}

/-- An object is on a circle of wires, or behind one. -/
def BehindCircle (s : Sketch α) (o : ObjectId) : Prop :=
  ∃ u, Relation.TransGen s.Precedes u u ∧ Relation.ReflTransGen s.Precedes u o

/-- In an order that respects the wires, they lead to later places. -/
theorem Topological.idxOf_lt (h : s.Topological order) (ho : o ∈ order) (hu : s.Precedes u o) :
    order.idxOf u < order.idxOf o := by
  obtain ⟨w, hw, rfl⟩ := hu
  obtain ⟨before, after, rfl, hnew⟩ := List.eq_append_cons_of_mem ho
  have hmem : w.pre.object ∈ before := h before o after rfl w hw
  rw [List.idxOf_append_of_mem hmem, List.idxOf_append_of_notMem hnew, List.idxOf_cons_self]
  exact List.idxOf_lt_length_of_mem hmem

end Sketch

/-! ## Orders -/

namespace Network
variable {n : Network α} {order : List ObjectId}

/-- All objects of a network. -/
def objectIds (n : Network α) : List ObjectId := (List.range n.objects.size).map ObjectId.mk

theorem mem_objectIds {o : ObjectId} : o ∈ n.objectIds ↔ o.index < n.objects.size := by
  obtain ⟨i⟩ := o
  simp [objectIds]

theorem nodup_objectIds : n.objectIds.Nodup :=
  List.nodup_range.map fun _ _ h => congrArg ObjectId.index h

theorem perm_of_order (hl : n.sketch.Linked) (h : n.order = .ok order) :
    order.Perm n.objectIds := by
  obtain ⟨-, hnodup, hmem⟩ := order_spec hl h
  exact (List.perm_ext_iff_of_nodup hnodup nodup_objectIds).2 fun o =>
    (hmem o).trans mem_objectIds.symm

/-- What is read stands before what reads it. -/
theorem idxOf_lt_of_order (hl : n.sketch.Linked) (h : n.order = .ok order) {u o : ObjectId}
    (hu : n.sketch.Precedes u o) : order.idxOf u < order.idxOf o := by
  obtain ⟨htopo, -, hmem⟩ := order_spec hl h
  exact htopo.idxOf_lt ((hmem o).2 (length_kinds (n := n) ▸ (hl.index_lt hu).2)) hu

theorem acyclic_of_order (hl : n.sketch.Linked) (h : n.order = .ok order) : n.Acyclic := by
  have hpath : ∀ {u o}, Relation.TransGen n.sketch.Precedes u o →
      order.idxOf u < order.idxOf o := by
    intro u o hpath
    induction hpath with
    | single hu => exact idxOf_lt_of_order hl h hu
    | tail _ hu ih => exact ih.trans (idxOf_lt_of_order hl h hu)
  exact fun o ho => lt_irrefl _ (hpath ho)

/-- A network has an order if and only if nothing in it depends on itself. -/
theorem exists_order_iff (hl : n.sketch.Linked) : (∃ order, n.order = .ok order) ↔ n.Acyclic :=
  ⟨fun ⟨_, h⟩ => acyclic_of_order hl h, fun ha => exists_order hl fun o _ => ha.acc hl o⟩

/-- An object that still waits when ordering ends is on a circle or behind one. -/
theorem behindCircle_of_waits (hl : n.sketch.Linked) {o : ObjectId} (ho : o.index < n.objects.size)
    (hw : n.sketch.waits (n.advance n.objects.size n.initialSchedule).order o ≠ 0) :
    n.sketch.BehindCircle o := by
  obtain ⟨-, -, -, hmem⟩ := advance_all hl
  by_contra hfree
  -- what is not behind a circle is ordered, and waits for nothing
  have hacc : Acc n.sketch.Precedes o := hl.acc fun u hu hcircle => hfree ⟨u, hcircle, hu⟩
  exact hw ((hmem o).1 (mem_advance_of_acc hl hacc ho)).2

/-- If no object waits when ordering ends, all of them are ordered. -/
theorem length_of_waits (hl : n.sketch.Linked) (h : ∀ o : ObjectId, o.index < n.objects.size →
      n.sketch.waits (n.advance n.objects.size n.initialSchedule).order o = 0) :
    (n.advance n.objects.size n.initialSchedule).order.length = n.objects.size := by
  obtain ⟨-, -, hnodup, hmem⟩ := advance_all hl
  have hperm : (n.advance n.objects.size n.initialSchedule).order.Perm n.objectIds := by
    refine (List.perm_ext_iff_of_nodup hnodup nodup_objectIds).2 fun o => ?_
    rw [hmem, mem_objectIds]
    exact and_iff_left_of_imp (h o)
  simpa [objectIds] using hperm.length_eq

/-- A network that has no order is refused for an object that is on a circle or
    behind one. -/
theorem order_eq_error (hl : n.sketch.Linked) {e : Failure} (h : n.order = .error e) :
    ∃ o x, n.object o = .ok x ∧ n.sketch.BehindCircle o ∧
      e = .refused [] (.network (.recurrent n.label x.text)) := by
  obtain ⟨hs, -⟩ := advance_all hl
  have hpending : ∀ o : ObjectId, o.index < n.objects.size →
      (n.advance n.objects.size n.initialSchedule).pending.getD o.index 0 =
        n.sketch.waits (n.advance n.objects.size n.initialSchedule).order o := fun o ho => by
    simpa using hs.pending o (length_kinds (n := n) ▸ ho)
  have hsize := hs.size.trans (length_kinds (n := n))
  simp only [Network.order] at h
  split at h
  case isTrue => cases h
  case isFalse hlen =>
    cases hfind : (n.advance n.objects.size n.initialSchedule).pending.findIdx? (0 < ·) with
    | none =>
      refine absurd (length_of_waits hl fun o ho => ?_) hlen
      have hlt : o.index < (n.advance n.objects.size n.initialSchedule).pending.size :=
        hsize.symm ▸ ho
      rw [← hpending o ho]
      simpa [Array.getD_eq_getD_getElem?, hlt] using
        Array.findIdx?_eq_none_iff.1 hfind _ (Array.getElem_mem hlt)
    | some stuck =>
      rw [hfind] at h
      obtain ⟨hlt, hwaits, -⟩ := Array.findIdx?_eq_some_iff_getElem.1 hfind
      have ho : stuck < n.objects.size := hsize ▸ hlt
      have hx : n.object ⟨stuck⟩ = .ok n.objects[stuck] :=
        object_eq_ok.2 (Array.getElem?_eq_getElem ho)
      refine ⟨⟨stuck⟩, n.objects[stuck], hx, behindCircle_of_waits hl ho ?_, ?_⟩
      · rw [← hpending ⟨stuck⟩ ho]
        simpa [Array.getD_eq_getD_getElem?, hlt, Nat.pos_iff_ne_zero] using hwaits
      · change (do
          let x ← n.object ⟨stuck⟩
          refuse (NetworkCause.recurrent n.label x.text)) = .error e at h
        rw [hx] at h
        exact (Except.error.inj h).symm

end Network
end Neuroform

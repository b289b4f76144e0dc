/-
  Neuroform — ordering the objects of a network.

  While objects are ordered, each one counts the wires into it from others that
  are not ordered yet (`Sketch.waits`), and it is ordered or ready once there
  are none.  In the end all objects are ordered that no circle of wires holds
  back.
-/
import Neuroform.Proofs.Network.Sketch

namespace Neuroform

variable {α : Type}

namespace Sketch

/-- The wires into an object from others that are not ordered. -/
def waits (s : Sketch α) (order : List ObjectId) (o : ObjectId) : Nat :=
  s.wires.countP fun w => w.post.object = o ∧ w.pre.object ∉ order

/-- The objects that are wired to an object. -/
def after (s : Sketch α) (o : ObjectId) : List ObjectId :=
  (s.wires.filter (·.pre.object = o)).map (·.post.object)

/-- An object is wired to another one. -/
def Precedes (s : Sketch α) (u o : ObjectId) : Prop := ∃ w ∈ s.into o, w.pre.object = u

/-- All wires lead from objects to objects. -/
def Linked (s : Sketch α) : Prop :=
  ∀ w ∈ s.wires, w.pre.object.index < s.kinds.length ∧ w.post.object.index < s.kinds.length

/-- A schedule counts what objects wait for, while `rest` are the objects that
    are still to be counted off once more. -/
structure Schedules (s : Sketch α) (c : Schedule) (rest : List ObjectId) : Prop where
  size : c.pending.size = s.kinds.length
  pending : ∀ o : ObjectId, o.index < s.kinds.length →
    c.pending.getD o.index 0 = s.waits c.order o + rest.count o
  nodup : (c.order ++ c.ready).Nodup
  mem : ∀ o, o ∈ c.order ++ c.ready ↔
    o.index < s.kinds.length ∧ s.waits c.order o + rest.count o = 0

section
variable {s : Sketch α} {c : Schedule} {o u : ObjectId} {order rest : List ObjectId}

theorem Checked.linked (h : s.Checked) : s.Linked := fun w hw =>
  let ⟨_, _, _, _, _, hin, _, hout, _⟩ := h w hw
  ⟨index_lt hin, index_lt hout⟩

theorem Linked.index_lt (h : s.Linked) (hp : s.Precedes u o) :
    u.index < s.kinds.length ∧ o.index < s.kinds.length := by
  obtain ⟨w, hinto, rfl⟩ := hp
  obtain ⟨hw, rfl⟩ := mem_into.1 hinto
  exact h w hw

/-- An object that no circle leads to is reached from those that read nothing:
    there are only finitely many. -/
theorem Linked.acc (hl : s.Linked)
    (h : ∀ u, Relation.ReflTransGen s.Precedes u o → ¬Relation.TransGen s.Precedes u u) :
    Acc s.Precedes o := by
  let behind := {i : Fin s.kinds.length // Relation.ReflTransGen s.Precedes ⟨i⟩ o}
  let r : behind → behind → Prop := fun i j => Relation.TransGen s.Precedes ⟨i.1⟩ ⟨j.1⟩
  have htrans : IsTrans _ r := ⟨fun _ _ _ h h' => h.trans h'⟩
  have hirrefl : Std.Irrefl r := ⟨fun i => h ⟨i.1⟩ i.2⟩
  have hwf : WellFounded r := Finite.wellFounded_of_trans_of_irrefl r
  have hacc : ∀ i : behind, Acc s.Precedes ⟨i.1⟩ := fun i => by
    induction hwf.apply i with
    | intro i _ ih =>
      exact ⟨_, fun u hu => ih ⟨⟨u.index, (hl.index_lt hu).1⟩, .head hu i.2⟩ (.single hu)⟩
  exact ⟨_, fun u hu => hacc ⟨⟨u.index, (hl.index_lt hu).1⟩, .single hu⟩⟩

theorem waits_eq_zero : s.waits order o = 0 ↔ ∀ w ∈ s.into o, w.pre.object ∈ order := by
  simp only [waits, List.countP_eq_zero, mem_into, decide_eq_true_eq, not_and, not_not, and_imp]

/-- Ordering an object counts it off where it is wired to. -/
theorem waits_eq_add (ho : o ∉ order) :
    s.waits order u = s.waits (order ++ [o]) u + (s.after o).count u := by
  have hsplit : ∀ ws : List (Wire α),
      ws.countP (fun w => w.post.object = u ∧ w.pre.object ∉ order) =
        ws.countP (fun w => w.post.object = u ∧ w.pre.object ∉ order ++ [o]) +
          ((ws.filter (·.pre.object = o)).map (·.post.object)).count u := by
    intro ws
    induction ws with
    | nil => rfl
    | cons w ws ih =>
      rw [List.countP_cons, List.countP_cons, ih, List.filter_cons]
      by_cases hpre : w.pre.object = o
      · by_cases hpost : w.post.object = u
        · simp [hpre, hpost, ho]; omega
        · simp [hpre, hpost]
      · simp [hpre]; omega
  exact hsplit s.wires

theorem Schedules.release {x : ObjectId} (hx : x.index < s.kinds.length)
    (h : s.Schedules c (x :: rest)) : s.Schedules (c.release x) rest := by
  obtain ⟨hsize, hpending, hnodup, hmem⟩ := h
  have hcount : c.pending.getD x.index 0 - 1 = s.waits c.order x + rest.count x := by
    rw [hpending x hx, List.count_cons_self]; omega
  have hnew : x ∉ c.order ++ c.ready := fun hmx => by
    have := ((hmem x).1 hmx).2
    rw [List.count_cons_self] at this
    omega
  have hother : ∀ u, u ≠ x → (x :: rest).count u = rest.count u := fun u hu =>
    List.count_cons_of_ne (Ne.symm hu)
  have hready : (c.release x).ready =
      if s.waits c.order x + rest.count x = 0 then c.ready ++ [x] else c.ready := by
    simp only [Schedule.release, hcount]
  have horder : (c.release x).order = c.order := rfl
  refine ⟨by simp [Schedule.release, hsize], fun u hu => ?_, ?_, fun u => ?_⟩
  · have hget : (c.release x).pending.getD u.index 0 =
        if x.index = u.index then c.pending.getD x.index 0 - 1 else c.pending.getD u.index 0 := by
      simp only [Schedule.release, Array.getD_eq_getD_getElem?, Array.getElem?_setIfInBounds]
      by_cases hi : x.index = u.index
      · rw [if_pos hi, if_pos hi, if_pos (by rw [hsize]; exact hx)]; rfl
      · rw [if_neg hi, if_neg hi]
    rw [hget]
    by_cases hux : u = x
    · subst hux
      rw [if_pos rfl, hcount]
      rfl
    · rw [if_neg fun hi => hux (congrArg ObjectId.mk hi.symm), hpending u hu, hother u hux]
      rfl
  · rw [horder, hready]
    split
    · rw [← List.append_assoc, List.nodup_append]
      refine ⟨hnodup, by simp, fun a ha b hb => ?_⟩
      rw [List.mem_singleton.1 hb]
      exact fun hab => hnew (hab ▸ ha)
    · exact hnodup
  · rw [horder, hready]
    by_cases hux : u = x
    · subst hux
      split
      case isTrue h0 => simp [hx, h0]
      case isFalse h0 => exact ⟨fun hm => (hnew hm).elim, fun hm => (h0 hm.2).elim⟩
    · have : u ∈ c.order ++ (if s.waits c.order x + rest.count x = 0 then c.ready ++ [x] else c.ready) ↔
          u ∈ c.order ++ c.ready := by
        split
        · simp [hux]
        · rfl
      rw [this, hmem, hother u hux]

theorem Schedules.releases (hr : ∀ x ∈ rest, x.index < s.kinds.length) (h : s.Schedules c rest) :
    s.Schedules (rest.foldl Schedule.release c) [] ∧
      (rest.foldl Schedule.release c).order = c.order := by
  induction rest generalizing c with
  | nil => exact ⟨h, rfl⟩
  | cons x rest ih =>
    exact ih (fun y hy => hr y (List.mem_cons_of_mem _ hy)) (h.release (hr x (by simp)))

theorem Topological.snoc (h : s.Topological order) (ho : ∀ w ∈ s.into o, w.pre.object ∈ order) :
    s.Topological (order ++ [o]) := by
  intro before u rest heq w hw
  rcases List.eq_nil_or_concat rest with rfl | ⟨rest, z, rfl⟩
  · obtain ⟨rfl, hou⟩ := List.append_inj' heq rfl
    obtain rfl := List.singleton_inj.1 hou
    exact ho w hw
  · rw [List.concat_eq_append, ← List.cons_append, ← List.append_assoc] at heq
    exact h before u rest (List.append_inj' heq rfl).1 w hw

/-- The number of different objects is bounded. -/
theorem length_le_of_nodup {N : Nat} {os : List ObjectId} (hn : os.Nodup)
    (hb : ∀ o ∈ os, o.index < N) : os.length ≤ N := by
  have hinj : Function.Injective ObjectId.index := fun a b h => congrArg ObjectId.mk h
  have hsub : os.map ObjectId.index ⊆ List.range N := fun i hi => by
    obtain ⟨o, ho, rfl⟩ := List.mem_map.1 hi
    exact List.mem_range.2 (hb o ho)
  simpa using ((hn.map hinj).subperm hsub).length_le

end
end Sketch

/-! ## The order of a network -/

namespace Network
variable {n : Network α} {c : Schedule} {o : ObjectId}

theorem successors_eq : n.successors o = n.sketch.after o := by
  have hall : n.allConnections.map (·.2.wire) = n.sketch.wires := map_wire_allConnections
  rw [successors, connectionsFrom, Sketch.after, ← hall, List.filter_map, List.map_map]
  rfl

/-- Nothing is ordered in the beginning. -/
theorem schedules_initial : n.sketch.Schedules n.initialSchedule [] := by
  have hwaits : ∀ o, (n.connectionsInto o).length = n.sketch.waits [] o := by
    intro o
    rw [← List.length_map (f := fun c : ConnectionId × Connection α => c.2.wire),
      map_wire_connectionsInto, Sketch.into, ← List.countP_eq_length_filter]
    simp [Sketch.waits]
  have hget : ∀ o : ObjectId, o.index < n.objects.size →
      (((List.range n.objects.size).map ObjectId.mk).map fun o =>
        (n.connectionsInto o).length).getD o.index 0 = n.sketch.waits [] o := by
    intro o ho
    simp [List.getD_eq_getElem?_getD, ho, hwaits]
  have hpending : n.initialSchedule.pending = (((List.range n.objects.size).map ObjectId.mk).map
      fun o => (n.connectionsInto o).length).toArray := rfl
  refine ⟨by simp [hpending, length_kinds], fun o ho => ?_, ?_, fun o => ?_⟩
  · rw [length_kinds] at ho
    rw [hpending, Array.getD_eq_getD_getElem?, List.getElem?_toArray, ← List.getD_eq_getElem?_getD,
      hget o ho]
    rfl
  · have hinj : Function.Injective ObjectId.mk := fun a b h => congrArg ObjectId.index h
    exact ((List.nodup_range.map hinj).filter _)
  · change o ∈ List.filter _ _ ↔ _
    rw [List.mem_filter, length_kinds]
    constructor
    · rintro ⟨hmem, h0⟩
      obtain ⟨i, hi, rfl⟩ := List.mem_map.1 hmem
      rw [List.mem_range] at hi
      rw [decide_eq_true_eq, hget ⟨i⟩ hi] at h0
      exact ⟨hi, h0⟩
    · rintro ⟨ho, h0⟩
      refine ⟨List.mem_map.2 ⟨o.index, List.mem_range.2 ho, rfl⟩, ?_⟩
      rw [decide_eq_true_eq, hget o ho]
      exact h0

/-- One more object is ordered. -/
theorem Sketch.Schedules.next {ready : List ObjectId} (hl : n.sketch.Linked)
    (h : n.sketch.Schedules c []) (ht : n.sketch.Topological c.order) (hr : c.ready = o :: ready) :
    n.sketch.Schedules ((n.successors o).foldl Schedule.release
      { c with order := c.order ++ [o], ready }) [] ∧
    n.sketch.Topological ((n.successors o).foldl Schedule.release
      { c with order := c.order ++ [o], ready }).order ∧
    ((n.successors o).foldl Schedule.release
      { c with order := c.order ++ [o], ready }).order.length = c.order.length + 1 := by
  obtain ⟨hsize, hpending, hnodup, hmem⟩ := h
  rw [hr] at hnodup hmem
  have hnew : o ∉ c.order := fun ho =>
    (List.nodup_append.1 hnodup).2.2 o ho o (by simp) rfl
  have hall : ∀ u, u ∈ c.order ++ o :: ready ↔ u ∈ c.order ++ [o] ++ ready := by simp
  have hmid : n.sketch.Schedules { c with order := c.order ++ [o], ready } (n.successors o) := by
    rw [successors_eq]
    refine ⟨hsize, fun u hu => ?_, by simpa using hnodup, fun u => ?_⟩
    · rw [hpending u hu, Sketch.waits_eq_add hnew]
      rfl
    · rw [← hall, hmem, Sketch.waits_eq_add hnew]
      rfl
  obtain ⟨hsched, horder⟩ := hmid.releases fun u hu => by
    rw [successors_eq, Sketch.after] at hu
    obtain ⟨w, hw, rfl⟩ := List.mem_map.1 hu
    exact (hl w (List.mem_filter.1 hw).1).2
  rw [horder]
  refine ⟨hsched, ht.snoc ?_, by simp⟩
  exact Sketch.waits_eq_zero.1 ((hmem o).1 (by simp)).2

/-- After enough steps no object is ready. -/
theorem advance_spec (hl : n.sketch.Linked) : ∀ {steps : Nat} {c : Schedule},
    n.sketch.Schedules c [] → n.sketch.Topological c.order →
    n.objects.size ≤ c.order.length + steps →
    n.sketch.Schedules (n.advance steps c) [] ∧ n.sketch.Topological (n.advance steps c).order ∧
      (n.advance steps c).ready = []
  | 0, c, h, ht, hlen => by
    have hle := Sketch.length_le_of_nodup h.nodup fun o ho => ((h.mem o).1 ho).1
    rw [length_kinds, List.length_append] at hle
    exact ⟨h, ht, List.length_eq_zero_iff.1 (show c.ready.length = 0 by omega)⟩
  | steps + 1, c, h, ht, hlen => by
    rw [advance]
    split
    case h_1 hr => exact ⟨h, ht, hr⟩
    case h_2 o ready hr =>
      obtain ⟨h', ht', hlen'⟩ := Sketch.Schedules.next hl h ht hr
      exact advance_spec hl h' ht' (by omega)

/-- What is left when ordering ends: the objects that wait for others. -/
theorem advance_all (hl : n.sketch.Linked) :
    n.sketch.Schedules (n.advance n.objects.size n.initialSchedule) [] ∧
      n.sketch.Topological (n.advance n.objects.size n.initialSchedule).order ∧
      (n.advance n.objects.size n.initialSchedule).order.Nodup ∧
      ∀ o, o ∈ (n.advance n.objects.size n.initialSchedule).order ↔ o.index < n.objects.size ∧
        n.sketch.waits (n.advance n.objects.size n.initialSchedule).order o = 0 := by
  obtain ⟨hs, ht, hr⟩ := advance_spec hl schedules_initial
    (fun _ _ _ h => by simp [initialSchedule] at h) (Nat.le_add_left _ _)
  exact ⟨hs, ht, by simpa [hr] using hs.nodup, fun o => by simpa [hr, length_kinds] using hs.mem o⟩

/-- The order of a network lists each of its objects once, behind those that
    are wired to it. -/
theorem order_spec (hl : n.sketch.Linked) {order : List ObjectId} (h : n.order = .ok order) :
    n.sketch.Topological order ∧ order.Nodup ∧ ∀ o, o ∈ order ↔ o.index < n.objects.size := by
  obtain ⟨-, ht, hnodup, hmem⟩ := advance_all hl
  simp only [Network.order] at h
  split at h
  case isTrue hlen =>
    obtain rfl := pure_eq_ok.1 h
    refine ⟨ht, hnodup, fun o => ⟨fun ho => ((hmem o).1 ho).1, fun ho => ?_⟩⟩
    by_contra hnew
    -- one object more would be too many
    have := Sketch.length_le_of_nodup (List.nodup_cons.2 ⟨hnew, hnodup⟩) (N := n.objects.size)
      (by rintro u (_ | ⟨_, hu⟩); exacts [ho, ((hmem u).1 hu).1])
    simp only [List.length_cons] at this
    omega
  case isFalse =>
    obtain ⟨_, -, h⟩ := bind_eq_ok.1 h
    obtain ⟨_, -, h⟩ := bind_eq_ok.1 h
    simp at h

/-- An object is ordered if everything before it is reached without a
    circle. -/
theorem mem_advance_of_acc (hl : n.sketch.Linked) (hacc : Acc n.sketch.Precedes o)
    (ho : o.index < n.objects.size) :
    o ∈ (n.advance n.objects.size n.initialSchedule).order := by
  obtain ⟨-, -, -, hmem⟩ := advance_all hl
  induction hacc with
  | intro o _ ih =>
    refine (hmem o).2 ⟨ho, Sketch.waits_eq_zero.2 fun w hw => ih _ ⟨w, hw, rfl⟩ ?_⟩
    exact length_kinds (n := n) ▸ (hl w (Sketch.mem_into.1 hw).1).1

/-- A network whose objects are all reached without a circle has an order. -/
theorem exists_order (hl : n.sketch.Linked)
    (hacc : ∀ o : ObjectId, o.index < n.objects.size → Acc n.sketch.Precedes o) :
    ∃ order, n.order = .ok order := by
  obtain ⟨-, -, hnodup, hmem⟩ := advance_all hl
  have hlen : (n.advance n.objects.size n.initialSchedule).order.length = n.objects.size := by
    refine le_antisymm (Sketch.length_le_of_nodup hnodup fun o ho => ((hmem o).1 ho).1) ?_
    have hinj : Function.Injective ObjectId.mk := fun a b h => congrArg ObjectId.index h
    have hsub : (List.range n.objects.size).map ObjectId.mk ⊆
        (n.advance n.objects.size n.initialSchedule).order := fun o ho => by
      obtain ⟨i, hi, rfl⟩ := List.mem_map.1 ho
      exact mem_advance_of_acc hl (hacc ⟨i⟩ (List.mem_range.1 hi)) (List.mem_range.1 hi)
    simpa using ((List.nodup_range.map hinj).subperm hsub).length_le
  exact ⟨_, by simp only [Network.order, if_pos hlen]; rfl⟩

end Network
end Neuroform

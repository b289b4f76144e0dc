/-
  Neuroform — converted networks are not recurrent.

  An invocation is attached behind the objects that there are, and only its
  target reads what is attached after it (`Rule.Conversion.attaches`).  So no
  circle is ever closed, though biases and relays get higher numbers than the
  targets that read them, and every converted network can be run.
-/
import Neuroform.Proofs.Conversion.Attaching
import Neuroform.Proofs.Conversion.Ends
import Neuroform.Proofs.Network.Recurrence

namespace Neuroform

variable {α : Type}

/-! ## Sketches without circles -/

namespace Sketch
variable {s part : Sketch α} {u o : ObjectId}

/-- What is wired within a sketch, or within what is attached to it. -/
theorem precedes_append : (s ++ part).Precedes u o ↔ s.Precedes u o ∨ part.Precedes u o := by
  simp only [Precedes, into_append, List.mem_append, or_and_right, exists_or]

/-- A sketch without circles stays without them when a part is attached: old
    objects read old ones, the target comes last, and the others read earlier
    ones. -/
theorem acc_append (hl : s.Linked) (hs : ∀ o, Acc s.Precedes o)
    (hpart : ∀ e ∈ part.wires, e.Hangs ⟨s.kinds.length⟩) (o : ObjectId) :
    Acc (s ++ part).Precedes o := by
  have hangs : ∀ {u o}, part.Precedes u o → s.kinds.length ≤ o.index ∧ u ≠ ⟨s.kinds.length⟩ ∧
      (o = ⟨s.kinds.length⟩ ∨ u.index < o.index) := by
    rintro u o ⟨e, hinto, rfl⟩
    obtain ⟨he, rfl⟩ := mem_into.1 hinto
    obtain ⟨behind, other, forward⟩ := hpart e he
    exact ⟨behind, other, forward⟩
  have hold : ∀ o : ObjectId, o.index < s.kinds.length → Acc (s ++ part).Precedes o := by
    intro o ho
    induction hs o with
    | intro o _ ih =>
      refine ⟨_, fun u hu => ?_⟩
      rcases precedes_append.1 hu with hu | hu
      · exact ih u hu (hl.index_lt hu).1
      · exact absurd (hangs hu).1 (Nat.not_le.2 ho)
  have hother : ∀ (i : Nat) (o : ObjectId), o.index = i → o ≠ ⟨s.kinds.length⟩ →
      Acc (s ++ part).Precedes o := by
    intro i
    induction i using Nat.strongRecOn with
    | ind i ih =>
      rintro o rfl hne
      refine ⟨_, fun u hu => ?_⟩
      rcases precedes_append.1 hu with hu | hu
      · exact hold u (hl.index_lt hu).1
      · obtain ⟨-, hu', hforward⟩ := hangs hu
        exact ih u.index (hforward.resolve_left hne) u rfl hu'
  by_cases ho : o = ⟨s.kinds.length⟩
  · subst ho
    refine ⟨_, fun u hu => ?_⟩
    rcases precedes_append.1 hu with hu | hu
    · exact absurd (hl.index_lt hu).2 (lt_irrefl _)
    · exact hother _ u rfl (hangs hu).2.1
  · exact hother _ o rfl ho

end Sketch

namespace Session

open Neuroform.Graph

variable [Scalar α] {g : Graph α} {settings : Settings α} {entries : List (Entry α)}
  {w : Workspace α}

/-! ## Conversions -/

/-- A network under construction is not recurrent, and no view shows an object
    that is not there. -/
structure Feedforward (w : Workspace α) : Prop where
  checked : w.network.sketch.Checked
  acc : ∀ o, Acc w.network.sketch.Precedes o
  viewed : w.ViewedBefore w.next

omit [Scalar α] in
/-- What is attached to a network for an invocation closes no circle. -/
theorem Feedforward.convert {w' : Workspace α} (h : Feedforward w) {layer : Layer α}
    {p : Primitive α} {wrapped : Bool} {part : Sketch α} {v : View} {i : InvocationId}
    (ha : Rule.Attachment w layer p wrapped part v w') :
    Feedforward { w' with views := (i, [v]) :: w'.views } := by
  obtain ⟨hd, hv, _, _, -, -, hattached⟩ := ha
  refine ⟨hd.checked h.checked, fun o => ?_, ?_⟩
  · change Acc w'.network.sketch.Precedes o
    rw [hd.sketch]
    exact Sketch.acc_append h.checked.linked h.acc hattached.hangs o
  · rintro e (_ | ⟨_, he⟩) v' hv'
    · rw [List.mem_singleton.1 hv']
      exact hv
    · rw [hd.framed.views] at he
      exact (h.viewed e he v' hv').trans_le hd.extends.next

/-- **A conversion closes no circle.** -/
theorem Run.feedforward (h : Run g settings entries w) : Feedforward w := by
  induction h with
  | start label warnings =>
    refine ⟨by simp [Sketch.Checked, Network.sketch, Network.empty], fun o => ⟨_, ?_⟩, nofun⟩
    rintro u ⟨e, he, -⟩
    exact absurd (Sketch.mem_into.1 he).1 (by simp [Network.sketch, Network.empty])
  | note run warnings probes ih => exact ⟨ih.checked, ih.acc, ih.viewed⟩
  | @convert entries w w' e p c v run chosen ran extends' ih =>
    obtain ⟨layer, hl, -⟩ := kind?_eq_some.1 chosen.kind
    obtain ⟨part, ha⟩ :=
      (chosen.conversion.attaches (run.graph_eq.symm ▸ hl) ih.viewed).of_ok ran
    exact ih.convert ha

/-- **Networks without circles have an order**, and no others.  An order lists
    each object once, behind what it reads from.  A network that has none is
    refused for an object that is on a circle or behind one.  What a conversion
    makes always has an order. -/
theorem ordered_iff_acyclic :
    (∀ n : Network α, n.sketch.Linked → ((∃ order, n.order = .ok order) ↔ n.Acyclic) ∧
      (∀ order, n.order = .ok order → order.Perm n.objectIds ∧
        ∀ c ∈ n.connections, order.idxOf c.pre.object < order.idxOf c.post.object) ∧
      ∀ e, n.order = .error e → ∃ o x, n.object o = .ok x ∧ n.sketch.BehindCircle o ∧
        e = .refused [] (.network (.recurrent n.label x.text))) ∧
    ∀ (g : Graph α) (l : LayerId) (settings : Settings α) (s : Session α), g.Reachable →
      convert g l settings Registry.standard = .ok s → ∃ order, s.network.order = .ok order := by
  refine ⟨fun n hl => ⟨Network.exists_order_iff hl, fun order ho => ⟨Network.perm_of_order hl ho,
    fun c hc => Network.idxOf_lt_of_order hl ho ?_⟩, fun e => Network.order_eq_error hl⟩, ?_⟩
  · have hwire : c.wire ∈ n.sketch.wires := List.mem_map_of_mem (Array.mem_def.1 hc)
    exact ⟨c.wire, Sketch.mem_into.2 ⟨hwire, rfl⟩, rfl⟩
  · intro g l settings s hg hs
    obtain ⟨m, hm⟩ := exists_model hs
    obtain ⟨order, entries, s₁, -, -, hwalked, -, hends⟩ := convert_eq_ok hg.sound hm hs
    obtain ⟨checked, acc, -⟩ := (hends.run hwalked).feedforward
    exact Network.exists_order checked.linked fun o _ => acc o

/-- Two nodes that feed each other, one of them through two connections, and a
    node behind them. -/
def fedBack : List (Network.Call ℚ) :=
  [.add (.node (.passthrough 1)) "behind", .add (.node (.passthrough 1)) "a",
    .add (.node (.passthrough 1)) "b", .connect (.full ⟨1⟩) (.full ⟨2⟩) .identity none,
    .connect (.full ⟨1⟩) (.full ⟨2⟩) (.scalar 2) none,
    .connect (.full ⟨2⟩) (.full ⟨1⟩) .identity none,
    .connect (.full ⟨2⟩) (.full ⟨0⟩) .identity none]

/-- A model of one dense layer with a bias. -/
def biased : List (BuildStep ℚ) :=
  [.input "x" [1], .wire "d" (.dense ⟨⟨1, 1, #[7], rfl⟩, some [3], .linear, default⟩) [⟨0⟩],
    .model "m" [⟨0⟩] [⟨1⟩]]

/-- The nodes that feed each other are refused for the one behind them.  The
    dense layer is converted to a target that reads an object after it. -/
theorem ordered_iff_acyclic_fedBack : (Network.build "net" fedBack).sketch.Linked ∧
    ¬(Network.build "net" fedBack).Acyclic ∧
    (∃ o x, (Network.build "net" fedBack).object o = .ok x ∧ x.text = "<Node \"behind\">" ∧
      (Network.build "net" fedBack).sketch.BehindCircle o) ∧
    ∃ s, convert (build biased) ⟨2⟩ Settings.standard Registry.standard = .ok s ∧
      ∃ order, s.network.order = .ok order := by
  obtain ⟨hnetworks, hconversions⟩ := ordered_iff_acyclic (α := ℚ)
  have hl := Network.linked_build "net" fedBack
  obtain ⟨hiff, -, herror⟩ := hnetworks _ hl
  have horder : (Network.build "net" fedBack).order =
      .error (.refused [] (.network (.recurrent "net" "<Node \"behind\">"))) := by cbv
  have hok : (do pure (← convert (build biased) ⟨2⟩ Settings.standard
      Registry.standard).outputs.length : Outcome Nat).toOption = some 1 := by decide +kernel
  obtain ⟨s, hs, -⟩ := bind_eq_ok.1 (toOption_eq_some.1 hok)
  refine ⟨hl, fun ha => ?_, ?_, s, hs, hconversions _ _ _ s (reachable_build biased) hs⟩
  · obtain ⟨order, ho⟩ := hiff.2 ha
    simp [horder] at ho
  · obtain ⟨o, x, hx, hbehind, he⟩ := herror _ horder
    simp only [Failure.refused.injEq, Cause.network.injEq, NetworkCause.recurrent.injEq] at he
    exact ⟨o, x, hx, he.2.2.symm, hbehind⟩

end Session
end Neuroform

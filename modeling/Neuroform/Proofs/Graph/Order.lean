/-
  Neuroform — orders of the invocations of a model.

  `Lists` are the orders in which every invocation stands once, behind the
  producers of its inputs.  The internal order of a model is one of them
  (`internalOrder_lists`), settles every tensor that the search for it meets
  (`settled_of_met`), and stays the same when the graph grows
  (`internalOrder_of_grows`).
-/
import Neuroform.Proofs.Graph.Content

namespace Neuroform.Graph

variable {α : Type} {g g' : Graph α} {stop : List TensorId}

/-- A tensor needs nothing beyond an order of invocations: it is one to stop
    at, or an output of one of them. -/
def Settled (g : Graph α) (stop : List TensorId) (order : List InvocationId) (t : TensorId) : Prop :=
  t ∈ stop ∨ ∃ p, g.producer? t = some p ∧ p.source ∈ order

theorem Settled.later {order order' : List InvocationId} {t : TensorId}
    (h : g.Settled stop order t) (ho : order <+: order') : g.Settled stop order' t :=
  h.imp id fun ⟨p, hp, hi⟩ => ⟨p, hp, ho.subset hi⟩

/-- Invocations that stand once each, behind the producers of their inputs.
    Every one is behind a tensor that is none to stop at. -/
inductive Lists (g : Graph α) (stop : List TensorId) : List InvocationId → Prop where
  | nil : Lists g stop []
  | snoc {order : List InvocationId} {t : TensorId} {p : Provenance} {inv : Invocation}
      (earlier : Lists g stop order) (outside : t ∉ stop) (producer : g.producer? t = some p)
      (fresh : p.source ∉ order) (record : g.record? p.source = some inv)
      (inputs : inv.inputs ≠ []) (settled : ∀ u ∈ inv.inputs, g.Settled stop order u) :
      Lists g stop (order ++ [p.source])

/-- The tensors that a search from some roots meets before it stops. -/
inductive Met (g : Graph α) (stop roots : List TensorId) : TensorId → Prop where
  | root {t : TensorId} (h : t ∈ roots) : Met g stop roots t
  | input {t u : TensorId} {p : Provenance} {inv : Invocation} (met : Met g stop roots t)
      (outside : t ∉ stop) (producer : g.producer? t = some p)
      (record : g.record? p.source = some inv) (h : u ∈ inv.inputs) : Met g stop roots u

/-- An invocation is reached by a search from some roots. -/
def Reached (g : Graph α) (stop roots : List TensorId) (i : InvocationId) : Prop :=
  ∃ t p, g.Met stop roots t ∧ t ∉ stop ∧ g.producer? t = some p ∧ p.source = i

/-- The inputs of an invocation are made before its outputs. -/
def Acyclic (g : Graph α) : Prop :=
  ∀ {t : TensorId} {p : Provenance} {inv : Invocation}, g.producer? t = some p →
    g.record? p.source = some inv → ∀ u ∈ inv.inputs, u.index < t.index

namespace Met
variable {roots roots' : List TensorId} {t : TensorId}

theorem mono (h : g.Met stop roots t) (hr : ∀ r ∈ roots, g.Met stop roots' r) :
    g.Met stop roots' t := by
  induction h with
  | root h => exact hr _ h
  | input _ outside producer record hu ih => exact .input ih outside producer record hu

/-- A search meets no tensor that is made after its roots. -/
theorem index_le (h : g.Met stop roots t) (ha : g.Acyclic) : ∃ r ∈ roots, t.index ≤ r.index := by
  induction h with
  | root h => exact ⟨_, h, Nat.le_refl _⟩
  | input _ _ producer record hu ih =>
    obtain ⟨r, hr, hle⟩ := ih
    exact ⟨r, hr, (ha producer record _ hu).le.trans hle⟩

end Met

theorem Reached.mono {roots roots' : List TensorId} {i : InvocationId}
    (h : g.Reached stop roots i) (hr : ∀ r ∈ roots, g.Met stop roots' r) :
    g.Reached stop roots' i := by
  obtain ⟨t, p, ht, hs, hp, hi⟩ := h
  exact ⟨t, p, ht.mono hr, hs, hp, hi⟩

namespace Lists
variable {order : List InvocationId}

/-- A listed invocation has inputs, all of which the order settles. -/
theorem settled (h : g.Lists stop order) {i : InvocationId} (hi : i ∈ order) {inv : Invocation}
    (hr : g.record? i = some inv) : inv.inputs ≠ [] ∧ ∀ u ∈ inv.inputs, g.Settled stop order u := by
  induction h with
  | nil => simp at hi
  | snoc earlier _ _ _ record inputs settled ih =>
    rcases List.mem_append.1 hi with hi | hi
    · exact ⟨(ih hi).1, fun u hu => ((ih hi).2 u hu).later (List.prefix_append ..)⟩
    · obtain rfl := List.mem_singleton.1 hi
      obtain rfl := Option.some.inj (record.symm.trans hr)
      exact ⟨inputs, fun u hu => (settled u hu).later (List.prefix_append ..)⟩

/-- What stands before a listed invocation settles its inputs. -/
theorem settled_before (h : g.Lists stop order) :
    ∀ {before after : List InvocationId} {i : InvocationId}, order = before ++ i :: after →
      ∃ inv, g.record? i = some inv ∧ ∀ u ∈ inv.inputs, g.Settled stop before u := by
  induction h with
  | nil => intro before after i h; simp at h
  | @snoc order t p inv _ _ _ _ record _ settled ih =>
    intro before after i h
    rcases List.eq_nil_or_concat after with rfl | ⟨after, j, rfl⟩
    · obtain ⟨rfl, hi⟩ := List.append_inj' h rfl
      obtain rfl := List.singleton_inj.1 hi
      exact ⟨inv, record, settled⟩
    · rw [List.concat_eq_append, ← List.cons_append, ← List.append_assoc] at h
      exact ih (List.append_inj' h rfl).1

/-- Every listed invocation is recorded, and it is the producer of a tensor
    that is none to stop at. -/
theorem source (h : g.Lists stop order) {i : InvocationId} (hi : i ∈ order) :
    (∃ inv, g.record? i = some inv) ∧ ∃ t p, t ∉ stop ∧ g.producer? t = some p ∧ p.source = i := by
  induction h with
  | nil => simp at hi
  | snoc _ outside producer _ record _ _ ih =>
    rcases List.mem_append.1 hi with hi | hi
    · exact ih hi
    · obtain rfl := List.mem_singleton.1 hi
      exact ⟨⟨_, record⟩, _, _, outside, producer, rfl⟩

theorem nodup (h : g.Lists stop order) : order.Nodup := by
  induction h with
  | nil => exact List.nodup_nil
  | snoc _ _ _ fresh _ _ _ ih =>
    rw [List.nodup_append]
    refine ⟨ih, by simp, ?_⟩
    rintro i hi j hj rfl
    exact fresh (List.mem_singleton.1 hj ▸ hi)

/-- If an order settles the roots of a search, it settles all that the search
    meets. -/
theorem settled_of_met {roots : List TensorId} (h : g.Lists stop order)
    (hr : ∀ t ∈ roots, g.Settled stop order t) {t : TensorId} (ht : g.Met stop roots t) :
    g.Settled stop order t := by
  induction ht with
  | root h => exact hr _ h
  | input _ outside producer record hu ih =>
    rcases ih with ih | ⟨q, hq, hi⟩
    · exact absurd ih outside
    · obtain rfl := Option.some.inj (producer.symm.trans hq)
      exact (h.settled hi record).2 _ hu

end Lists

/-! ## The search -/

variable [Scalar α]

/-- One step of the search: the tensor is one to stop at, its producer is
    listed already, or its producer is listed behind its inputs. -/
theorem visit_eq_ok {depth : Nat} {order order' : List InvocationId} {t : TensorId} :
    g.visit stop (depth + 1) order t = .ok order' ↔
      (t ∈ stop ∧ order = order') ∨
      (t ∉ stop ∧ ∃ p, g.producer? t = some p ∧
        ((p.source ∈ order ∧ order = order') ∨
        (p.source ∉ order ∧ ∃ inv listed, g.record? p.source = some inv ∧ inv.inputs ≠ [] ∧
          inv.inputs.foldlM (g.visit stop depth) order = .ok listed ∧
          listed ++ [p.source] = order'))) := by
  rw [visit]
  split
  case isTrue h => simp [h]
  case isFalse h =>
    simp only [h, false_and, not_false_eq_true, true_and, false_or, bind_eq_ok, producer_eq_ok]
    constructor
    · rintro ⟨p, hp, ho⟩
      refine ⟨p, hp, ?_⟩
      split at ho
      case isTrue hi => exact .inl ⟨hi, pure_eq_ok.1 ho⟩
      case isFalse hi =>
        obtain ⟨inv, hinv, ho⟩ := bind_eq_ok.1 ho
        split at ho
        case isTrue he => obtain ⟨_, -, ho⟩ := bind_eq_ok.1 ho; simp at ho
        case isFalse he =>
          obtain ⟨listed, hl, ho⟩ := bind_eq_ok.1 ho
          exact .inr ⟨hi, inv, listed, invocation_eq_ok.1 hinv, by simpa using he, hl,
            pure_eq_ok.1 ho⟩
    · rintro ⟨p, hp, ⟨hi, rfl⟩ | ⟨hi, inv, listed, hinv, he, hl, rfl⟩⟩
      · exact ⟨p, hp, by simp [hi]⟩
      · refine ⟨p, hp, ?_⟩
        rw [if_neg hi]
        refine bind_eq_ok.2 ⟨inv, invocation_eq_ok.2 hinv, ?_⟩
        rw [if_neg (by simpa using he)]
        exact bind_eq_ok.2 ⟨listed, hl, rfl⟩

/-- What an order becomes in a search from some roots: what is added behind it
    is reached from them. -/
def Extends (g : Graph α) (stop roots : List TensorId) (order order' : List InvocationId) : Prop :=
  order <+: order' ∧ ∀ i ∈ order', i ∈ order ∨ g.Reached stop roots i

omit [Scalar α] in
theorem Extends.trans {roots : List TensorId} {a b c : List InvocationId}
    (h : g.Extends stop roots a b) (h' : g.Extends stop roots b c) : g.Extends stop roots a c := by
  refine ⟨h.1.trans h'.1, fun i hi => ?_⟩
  rcases h'.2 i hi with hb | hr
  · exact h.2 i hb
  · exact .inr hr

omit [Scalar α] in
theorem Extends.mono {roots roots' : List TensorId} {a b : List InvocationId}
    (h : g.Extends stop roots a b) (hr : ∀ r ∈ roots, g.Met stop roots' r) :
    g.Extends stop roots' a b :=
  ⟨h.1, fun i hi => (h.2 i hi).imp id (·.mono hr)⟩

variable (ha : g.Acyclic)
include ha

omit [Scalar α] in
/-- What is listed on the way to the inputs of an invocation is made before its
    outputs, so the invocation itself is not. -/
theorem Extends.notMem {i : InvocationId} {inv : Invocation} {order listed : List InvocationId}
    (h : g.Extends stop inv.inputs order listed) (hr : g.record? i = some inv) (hi : i ∉ order) :
    i ∉ listed := by
  intro hmem
  rcases h.2 _ hmem with hmem | ⟨v, q, hv, -, hq, he⟩
  · exact hi hmem
  obtain ⟨u, hu, hle⟩ := hv.index_le ha
  have : u.index < v.index := ha hq (he ▸ hr) u hu
  omega

theorem visit_lists : ∀ {depth : Nat} {order order' : List InvocationId} {t : TensorId},
    g.visit stop depth order t = .ok order' → g.Lists stop order →
      g.Lists stop order' ∧ g.Extends stop [t] order order' ∧ g.Settled stop order' t
  | 0, _, _, _, h, _ => by simp [visit] at h
  | depth + 1, order, order', t, h, hl => by
    rcases visit_eq_ok.1 h with ⟨ht, rfl⟩ | ⟨ht, p, hp, h⟩
    · exact ⟨hl, ⟨List.prefix_refl _, fun _ => .inl⟩, .inl ht⟩
    rcases h with ⟨hi, rfl⟩ | ⟨hi, inv, listed, hinv, he, hf, rfl⟩
    · exact ⟨hl, ⟨List.prefix_refl _, fun _ => .inl⟩, .inr ⟨p, hp, hi⟩⟩
    have hmet : ∀ u ∈ inv.inputs, g.Met stop [t] u := fun u hu =>
      .input (.root (by simp)) ht hp hinv hu
    obtain ⟨hl', hext, hs⟩ := visits_lists hf hl
    have hi' : p.source ∉ listed := hext.notMem ha hinv hi
    refine ⟨.snoc hl' ht hp hi' hinv he hs, ⟨hext.1.trans (List.prefix_append ..), ?_⟩,
      .inr ⟨p, hp, by simp⟩⟩
    intro i hmem
    rcases List.mem_append.1 hmem with hmem | hmem
    · exact (hext.mono hmet).2 i hmem
    · exact .inr ⟨t, p, .root (by simp), ht, hp, (List.mem_singleton.1 hmem).symm⟩
termination_by depth => (depth, 0)
where
  visits_lists {depth : Nat} {ts : List TensorId} {order order' : List InvocationId}
      (h : ts.foldlM (g.visit stop depth) order = .ok order') (hl : g.Lists stop order) :
      g.Lists stop order' ∧ g.Extends stop ts order order' ∧
        ∀ t ∈ ts, g.Settled stop order' t := by
    refine foldlM_keeps (R := g.Extends stop ts) (Q := fun t o => g.Settled stop o t)
      (fun _ => ⟨List.prefix_refl _, fun _ => .inl⟩) Extends.trans
      (fun hs he => hs.later he.1) (fun t ht _ _ hc hd => ?_) h hl
    obtain ⟨h1, h2, h3⟩ := visit_lists hd hc
    exact ⟨h1, h2.mono (by simpa using .root ht), h3⟩
  termination_by (depth, 1)

/-- **The internal order of a model** is made of what a search from the outputs
    reaches, each invocation once and behind the producers of its inputs, and
    it settles the outputs. -/
theorem internalOrder_lists {m : ModelDef} {order : List InvocationId}
    (h : g.internalOrder m = .ok order) :
    g.Lists m.inputs order ∧ (∀ i ∈ order, g.Reached m.inputs m.outputs i) ∧
      ∀ t, g.Met m.inputs m.outputs t → g.Settled m.inputs order t := by
  obtain ⟨hl, hext, hs⟩ := visit_lists.visits_lists ha h .nil
  exact ⟨hl, fun i hi => (hext.2 i hi).resolve_left (by simp), fun t => hl.settled_of_met hs⟩

omit ha in
theorem visit_of_grows (hg : g.Grows g') : ∀ {depth depth' : Nat} {order order' : List InvocationId}
    {t : TensorId}, g.visit stop depth order t = .ok order' → depth ≤ depth' →
      g'.visit stop depth' order t = .ok order'
  | 0, _, _, _, _, h, _ => by simp [visit] at h
  | depth + 1, 0, _, _, _, _, hd => by omega
  | depth + 1, depth' + 1, order, order', t, h, hd => by
    rw [visit_eq_ok] at h ⊢
    refine h.imp id fun ⟨ht, p, hp, h⟩ => ⟨ht, p, hg.producer hp, h.imp id ?_⟩
    rintro ⟨hi, inv, listed, hinv, he, hf, rfl⟩
    exact ⟨hi, inv, listed, hg.record _ _ hinv, he,
      foldlM_imp (fun u _ _ _ hu => visit_of_grows hg hu (by omega)) hf, rfl⟩

omit ha in
/-- Growing does not change the internal order of a model. -/
theorem internalOrder_of_grows (hg : g.Grows g') {m : ModelDef} {order : List InvocationId}
    (h : g.internalOrder m = .ok order) : g'.internalOrder m = .ok order :=
  foldlM_imp (fun _ _ _ _ hu => visit_of_grows hg hu (by have := hg.size_tensors; omega)) h

end Neuroform.Graph

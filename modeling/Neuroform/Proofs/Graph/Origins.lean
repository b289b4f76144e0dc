/-
  Neuroform — where the tensors of a graph come from.

  In a graph that can be built, a tensor is an output of a recorded invocation
  unless it was added as a detached one, and it stands for another, older tensor
  just if it is an output of a model (`Reachable.labelled`).  So what tensors
  stand for, followed to the end, leads to an output of a primitive layer, and
  only the way from a detached tensor leads nowhere (`tensors_resolve`).
-/
import Neuroform.Proofs.Graph.Adding
import Neuroform.Proofs.Graph.Dims
import Neuroform.Proofs.Rational

namespace Neuroform.Graph

variable {α : Type} {g g' : Graph α}

/-- A tensor leads to another one: what it stands for, what that one stands for,
    and so on. -/
def LeadsTo (g : Graph α) : TensorId → TensorId → Prop :=
  Relation.ReflTransGen fun t u => g.inner? t = some u

variable [Scalar α]

/-- A tensor was added as a detached one when the graph was built. -/
def MadeDetached (g : Graph α) (t : TensorId) : Prop :=
  ∃ (g₀ g₁ : Graph α) (shape : Shape), g₀.Reachable ∧
    (addDetached shape).exec g₀ = (.ok t, g₁) ∧ g₁.Reaches g

/-! ## Detached tensors -/

/-- A detached tensor has no producer, however the graph is built on. -/
theorem MadeDetached.tensor {t : TensorId} (h : g.MadeDetached t) :
    ∃ shape, g.tensor t = .ok ⟨shape, none, none⟩ := by
  obtain ⟨g₀, g₁, shape, hg₀, he, hg₁⟩ := h
  obtain ⟨ht, rfl⟩ := Prod.mk.inj (exec_addTensor.symm.trans he)
  obtain rfl := Except.ok.inj ht
  have hs := ((BuildStep.detached shape).sound hg₀.sound).1
  refine ⟨shape, tensor_eq_ok.2 ((hg₁.sound hs).2.tensor _ _ ?_)⟩
  simp

/-- Every tensor is an output of a layer, or was added as a detached one. -/
theorem Reachable.labelled (h : g.Reachable) : ∀ (n : Nat) (x : Tensor), g.tensors[n]? = some x →
    g.Labelled x ∨ g.MadeDetached ⟨n⟩ := by
  induction h with
  | refl => intro n x hx; simp [empty] at hx
  | @step g' hg' s ih =>
    intro n x hx
    have hold : n < g'.tensors.size → (s.after g').Labelled x ∨ (s.after g').MadeDetached ⟨n⟩ := by
      intro hn
      have hy := Array.getElem?_eq_getElem hn
      have hxy : g'.tensors[n] = x :=
        Option.some.inj ((s.grows.tensor n _ hy).symm.trans hx)
      rcases ih n x (hxy ▸ hy) with hlab | ⟨g₀, g₁, shape, hg₀, he, hg₁⟩
      · exact .inl (hlab.mono s.grows)
      · exact .inr ⟨g₀, g₁, shape, hg₀, he, .step hg₁ s⟩
    by_cases hn : n < g'.tensors.size
    · exact hold hn
    rcases s.augmented (g := g') with haug | ⟨shape, rfl⟩
    · exact .inl (haug.labelled n x hx (Nat.le_of_not_lt hn))
    · -- the only new tensor is the one that has just been added
      have hx' : (g'.tensors.push ⟨shape, none, none⟩)[n]? = some x := hx
      have hlt := (Array.getElem?_eq_some_iff.1 hx').1
      rw [Array.size_push] at hlt
      obtain rfl : n = g'.tensors.size := by omega
      exact .inr ⟨g', _, shape, hg', exec_addTensor, .refl⟩

/-- A tensor without a producer was added as a detached one. -/
theorem Reachable.madeDetached_iff (h : g.Reachable) {t : TensorId}
    (ht : t.index < g.tensors.size) : g.MadeDetached t ↔ g.producer? t = none := by
  constructor
  · intro hd
    obtain ⟨shape, hx⟩ := hd.tensor
    simp [producer?, tensor_eq_ok.1 hx]
  · intro hp
    have hx := Array.getElem?_eq_getElem ht
    rcases h.labelled _ _ hx with ⟨p, k, hprov, -, -⟩ | hd
    · rw [producer?, hx, Option.bind_some, hprov] at hp
      cases hp
    · exact hd

/-! ## Tensors that stand for others -/

/-- A tensor stands for another one just if it is an output of a model. -/
theorem Reachable.inner?_iff (h : g.Reachable) {t : TensorId} : (∃ u, g.inner? t = some u) ↔
    ∃ p m, g.producer? t = some p ∧ g.model? p.layer = some m := by
  constructor
  · rintro ⟨u, hu⟩
    obtain ⟨x, hx, hu⟩ := inner?_eq_some.1 hu
    rcases h.labelled _ _ (tensor_eq_ok.1 hx) with ⟨p, k, hp, hk, hsome⟩ | hd
    · rw [hu, Option.isSome_some] at hsome
      obtain ⟨m, hm⟩ := Option.isSome_iff_exists.1 hsome.symm
      exact ⟨p, m, producer?_eq_some.2 ⟨x, hx, hp⟩, by simp [model?, hk, hm]⟩
    · obtain ⟨shape, hx'⟩ := hd.tensor
      rw [Except.ok.inj (hx.symm.trans hx')] at hu
      cases hu
  · rintro ⟨p, m, hp, hm⟩
    obtain ⟨inv, -, ht, hmade⟩ := h.sound.made hp
    obtain ⟨order, become, hc⟩ := hmade.called_of_model hm
    obtain ⟨y, -, hin, -⟩ := forall₂_getElem? hc.outputs ht
    exact ⟨_, hin⟩

/-- What a tensor stands for is older than it and has its shape. -/
theorem Reachable.inner_older (h : g.Reachable) {t u : TensorId} (hu : g.inner? t = some u) :
    u.index < t.index ∧ g.SameShape u t := by
  obtain ⟨p, m, hp, hm⟩ := h.inner?_iff.1 ⟨u, hu⟩
  obtain ⟨inv, -, ht, hmade⟩ := h.sound.made hp
  obtain ⟨order, become, hc⟩ := hmade.called_of_model hm
  exact ⟨h.sound.inner_lt hp hm hu, hc.inner_sameShape h.sound ht hu⟩

/-- Every tensor with a producer resolves: what it stands for has one, too. -/
theorem Sound.exists_resolves (hs : g.Sound) : ∀ {n : Nat} {t : TensorId} {p : Provenance},
    t.index < n → g.producer? t = some p → ∃ q, g.Resolves t q
  | 0, _, _, hn, _ => by omega
  | n + 1, t, p, hn, hp => by
    cases hm : g.model? p.layer with
    | none => exact ⟨p, .here hp hm⟩
    | some m =>
      obtain ⟨inv, -, ht, hmade⟩ := hs.made hp
      obtain ⟨order, become, hc⟩ := hmade.called_of_model hm
      obtain ⟨y, hy, hin, hlt, -⟩ := forall₂_getElem? hc.outputs ht
      obtain ⟨_, q, _, -, hq, -⟩ := hc.replayed.copied hs (.root (List.mem_of_getElem? hy))
      obtain ⟨r, hr⟩ := hs.exists_resolves (n := n) (by omega) hq
      exact ⟨r, .through hp hm hin hr⟩

/-- A tensor resolves to the output that what it stands for, followed to the
    end, leads to. -/
theorem Reachable.leadsTo_of_resolves (h : g.Reachable) {t : TensorId} {p : Provenance}
    (hp : g.Resolves t p) : ∃ u, g.LeadsTo t u ∧ g.inner? u = none ∧ g.producer? u = some p ∧
      g.model? p.layer = none := by
  induction hp with
  | @here t p producer primitive =>
    refine ⟨t, .refl, ?_, producer, primitive⟩
    by_contra hne
    obtain ⟨q, m, hq, hm⟩ := h.inner?_iff.1 (Option.ne_none_iff_exists'.1 hne)
    obtain rfl := Option.some.inj (producer.symm.trans hq)
    simp [primitive] at hm
  | through _ _ inner _ ih =>
    obtain ⟨u, hu, hend, hp, hprim⟩ := ih
    exact ⟨u, .head inner hu, hend, hp, hprim⟩

omit [Scalar α] in
/-- A tensor without a producer is not resolved. -/
theorem resolveProvenance_of_orphan {t : TensorId} (ht : t.index < g.tensors.size)
    (hp : g.producer? t = none) :
    g.resolveProvenance t = refuse (ConversionCause.unresolvedProvenance t) := by
  have hx := Array.getElem?_eq_getElem ht
  have hprov : g.tensors[t.index].provenance = none := by
    rwa [producer?, hx, Option.bind_some] at hp
  have htensor : g.tensor t = .ok g.tensors[t.index] := tensor_eq_ok.2 hx
  simp only [resolveProvenance, followInner, bind, Except.bind, htensor, hprov]
  rfl

/-- **Tensors come from where they say, and can be followed there.**  In a graph
    that can be built every tensor with a producer is the output of it that it
    says; it stands for another one just if the producer is a model, and that
    one is older and of the same shape; applications of primitive layers make
    tensors that are newer than their inputs.  So every tensor that is not
    detached resolves to the output of a primitive layer at the end of what it
    stands for, and a detached one is refused. -/
theorem tensors_resolve (h : g.Reachable) :
    (∀ t p, g.producer? t = some p →
      ∃ inv, g.record? p.source = some inv ∧ inv.outputs[p.output]? = some t) ∧
    (∀ t, (∃ u, g.inner? t = some u) ↔
      ∃ p m, g.producer? t = some p ∧ g.model? p.layer = some m) ∧
    (∀ t u, g.inner? t = some u → u.index < t.index ∧ g.SameShape u t) ∧
    (∀ i inv, g.model? i.layer = none → g.record? i = some inv → inv.Ordered) ∧
    ∀ t, t.index < g.tensors.size →
      (g.MadeDetached t → g.resolveProvenance t =
        refuse (ConversionCause.unresolvedProvenance t)) ∧
      (¬ g.MadeDetached t → ∃ u p op inv, g.resolveProvenance t = .ok p ∧
        g.operation? p.layer = some op ∧ g.record? p.source = some inv ∧
        inv.outputs[p.output]? = some u ∧ g.LeadsTo t u ∧ g.inner? u = none) := by
  have hs := h.sound
  refine ⟨?_, fun _ => h.inner?_iff, fun _ _ => h.inner_older, ?_, ?_⟩
  · intro t p hp
    obtain ⟨inv, hr, hout, -⟩ := hs.made hp
    exact ⟨inv, hr, hout⟩
  · intro i inv hprim hr
    rcases hs.record hr with hm | ⟨-, m, hm⟩
    · exact hm.ordered
    · simp [hprim] at hm
  · intro t ht
    rw [h.madeDetached_iff ht]
    refine ⟨resolveProvenance_of_orphan ht, fun hne => ?_⟩
    obtain ⟨q, hq⟩ := Option.ne_none_iff_exists'.1 hne
    obtain ⟨p, hp⟩ := hs.exists_resolves t.index.lt_succ_self hq
    obtain ⟨u, hu, hend, hup, hprim⟩ := h.leadsTo_of_resolves hp
    obtain ⟨inv, hr, hout, hm⟩ := hs.made hup
    cases hm with
    | applied ha =>
      exact ⟨u, p, _, inv, (resolveProvenance_eq_ok hs).2 hp, ha.operation, hr, hout, hu, hend⟩
    | called hc => exact absurd (hprim.symm.trans hc.model) (by simp)

/-- The output of a call, which stands for that of the rectifier inside of it,
    and a detached tensor. -/
theorem tensors_resolve_nested :
    ((build (nested ++ [.detached ⟨[none]⟩]) : Graph ℚ).resolveProvenance ⟨5⟩ = .ok ⟨⟨1⟩, 1, 0⟩ ∧
      ∃ u, (build (nested ++ [.detached ⟨[none]⟩]) : Graph ℚ).LeadsTo ⟨5⟩ u ∧
        (build (nested ++ [.detached ⟨[none]⟩]) : Graph ℚ).inner? u = none) ∧
    (build (nested ++ [.detached ⟨[none]⟩]) : Graph ℚ).resolveProvenance ⟨6⟩ =
      refuse (ConversionCause.unresolvedProvenance ⟨6⟩) := by
  have h : (build (nested ++ [.detached ⟨[none]⟩]) : Graph ℚ).Reachable := reachable_build _
  obtain ⟨-, -, -, -, hresolve⟩ := tensors_resolve h
  have hmade : (build (nested ++ [.detached ⟨[none]⟩]) : Graph ℚ).MadeDetached ⟨6⟩ :=
    ⟨build nested, _, ⟨[none]⟩, reachable_build nested, rfl, .refl⟩
  have hnot : ¬ (build (nested ++ [.detached ⟨[none]⟩]) : Graph ℚ).MadeDetached ⟨5⟩ := by
    rw [h.madeDetached_iff (by decide)]
    decide
  obtain ⟨u, p, -, -, hp, -, -, -, hu, hend⟩ := (hresolve ⟨5⟩ (by decide)).2 hnot
  obtain rfl : p = ⟨⟨1⟩, 1, 0⟩ := Except.ok.inj (hp.symm.trans rfl)
  exact ⟨⟨hp, u, hu, hend⟩, (hresolve ⟨6⟩ (by decide)).1 hmade⟩

end Neuroform.Graph

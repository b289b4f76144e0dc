/-
  Neuroform — where tensors come from, seen through calls.

  `Resolves` follows a tensor through called models to the output of an
  invocation of a primitive layer.  In a sound graph this is what resolving its
  provenance gives (`resolveProvenance_eq_ok`): what an output of a call stands
  for is older than it, so the search comes to an end.
-/
import Neuroform.Graph.Provenance
import Neuroform.Proofs.Graph.Sound

namespace Neuroform.Graph

variable {α : Type} {g : Graph α}

/-- A tensor comes from an invocation of a primitive layer, seen through the
    calls of models. -/
inductive Resolves (g : Graph α) : TensorId → Provenance → Prop where
  | here {t : TensorId} {p : Provenance} (producer : g.producer? t = some p)
      (primitive : g.model? p.layer = none) : Resolves g t p
  | through {t u : TensorId} {q p : Provenance} {m : ModelDef} (producer : g.producer? t = some q)
      (model : g.model? q.layer = some m) (inner : g.inner? t = some u) (rest : Resolves g u p) :
      Resolves g t p

theorem Resolves.unique {t : TensorId} {p q : Provenance} (h : g.Resolves t p)
    (h' : g.Resolves t q) : p = q := by
  induction h with
  | here producer primitive =>
    cases h' with
    | here producer' _ => exact Option.some.inj (producer.symm.trans producer')
    | through producer' model _ _ =>
      obtain rfl := Option.some.inj (producer.symm.trans producer')
      simp [primitive] at model
  | through producer model inner _ ih =>
    cases h' with
    | here producer' primitive =>
      obtain rfl := Option.some.inj (producer.symm.trans producer')
      simp [primitive] at model
    | through _ _ inner' rest' =>
      obtain rfl := Option.some.inj (inner.symm.trans inner')
      exact ih rest'

theorem Resolves.index_lt {t : TensorId} {p : Provenance} (h : g.Resolves t p) :
    t.index < g.tensors.size := by
  have ht : ∃ q, g.producer? t = some q := by cases h <;> exact ⟨_, ‹_›⟩
  obtain ⟨q, hq⟩ := ht
  exact index_lt_of_producer? hq

section
variable [Scalar α]

/-- A resolved tensor ends at an output of an invocation of a primitive layer
    that is not made after it. -/
theorem Resolves.applied (hs : g.Sound) {t : TensorId} {p : Provenance} (h : g.Resolves t p) :
    ∃ u inv op s s', u.index ≤ t.index ∧ g.producer? u = some p ∧ g.record? p.source = some inv ∧
      inv.outputs[p.output]? = some u ∧ g.Applied p.source inv op s s' := by
  induction h with
  | @here t p producer primitive =>
    obtain ⟨inv, hr, ht, hm⟩ := hs.made producer
    cases hm with
    | applied h => exact ⟨t, inv, _, _, _, Nat.le_refl _, producer, hr, ht, h⟩
    | called h => exact absurd (primitive.symm.trans h.model) (by simp)
  | @through t u q p m producer model inner _ ih =>
    obtain ⟨v, inv, op, s, s', hle, h⟩ := ih
    exact ⟨v, inv, op, s, s', hle.trans (hs.inner_lt producer model inner).le, h⟩

theorem followInner_eq_ok {t : TensorId} : ∀ {depth : Nat} {u : TensorId} {p : Provenance},
    g.followInner t depth u = .ok p → g.Resolves u p
  | 0, _, _, h => by simp [followInner] at h
  | depth + 1, u, p, h => by
    simp only [followInner, bind_eq_ok, orRefuse_eq_ok] at h
    obtain ⟨x, hx, q, hq, layer, hl, h⟩ := h
    have hp : g.producer? u = some q := producer?_eq_some.2 ⟨x, hx, hq⟩
    rcases operation?_or_model? hl with ⟨op, -, hnot, -, hm⟩ | ⟨m, -, his, hm, -⟩
    · rw [if_neg (by simp [hnot])] at h
      obtain rfl := pure_eq_ok.1 h
      exact .here hp hm
    · rw [if_pos his] at h
      obtain ⟨v, hv, h⟩ := bind_eq_ok.1 h
      exact .through hp hm (inner?_eq_some.2 ⟨x, hx, orRefuse_eq_ok.1 hv⟩) (followInner_eq_ok h)

theorem followInner_of_resolves (hs : g.Sound) {t : TensorId} {u : TensorId} {p : Provenance}
    (h : g.Resolves u p) : ∀ {depth : Nat}, u.index < depth → g.followInner t depth u = .ok p := by
  induction h with
  | here producer primitive =>
    rintro (_ | depth) hd
    · omega
    obtain ⟨x, hx, hq⟩ := producer?_eq_some.1 producer
    obtain ⟨inv, hr, -, -⟩ := hs.made producer
    obtain ⟨layer, hl⟩ := layer_of_record hr
    have hl' : g.layer _ = .ok layer := hl
    rcases operation?_or_model? hl' with ⟨op, -, hnot, -, -⟩ | ⟨m, -, -, hm, -⟩
    · simp only [followInner, bind_eq_ok, orRefuse_eq_ok]
      exact ⟨x, hx, _, hq, layer, hl', by rw [if_neg (by simp [hnot])]; rfl⟩
    · exact absurd (primitive.symm.trans hm) (by simp)
  | through producer model inner rest ih =>
    rintro (_ | depth) hd
    · omega
    obtain ⟨x, hx, hq⟩ := producer?_eq_some.1 producer
    have hlt := hs.inner_lt producer model inner
    obtain ⟨inv, hr, -, -⟩ := hs.made producer
    obtain ⟨layer, hl⟩ := layer_of_record hr
    have hl' : g.layer _ = .ok layer := hl
    obtain ⟨x', hx', hv⟩ := inner?_eq_some.1 inner
    obtain rfl := Except.ok.inj (hx.symm.trans hx')
    rcases operation?_or_model? hl' with ⟨op, -, -, -, hnone⟩ | ⟨m, -, his, -, -⟩
    · exact absurd (hnone.symm.trans model) (by simp)
    · simp only [followInner, bind_eq_ok, orRefuse_eq_ok]
      refine ⟨x, hx, _, hq, layer, hl', ?_⟩
      rw [if_pos his]
      exact bind_eq_ok.2 ⟨_, orRefuse_eq_ok.2 hv, ih (by omega)⟩

/-- **Resolving a tensor** gives the primitive invocation output behind it. -/
theorem resolveProvenance_eq_ok (hs : g.Sound) {t : TensorId} {p : Provenance} :
    g.resolveProvenance t = .ok p ↔ g.Resolves t p := by
  refine ⟨followInner_eq_ok, fun h => followInner_of_resolves hs h ?_⟩
  have := h.index_lt
  omega

theorem resolveAll_eq_ok (hs : g.Sound) {ts : List TensorId} {ps : List Provenance} :
    g.resolveAll ts = .ok ps ↔ List.Forall₂ g.Resolves ts ps := by
  have hf : (fun t p => g.resolveProvenance t = .ok p) = g.Resolves := by
    ext t p; exact resolveProvenance_eq_ok hs
  simp only [resolveAll, bind_eq_ok, mapM_forall₂, hf, pure_eq_ok]
  constructor
  · rintro ⟨qs, hq, rfl⟩
    rw [← List.forall₂_reverse_iff, List.reverse_reverse]
    exact hq
  · intro h
    exact ⟨ps.reverse, List.forall₂_reverse_iff.2 h, List.reverse_reverse ps⟩

theorem resolveAll_error (hs : g.Sound) {ts : List TensorId} {e : Failure}
    (h : g.resolveAll ts = .error e) : ∃ u ∈ ts, ∀ p, g.resolveProvenance u ≠ .ok p := by
  by_contra hall
  push Not at hall
  obtain ⟨ps, hps⟩ := exists_forall₂ hall
  rw [(resolveAll_eq_ok hs).2 (hps.imp fun _ _ => (resolveProvenance_eq_ok hs).1)] at h
  cases h

end

end Neuroform.Graph

/-
  Neuroform — applying primitive layers, and the entries of models.

  A primitive layer that has been applied can be applied again to tensors of the
  same shapes (`Applied.again`).  A call of a model begins with the entries of
  its inputs, one after the other, and stops at the first tensor that is not
  accepted (`replayInputs_ends`).
-/
import Neuroform.Proofs.Graph.Tidy

namespace Neuroform

/-- What an entry makes of the shape of a single tensor. -/
theorem InputLayer.outputShapes_single (d : InputLayer) (s : Shape) : d.outputShapes [s] =
    if s.rank = d.shape.rank then .ok [d.shape]
    else refuse (LayerCause.inputRank d.shape s) := by
  unfold InputLayer.outputShapes require
  by_cases h : s.rank = d.shape.rank
  · rw [if_pos h]
    simp [h]
    rfl
  · rw [if_neg h]
    simp [h]
    rfl

namespace Graph

variable {α : Type} [Scalar α] {g g' : Graph α}

/-! ## Primitive layers -/

/-- Applying a primitive layer keeps a graph tidy. -/
theorem Tidy.applyPrimitive (h : g.Tidy) (l : LayerId) (inputs : List TensorId) :
    ((applyPrimitive l inputs).exec g).2.Tidy := by
  rcases applyPrimitive_ends (g := g) l inputs with
    ⟨e, he⟩ | ⟨layer, op, shapes, outs, hl, hop, -, -, he⟩
  · rwa [he]
  · rw [he]
    refine h.extended hl fun m hm => ?_
    rw [model?_eq_none_of_operation? ((operation?_of_layer hl).trans hop)] at hm
    cases hm

/-- What a primitive layer has made of some tensors it makes of others of the
    same shapes. -/
theorem Applied.again {i : InvocationId} {inv : Invocation} {op : Operation α}
    {shapes outputShapes : List Shape} (h : g.Applied i inv op shapes outputShapes)
    {us : List TensorId} (hus : List.Forall₂ g.SameShape inv.inputs us) :
    ∃ zs g', (Graph.applyPrimitive i.layer us).exec g = (.ok zs, g') := by
  obtain ⟨k, hk, hop⟩ := Option.bind_eq_some_iff.1 h.operation
  obtain ⟨layer, hl, rfl⟩ := kind?_eq_some.1 hk
  have hin : List.Forall₂ (fun t s => g.shape? t = some s) us shapes :=
    forall₂_comp (fun u t s hu ht => by
      obtain ⟨s', hs', hu⟩ := hu
      rw [hu, ← hs', ht]) hus.flip h.inputs
  exact ⟨_, _, by rw [exec_applyPrimitive hl hop hin, h.inferred]; rfl⟩

/-! ## Entries -/

/-- The entry behind a model input refuses a tensor for its rank. -/
def Refuses (g : Graph α) (x u : TensorId) (e : Failure) : Prop :=
  ∃ p layer d s, g.producer? x = some p ∧ g.layer p.layer = .ok layer ∧
    layer.kind = .primitive (.input d) ∧ g.shape? u = some s ∧ s.rank ≠ d.shape.rank ∧
    e = .refused [.applying layer.text] (.layer (.inputRank d.shape s))

/-- The entries of model inputs have been applied to tensors, one after the
    other: each input accepts its tensor, and its entry has got one more
    invocation, with an output of the declared shape. -/
inductive Enters : Graph α → List (TensorId × TensorId) → Graph α → Prop where
  | nil {g : Graph α} : Enters g [] g
  | cons {g g' : Graph α} {x u : TensorId} {p : Provenance} {layer : Layer α} {d : InputLayer}
      {fed : List (TensorId × TensorId)} (producer : g.producer? x = some p)
      (entry : g.layer p.layer = .ok layer) (kind : layer.kind = .primitive (.input d))
      (accepts : g.Accepts x u)
      (later : Enters (g.extended p.layer [u]
        [⟨d.shape, some ⟨p.layer, layer.invocations.size, 0⟩, none⟩]) fed g') :
      Enters g ((x, u) :: fed) g'

namespace Enters
variable {fed : List (TensorId × TensorId)}

omit [Scalar α] in
theorem grows (h : g.Enters fed g') : g.Grows g' := by
  induction h with
  | nil => exact .refl _
  | cons _ entry _ _ _ ih => exact (grows_extended entry).trans ih

omit [Scalar α] in
theorem tidy (h : g.Enters fed g') (ht : g.Tidy) : g'.Tidy := by
  induction h with
  | nil => exact ht
  | cons _ entry kind _ _ ih =>
    refine ih (ht.extended entry fun m hm => ?_)
    rw [model?_of_layer entry, kind] at hm
    cases hm

omit [Scalar α] in
theorem accepts (h : g.Enters fed g') : ∀ e ∈ fed, g'.Accepts e.1 e.2 := by
  induction h with
  | nil => simp
  | cons _ entry _ accepts later ih =>
    rintro e (_ | ⟨_, he⟩)
    · exact accepts.mono ((grows_extended entry).trans later.grows)
    · exact ih e he

end Enters

section
variable {apply : LayerId → List TensorId → Step (Graph α) (List TensorId)}
  {x u : TensorId} {p : Provenance}

/-- Feeding a tensor to a model either applies the entry or is refused. -/
theorem replayInput_ends (replay : Replay)
    (happly : (apply p.layer [u]).exec g = (applyPrimitive p.layer [u]).exec g)
    (hp : g.producer? x = some p) (he : g.IsEntry p.layer) :
    (∃ layer d y, g.layer p.layer = .ok layer ∧ layer.kind = .primitive (.input d) ∧
      g.Accepts x u ∧ (replayInput apply replay (x, u)).exec g = (.ok ((x, y) :: replay),
        g.extended p.layer [u] [⟨d.shape, some ⟨p.layer, layer.invocations.size, 0⟩, none⟩])) ∨
    ¬g.Accepts x u ∧ ∃ e, (replayInput apply replay (x, u)).exec g = (.error e, g) ∧
      ∀ s, g.shape? u = some s → g.Refuses x u e := by
  obtain ⟨d, hd⟩ := he
  obtain ⟨layer, hl, hkind⟩ := kind?_eq_some.1 hd
  obtain ⟨tensor, ht, hprov⟩ := producer?_eq_some.1 hp
  have hop : layer.kind.operation? = some d.operation := by rw [hkind]; rfl
  have hstart : (replayInput apply replay (x, u)).exec g = (do
      let outputs ← applyPrimitive p.layer [u]
      let replayed ← (orFault outputs.head? : Outcome TensorId)
      return (x, replayed) :: replay : Step (Graph α) Replay).exec g := by
    unfold replayInput
    rw [Step.exec_get_bind, ht]
    simp only [Step.exec_lift_bind, hprov, orRefuse, Option.elim_some]
    rw [Step.exec_bind, Step.exec_bind, happly]
  rw [hstart]
  cases hu : g.shape? u with
  | none =>
    refine .inr ⟨?_, ?_⟩
    · rintro ⟨_, _, s, -, -, hs, -⟩
      rw [hu] at hs
      cases hs
    · rcases applyPrimitive_ends (g := g) p.layer [u] with ⟨e, he⟩ | ⟨_, _, shapes, _, -, -, hin, -⟩
      · exact ⟨e, Step.exec_bind_error he, by simp⟩
      · obtain ⟨s, -, hs⟩ := forall₂_mem_left hin u (by simp)
        rw [hu] at hs
        cases hs
  | some s =>
    have hin : List.Forall₂ (fun t s => g.shape? t = some s) [u] [s] := .cons hu .nil
    have hends := exec_applyPrimitive hl hop hin
    rw [show d.operation.outputShapes [s] = _ from InputLayer.outputShapes_single d s] at hends
    by_cases hrank : s.rank = d.shape.rank
    · refine .inl ⟨layer, d, ⟨g.tensors.size⟩, hl, hkind, ⟨p, d, s, hp, hd, hu, hrank⟩, ?_⟩
      rw [if_pos hrank] at hends
      rw [Step.exec_bind_ok hends]
      rfl
    · refine .inr ⟨?_, .refused [.applying layer.text] (.layer (.inputRank d.shape s)), ?_, ?_⟩
      · rintro ⟨q, d', s', hq, hd', hs', hrank'⟩
        obtain rfl := Option.some.inj (hp.symm.trans hq)
        obtain rfl : d = d' := by simpa using hd.symm.trans hd'
        obtain rfl := Option.some.inj (hu.symm.trans hs')
        exact hrank hrank'
      · rw [if_neg hrank] at hends
        exact Step.exec_bind_error hends
      · intro s' hs'
        obtain rfl := Option.some.inj hs'
        exact ⟨p, layer, d, s, hp, hl, hkind, hu, hrank, rfl⟩

/-- The inputs of a model are fed one by one, up to the first one that does not
    accept its tensor. -/
theorem replayInputs_ends {n : Nat}
    (happly : ∀ l u (g : Graph α), l.index < n → g.IsEntry l →
      (apply l [u]).exec g = (applyPrimitive l [u]).exec g) :
    ∀ (fed : List (TensorId × TensorId)) (replay : Replay) (g : Graph α),
      (∀ e ∈ fed, ∃ p, g.producer? e.1 = some p ∧ g.IsEntry p.layer ∧ p.layer.index < n) →
      (∃ replay' g', (fed.foldlM (replayInput apply) replay).exec g = (.ok replay', g') ∧
        g.Enters fed g') ∨
      ∃ done x u rest e g', fed = done ++ (x, u) :: rest ∧
        (fed.foldlM (replayInput apply) replay).exec g = (.error e, g') ∧ g.Enters done g' ∧
        ¬g'.Accepts x u ∧ ∀ s, g'.shape? u = some s → g'.Refuses x u e
  | [], replay, g, _ => .inl ⟨replay, g, rfl, .nil⟩
  | (x, u) :: fed, replay, g, hentry => by
    obtain ⟨p, hp, he, hlt⟩ := hentry (x, u) (by simp)
    rw [List.foldlM_cons]
    rcases replayInput_ends replay (happly p.layer u g hlt he) hp he with
      ⟨layer, d, y, hl, hkind, haccepts, hexec⟩ | ⟨hnot, e, hexec, hrefuses⟩
    · have hg : g.Grows (g.extended p.layer [u]
          [⟨d.shape, some ⟨p.layer, layer.invocations.size, 0⟩, none⟩]) := grows_extended hl
      rw [Step.exec_bind_ok hexec]
      rcases replayInputs_ends happly fed ((x, y) :: replay) _ fun e he => by
          obtain ⟨q, hq, ⟨d', hd'⟩, hlt⟩ := hentry e (List.mem_cons_of_mem _ he)
          exact ⟨q, hg.producer hq, ⟨d', hg.kind _ _ hd'⟩, hlt⟩ with
        ⟨replay', g', hexec', henters⟩ | ⟨done, x', u', rest, e, g', rfl, hexec', henters, h⟩
      · exact .inl ⟨replay', g', hexec', .cons hp hl hkind haccepts henters⟩
      · exact .inr ⟨(x, u) :: done, x', u', rest, e, g', rfl, hexec',
          .cons hp hl hkind haccepts henters, h⟩
    · exact .inr ⟨[], x, u, fed, e, g, rfl, Step.exec_bind_error hexec, .nil, hnot, hrefuses⟩

end
end Graph
end Neuroform

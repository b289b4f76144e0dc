/-
  Neuroform — the values of tensors.

  From values that are fed to some tensors, `Evaluates` gives those of others:
  an output of a call has the value of the tensor it stands for, every other
  tensor what its layer makes of the inputs.  Evaluation on demand finds just
  these values (`resolve_sound`, `resolve_complete`), because all that it has
  found before is among them (`Consistent`).
-/
import Neuroform.Graph.Evaluate
import Neuroform.Proofs.Binding
import Neuroform.Proofs.Graph.Sound

namespace Neuroform.Graph

variable {α : Type} [Scalar α]

/-- What a tensor evaluates to, if some tensors are fed. -/
inductive Evaluates (g : Graph α) (fed : Valuation α) : TensorId → Grid α → Prop where
  | fed {t : TensorId} {v : Grid α} (h : fed.lookup t = some v) : Evaluates g fed t v
  | inside {t u : TensorId} {p : Provenance} {m : ModelDef} {v : Grid α}
      (unfed : fed.lookup t = none) (producer : g.producer? t = some p)
      (model : g.model? p.layer = some m) (inner : g.inner? t = some u)
      (rest : Evaluates g fed u v) : Evaluates g fed t v
  | forward {t : TensorId} {p : Provenance} {inv : Invocation} {op : Operation α}
      {vs rs : List (Grid α)} {v : Grid α} (unfed : fed.lookup t = none)
      (producer : g.producer? t = some p) (record : g.record? p.source = some inv)
      (operation : g.operation? p.layer = some op) (arity : inv.inputs.length = vs.length)
      (inputs : ∀ e ∈ inv.inputs.zip vs, Evaluates g fed e.1 e.2)
      (results : op.forward vs = .ok rs) (count : rs.length = inv.outputs.length)
      (value : rs[p.output]? = some v) : Evaluates g fed t v

/-- Values that contain those that are fed, and otherwise what tensors evaluate
    to. -/
structure Consistent (g : Graph α) (fed values : Valuation α) : Prop where
  keeps : ∀ t v, fed.lookup t = some v → values.lookup t = some v
  evaluates : ∀ t v, values.lookup t = some v → g.Evaluates fed t v

/-- A valuation has all values of another one. -/
def Later (values values' : Valuation α) : Prop :=
  ∀ t v, values.lookup t = some v → values'.lookup t = some v

/-- Only entries of models are fed. -/
def FedAtEntries (g : Graph α) (fed : Valuation α) : Prop :=
  ∀ t v, fed.lookup t = some v → ∃ p, g.producer? t = some p ∧ g.IsEntry p.layer

/-- An invocation made outputs that are not fed. -/
def MakesUnfed (g : Graph α) (fed : Valuation α) (i : InvocationId) : Prop :=
  ∃ inv, g.record? i = some inv ∧ g.Made i inv ∧ ∀ t ∈ inv.outputs, fed.lookup t = none

section
variable {g : Graph α} {fed values values' : Valuation α} {t : TensorId} {v : Grid α}

namespace Later

omit [Scalar α] in
theorem refl (values : Valuation α) : Later values values := fun _ _ h => h

omit [Scalar α] in
theorem trans {a b c : Valuation α} (h : Later a b) (h' : Later b c) : Later a c :=
  fun t v ht => h' t v (h t v ht)

end Later

/-! ## Evaluation as a relation -/

namespace Evaluates

theorem inputs_iff {ts : List TensorId} {vs : List (Grid α)} :
    List.Forall₂ (g.Evaluates fed) ts vs ↔ ts.length = vs.length ∧
      ∀ e ∈ ts.zip vs, g.Evaluates fed e.1 e.2 := by
  rw [List.forall₂_iff_zip]
  exact and_congr_right fun _ => ⟨fun h e he => h he, fun h _ _ he => h _ he⟩

/-- Tensors evaluate to one value. -/
theorem unique (h : g.Evaluates fed t v) : ∀ {w : Grid α}, g.Evaluates fed t w → v = w := by
  induction h with
  | fed h =>
    intro w h'
    cases h' with
    | fed h' => exact Option.some.inj (h.symm.trans h')
    | inside unfed => simp [h] at unfed
    | forward unfed => simp [h] at unfed
  | inside unfed producer model inner _ ih =>
    intro w h'
    cases h' with
    | fed h => simp [h] at unfed
    | inside _ _ _ inner' rest' =>
      obtain rfl := Option.some.inj (inner.symm.trans inner')
      exact ih rest'
    | forward _ producer' _ operation =>
      obtain rfl := Option.some.inj (producer.symm.trans producer')
      simp [operation?_eq_none_of_model? model] at operation
  | @forward t p inv op vs rs v unfed producer record operation arity inputs results count value ih =>
    intro w h'
    cases h' with
    | fed h => simp [h] at unfed
    | inside _ producer' model =>
      obtain rfl := Option.some.inj (producer.symm.trans producer')
      simp [operation?_eq_none_of_model? model] at operation
    | @forward _ p' inv' op' vs' rs' _ _ producer' record' operation' arity' inputs' results' _ value' =>
      obtain rfl := Option.some.inj (producer.symm.trans producer')
      obtain rfl := Option.some.inj (record.symm.trans record')
      obtain rfl := Option.some.inj (operation.symm.trans operation')
      have hsame : List.Forall₂ (fun t v => ∀ w, g.Evaluates fed t w → v = w) inv.inputs vs :=
        List.forall₂_iff_zip.2 ⟨arity, fun he _ => ih _ he⟩
      have hvs : vs = vs' := by
        rw [← List.forall₂_eq_eq_eq]
        exact forall₂_comp (fun v t w h h' => h w h') hsame.flip (inputs_iff.2 ⟨arity', inputs'⟩)
      obtain rfl := Except.ok.inj ((hvs ▸ results).symm.trans results')
      exact Option.some.inj (value.symm.trans value')

theorem unique_all {ts : List TensorId} {vs ws : List (Grid α)}
    (h : List.Forall₂ (g.Evaluates fed) ts vs) (h' : List.Forall₂ (g.Evaluates fed) ts ws) :
    vs = ws := by
  rw [← List.forall₂_eq_eq_eq]
  exact forall₂_comp (fun _ _ _ h h' => h.unique h') h.flip h'

/-- A tensor with a value has a producer or is fed. -/
theorem index_lt (hf : g.FedAtEntries fed) (h : g.Evaluates fed t v) : t.index < g.tensors.size := by
  have hp : ∃ p, g.producer? t = some p := by
    cases h with
    | fed h => obtain ⟨p, hp, -⟩ := hf t v h; exact ⟨p, hp⟩
    | inside _ producer => exact ⟨_, producer⟩
    | forward _ producer => exact ⟨_, producer⟩
  obtain ⟨p, hp⟩ := hp
  exact index_lt_of_producer? hp

end Evaluates

/-! ## Consistent valuations -/

namespace Consistent

theorem unfed (h : g.Consistent fed values) (ht : values.lookup t = none) :
    fed.lookup t = none := by
  cases hf : fed.lookup t with
  | none => rfl
  | some v => simp [h.keeps t v hf] at ht

/-- Binding tensors to what they evaluate to does not change any value. -/
theorem assign (h : g.Consistent fed values) {ts : List TensorId} {rs : List (Grid α)}
    (hr : List.Forall₂ (g.Evaluates fed) ts rs) :
    g.Consistent fed (values.assign ts rs) ∧ Later values (values.assign ts rs) := by
  have hev : ∀ t v, (values.assign ts rs).lookup t = some v → g.Evaluates fed t v := by
    intro t v ht
    rcases lookup_bind_eq_some ht with ⟨n, hn, hv⟩ | ht
    · obtain ⟨w, hw, he⟩ := forall₂_getElem? hr hn
      obtain rfl := Option.some.inj (hv.symm.trans hw)
      exact he
    · exact h.evaluates t v ht
  have hlater : Later values (values.assign ts rs) := by
    intro t v ht
    obtain ⟨w, hw⟩ := exists_lookup_of_mem (l := values.assign ts rs)
      (List.mem_append_right _ (mem_of_lookup ht))
    rw [hw, (hev t w hw).unique (h.evaluates t v ht)]
  exact ⟨⟨fun t v ht => hlater t v (h.keeps t v ht), hev⟩, hlater⟩

theorem cons (h : g.Consistent fed values) (ht : g.Evaluates fed t v) :
    g.Consistent fed ((t, v) :: values) ∧ Later values ((t, v) :: values) :=
  h.assign (.cons ht .nil : List.Forall₂ (g.Evaluates fed) [t] [v])

end Consistent

theorem consistent_self : g.Consistent fed fed := ⟨fun _ _ h => h, fun _ _ => .fed⟩

theorem forward_eq_ok {l : LayerId} {inv : Invocation} {rs : List (Grid α)} :
    g.forward l inv values = .ok rs ↔ ∃ op vs, g.operation? l = some op ∧
      List.Forall₂ (fun t v => values.lookup t = some v) inv.inputs vs ∧
      op.forward vs = .ok rs ∧ rs.length = inv.outputs.length := by
  simp only [forward, bind_eq_ok, orRefuse_eq_ok, mapM_forall₂, within_eq_ok, require_eq_ok,
    pure_eq_ok, exists_const]
  constructor
  · rintro ⟨layer, hl, op, hop, vs, hvs, rs', hrs, hlen, rfl⟩
    exact ⟨op, vs, by rw [operation?_of_layer hl, hop], hvs, hrs, hlen⟩
  · rintro ⟨op, vs, hop, hvs, hrs, hlen⟩
    obtain ⟨k, hk, ho⟩ := Option.bind_eq_some_iff.1 hop
    obtain ⟨layer, hl, rfl⟩ := kind?_eq_some.1 hk
    exact ⟨layer, hl, op, ho, vs, hvs, rs, hrs, hlen, rfl⟩

/-- What a layer makes of consistent values is what its outputs evaluate to. -/
theorem evaluates_of_forward {i : InvocationId} {inv : Invocation} {rs : List (Grid α)}
    (hc : g.Consistent fed values) (hr : g.record? i = some inv) (hm : g.Made i inv)
    (hu : ∀ t ∈ inv.outputs, fed.lookup t = none) (hf : g.forward i.layer inv values = .ok rs) :
    List.Forall₂ (g.Evaluates fed) inv.outputs rs := by
  obtain ⟨op, vs, hop, hvs, hrs, hlen⟩ := forward_eq_ok.1 hf
  obtain ⟨harity, hin⟩ := Evaluates.inputs_iff.1 (hvs.imp hc.evaluates)
  refine forall₂_of_getElem? hlen.symm fun k t v ht hv => ?_
  exact .forward (hu t (List.mem_of_getElem? ht)) (hm.produces k t ht) hr hop harity hin hrs hlen hv

/-- If an output of an invocation is not fed, none of its outputs is. -/
theorem unfed_outputs (hs : g.Sound) (hf : g.FedAtEntries fed) {i : InvocationId}
    {inv : Invocation} (hr : g.record? i = some inv) (hm : g.Made i inv) (ht : t ∈ inv.outputs)
    (hu : fed.lookup t = none) : ∀ u ∈ inv.outputs, fed.lookup u = none := by
  intro u huo
  cases hw : fed.lookup u with
  | none => rfl
  | some w =>
    obtain ⟨p, hp, d, hd⟩ := hf u w hw
    obtain ⟨q, hq, rfl⟩ := hm.produces.source huo
    obtain rfl := Option.some.inj (hp.symm.trans hq)
    obtain ⟨-, -, t', ht', -⟩ := hs.entry hd hr
    rw [ht'] at ht huo
    rw [List.mem_singleton.1 ht, ← List.mem_singleton.1 huo] at hu
    exact absurd (hu.symm.trans hw) (by simp)

/-! ## Evaluation on demand -/

/-- One step of evaluation on demand: a value is found, or taken over from
    inside of a call, or made of those of the inputs. -/
theorem resolve_eq_ok {depth : Nat} :
    g.resolve (depth + 1) values t = .ok (values', v) ↔
      (values.lookup t = some v ∧ values = values') ∨
      (values.lookup t = none ∧ ∃ p, g.producer? t = some p ∧
        ((∃ m u found, g.model? p.layer = some m ∧ g.inner? t = some u ∧
          g.resolve depth values u = .ok (found, v) ∧ (t, v) :: found = values') ∨
        (∃ op inv found rs, g.operation? p.layer = some op ∧ g.record? p.source = some inv ∧
          inv.inputs.foldlM (fun values u => (·.1) <$> g.resolve depth values u) values =
            .ok found ∧ g.forward p.layer inv found = .ok rs ∧
          found.assign inv.outputs rs = values' ∧ values'.lookup t = some v))) := by
  rw [resolve]
  cases ht : values.lookup t with
  | some w => simp [and_comm]
  | none =>
    simp only [bind_eq_ok, producer_eq_ok, reduceCtorEq, false_and, true_and, false_or]
    refine exists_congr fun p => and_congr_right fun _ => ?_
    constructor
    · rintro ⟨layer, hl, h⟩
      rcases operation?_or_model? hl with ⟨op, -, hnot, hop, -⟩ | ⟨m, -, his, hm, -⟩
      · rw [if_neg (by simp [hnot])] at h
        simp only [bind_eq_ok, layer_invocation hl, pure_eq_ok, orRefuse_eq_ok, Prod.mk.injEq] at h
        obtain ⟨inv, hr, found, hfound, rs, hrs, w, hw, rfl, rfl⟩ := h
        exact .inr ⟨op, inv, found, rs, hop, hr, hfound, hrs, rfl, hw⟩
      · rw [if_pos his] at h
        simp only [bind_eq_ok, orRefuse_eq_ok, pure_eq_ok, Prod.exists, Prod.mk.injEq] at h
        obtain ⟨x, hx, u, hu, found, w, hw, rfl, rfl⟩ := h
        exact .inl ⟨m, u, found, hm, inner?_eq_some.2 ⟨x, hx, hu⟩, hw, rfl⟩
    · rintro (⟨m, u, found, hm, hu, hw, rfl⟩ | ⟨op, inv, found, rs, hop, hr, hfound, hrs, rfl, hv⟩)
      · obtain ⟨k, hk, hm'⟩ := Option.bind_eq_some_iff.1 hm
        obtain ⟨layer, hl, rfl⟩ := kind?_eq_some.1 hk
        obtain ⟨x, hx, hu⟩ := inner?_eq_some.1 hu
        refine ⟨layer, hl, ?_⟩
        rw [if_pos (by simp [LayerKind.isModel, hm'])]
        simp only [bind_eq_ok, orRefuse_eq_ok, pure_eq_ok, Prod.exists, Prod.mk.injEq]
        exact ⟨x, hx, u, hu, found, v, hw, rfl, rfl⟩
      · obtain ⟨k, hk, ho⟩ := Option.bind_eq_some_iff.1 hop
        obtain ⟨layer, hl, rfl⟩ := kind?_eq_some.1 hk
        refine ⟨layer, hl, ?_⟩
        rcases operation?_or_model? hl with ⟨_, -, hnot, -, -⟩ | ⟨m, -, -, -, hnone⟩
        · rw [if_neg (by simp [hnot])]
          simp only [bind_eq_ok, layer_invocation hl, pure_eq_ok, orRefuse_eq_ok, Prod.mk.injEq]
          exact ⟨inv, hr, found, hfound, rs, hrs, v, hv, rfl, rfl⟩
        · exact absurd (hnone.symm.trans hop) (by simp)

theorem lookup_of_resolve : ∀ {depth : Nat}, g.resolve depth values t = .ok (values', v) →
    values'.lookup t = some v
  | 0, h => by simp [resolve] at h
  | depth + 1, h => by
    rcases resolve_eq_ok.1 h with ⟨ht, rfl⟩ | ⟨-, p, -, h⟩
    · exact ht
    rcases h with ⟨_, _, _, _, _, _, rfl⟩ | ⟨_, _, _, _, _, _, _, _, -, hv⟩
    · exact List.lookup_cons_self
    · exact hv

section
variable (hs : g.Sound) (hf : g.FedAtEntries fed)
include hs hf

/-- What evaluation on demand finds is what the tensor evaluates to. -/
theorem resolve_sound : ∀ {depth : Nat} {values values' : Valuation α} {t : TensorId} {v : Grid α},
    g.resolve depth values t = .ok (values', v) → g.Consistent fed values →
      g.Consistent fed values' ∧ Later values values' ∧ g.Evaluates fed t v
  | 0, _, _, _, _, h, _ => by simp [resolve] at h
  | depth + 1, values, values', t, v, h, hc => by
    rcases resolve_eq_ok.1 h with ⟨ht, rfl⟩ | ⟨ht, p, hp, h⟩
    · exact ⟨hc, .refl _, hc.evaluates t v ht⟩
    have hu := hc.unfed ht
    rcases h with ⟨m, u, found, hm, hin, hw, rfl⟩ |
      ⟨op, inv, found, rs, hop, hr, hfound, hrs, rfl, hv⟩
    · obtain ⟨hc', hl, hev⟩ := resolve_sound hw hc
      have hev' := hev.inside hu hp hm hin
      obtain ⟨hc'', hl'⟩ := hc'.cons hev'
      exact ⟨hc'', hl.trans hl', hev'⟩
    · obtain ⟨hm, hout⟩ := hs.made_of_producer hp hr
      have hunfed := unfed_outputs hs hf hr hm (List.mem_of_getElem? hout) hu
      obtain ⟨hc', hl, -⟩ := foldlM_keeps (P := g.Consistent fed) (R := Later) (Q := fun _ _ => True)
        Later.refl Later.trans (fun _ _ => trivial) (fun u _ values values' hc h => by
          obtain ⟨⟨found, w⟩, hw, rfl⟩ := map_eq_ok.1 h
          obtain ⟨hc', hl, -⟩ := resolve_sound hw hc
          exact ⟨hc', hl, trivial⟩) hfound hc
      obtain ⟨hc'', hl'⟩ := hc'.assign (evaluates_of_forward hc' hr hm hunfed hrs)
      exact ⟨hc'', hl.trans hl', hc''.evaluates t v hv⟩

/-- Tensors that evaluation on demand finds in any valuation are found one
    after the other. -/
theorem resolveInputs_complete {depth : Nat} {ts : List TensorId} {vs : List (Grid α)}
    (h : List.Forall₂ (fun t v => ∀ {values}, g.Consistent fed values →
      ∃ values', g.resolve depth values t = .ok (values', v)) ts vs) :
    ∀ {values}, g.Consistent fed values → ∃ found,
      ts.foldlM (fun values u => (·.1) <$> g.resolve depth values u) values = .ok found ∧
      g.Consistent fed found ∧ Later values found ∧
      List.Forall₂ (fun t v => found.lookup t = some v) ts vs := by
  induction h with
  | nil => exact fun {values} hc => ⟨values, rfl, hc, .refl _, .nil⟩
  | cons h _ ih =>
    intro values hc
    obtain ⟨values₁, h₁⟩ := h hc
    obtain ⟨hc₁, hl₁, -⟩ := resolve_sound hs hf h₁ hc
    obtain ⟨found, h₂, hc₂, hl₂, hvs⟩ := ih hc₁
    exact ⟨found, foldlM_cons_eq_ok.2 ⟨values₁, map_eq_ok.2 ⟨_, h₁, rfl⟩, h₂⟩, hc₂, hl₁.trans hl₂,
      .cons (hl₂ _ _ (lookup_of_resolve h₁)) hvs⟩

/-- Evaluation on demand finds what a tensor evaluates to. -/
theorem resolve_complete (h : g.Evaluates fed t v) : ∀ {depth : Nat}, t.index < depth →
    ∀ {values}, g.Consistent fed values → ∃ values', g.resolve depth values t = .ok (values', v) := by
  induction h with
  | fed h =>
    rintro (_ | depth) hd values hc
    · omega
    · exact ⟨values, resolve_eq_ok.2 (.inl ⟨hc.keeps _ _ h, rfl⟩)⟩
  | @inside t u p m v unfed producer model inner rest ih =>
    rintro (_ | depth) hd values hc
    · omega
    cases hw : values.lookup t with
    | some w =>
      obtain rfl := (hc.evaluates t w hw).unique (rest.inside unfed producer model inner)
      exact ⟨values, resolve_eq_ok.2 (.inl ⟨hw, rfl⟩)⟩
    | none =>
      have hlt := hs.inner_lt producer model inner
      obtain ⟨found, hfound⟩ := ih (hlt.trans_le (Nat.le_of_lt_succ hd)) hc
      exact ⟨_, resolve_eq_ok.2 (.inr ⟨hw, p, producer, .inl ⟨m, u, found, model, inner, hfound, rfl⟩⟩)⟩
  | @forward t p inv op vs rs v unfed producer record operation arity inputs results count value ih =>
    rintro (_ | depth) hd values hc
    · omega
    have hev : g.Evaluates fed t v :=
      .forward unfed producer record operation arity inputs results count value
    cases hw : values.lookup t with
    | some w =>
      obtain rfl := (hc.evaluates t w hw).unique hev
      exact ⟨values, resolve_eq_ok.2 (.inl ⟨hw, rfl⟩)⟩
    | none =>
      obtain ⟨hm, hout⟩ := hs.made_of_producer producer record
      have hinputs : List.Forall₂ (fun t v => ∀ {values}, g.Consistent fed values →
          ∃ values', g.resolve depth values t = .ok (values', v)) inv.inputs vs := by
        refine List.forall₂_iff_zip.2 ⟨arity, fun {u w} he {values} hc => ih _ he ?_ hc⟩
        have hlt : u.index < t.index := hs.acyclic producer record u (List.of_mem_zip he).1
        exact Nat.lt_of_lt_of_le hlt (Nat.le_of_lt_succ hd)
      obtain ⟨found, hfound, hc', hl, hvs⟩ := resolveInputs_complete hs hf hinputs hc
      have hforward : g.forward p.layer inv found = .ok rs :=
        forward_eq_ok.2 ⟨op, vs, operation, hvs, results, count⟩
      have hunfed := unfed_outputs hs hf record hm (List.mem_of_getElem? hout) unfed
      have hlookup : (found.assign inv.outputs rs).lookup t = some v := by
        obtain ⟨w, hw, hlookup⟩ :=
          forall₂_getElem? (forall₂_lookup_bind hm.produces.nodup count.symm) hout
        obtain rfl := Option.some.inj (value.symm.trans hw)
        exact hlookup
      exact ⟨_, resolve_eq_ok.2 (.inr ⟨hw, p, producer, .inr ⟨op, inv, found, rs, operation, record,
        hfound, hforward, rfl, hlookup⟩⟩)⟩

/-! ## Models -/

omit hs hf in
theorem evaluateOutput_eq_ok {found found' : Valuation α × List (Grid α)} :
    g.evaluateOutput found t = .ok found' ↔ ∃ u w, g.inner? t = some u ∧
      g.resolve (g.tensors.size + 1) found.1 u = .ok (found'.1, w) ∧ found.2 ++ [w] = found'.2 := by
  obtain ⟨values', rs'⟩ := found'
  simp only [evaluateOutput, bind_eq_ok, orRefuse_eq_ok, pure_eq_ok, Prod.exists, Prod.mk.injEq,
    inner?_eq_some]
  constructor
  · rintro ⟨x, hx, u, hu, values, w, hw, rfl, rfl⟩
    exact ⟨u, w, ⟨x, hx, hu⟩, hw, rfl⟩
  · rintro ⟨u, w, ⟨x, hx, hu⟩, hw, rfl⟩
    exact ⟨x, hx, u, hu, values', w, hw, rfl, rfl⟩

omit hs hf in
theorem evaluate_eq_ok {i : InvocationId} :
    g.evaluate values i = .ok values' ↔ ∃ inv, g.record? i = some inv ∧
      ((∃ m found, g.model? i.layer = some m ∧
        inv.outputs.foldlM g.evaluateOutput (values, []) = .ok found ∧
        found.1.assign inv.outputs found.2 = values') ∨
      (∃ op rs, g.operation? i.layer = some op ∧ g.forward i.layer inv values = .ok rs ∧
        values.assign inv.outputs rs = values')) := by
  simp only [evaluate, bind_eq_ok]
  constructor
  · rintro ⟨layer, hl, inv, hr, h⟩
    refine ⟨inv, (layer_invocation hl).1 hr, ?_⟩
    rcases operation?_or_model? hl with ⟨op, -, hnot, hop, -⟩ | ⟨m, -, his, hm, -⟩
    · rw [if_neg (by simp [hnot])] at h
      obtain ⟨rs, hrs, h⟩ := bind_eq_ok.1 h
      exact .inr ⟨op, rs, hop, hrs, pure_eq_ok.1 h⟩
    · rw [if_pos his] at h
      obtain ⟨found, hfound, h⟩ := bind_eq_ok.1 h
      exact .inl ⟨m, found, hm, hfound, pure_eq_ok.1 h⟩
  · rintro ⟨inv, hr, h⟩
    obtain ⟨layer, hl⟩ := layer_of_record hr
    refine ⟨layer, hl, inv, (layer_invocation hl).2 hr, ?_⟩
    rcases operation?_or_model? hl with ⟨op, -, hnot, hop, hnone⟩ | ⟨m, -, his, hm, hnone⟩
    · rw [if_neg (by simp [hnot])]
      rcases h with ⟨m, _, hm, _⟩ | ⟨_, rs, -, hrs, rfl⟩
      · exact absurd (hnone.symm.trans hm) (by simp)
      · exact bind_eq_ok.2 ⟨rs, hrs, rfl⟩
    · rw [if_pos his]
      rcases h with ⟨_, found, -, hfound, rfl⟩ | ⟨op, _, hop, _⟩
      · exact bind_eq_ok.2 ⟨found, hfound, rfl⟩
      · exact absurd (hnone.symm.trans hop) (by simp)

/-- The outputs of a call get the values of what they stand for. -/
theorem evaluateOutputs_sound : ∀ {ts : List TensorId} {found found' : Valuation α × List (Grid α)},
    ts.foldlM g.evaluateOutput found = .ok found' → g.Consistent fed found.1 →
      g.Consistent fed found'.1 ∧ Later found.1 found'.1 ∧ ∃ ws, found'.2 = found.2 ++ ws ∧
        List.Forall₂ (fun t w => ∃ u, g.inner? t = some u ∧ g.Evaluates fed u w) ts ws
  | [], _, _, h, hc => by
    obtain rfl := foldlM_nil_eq_ok.1 h
    exact ⟨hc, .refl _, [], by simp, .nil⟩
  | t :: ts, found, found', h, hc => by
    obtain ⟨next, hn, h⟩ := foldlM_cons_eq_ok.1 h
    obtain ⟨u, w, hu, hw, hws⟩ := evaluateOutput_eq_ok.1 hn
    obtain ⟨hc₁, hl₁, hev⟩ := resolve_sound hs hf hw hc
    obtain ⟨hc₂, hl₂, ws, hws', hall⟩ := evaluateOutputs_sound h hc₁
    refine ⟨hc₂, hl₁.trans hl₂, w :: ws, ?_, .cons ⟨u, hu, hev⟩ hall⟩
    rw [hws', ← hws]
    simp

/-- Evaluating an invocation gives its outputs what they evaluate to. -/
theorem evaluate_sound {i : InvocationId} (hi : g.MakesUnfed fed i)
    (h : g.evaluate values i = .ok values') (hc : g.Consistent fed values) :
    g.Consistent fed values' ∧ Later values values' := by
  obtain ⟨inv, hr, hm, hu⟩ := hi
  obtain ⟨inv', hr', h⟩ := evaluate_eq_ok.1 h
  obtain rfl := Option.some.inj (hr.symm.trans hr')
  rcases h with ⟨m, found, hmodel, hfound, rfl⟩ | ⟨op, rs, hop, hrs, rfl⟩
  · obtain ⟨hc', hl, ws, hws, hall⟩ := evaluateOutputs_sound hs hf hfound hc
    obtain ⟨order, become, hcall⟩ := hm.called_of_model hmodel
    rw [List.nil_append] at hws
    have hassign : List.Forall₂ (g.Evaluates fed) inv.outputs found.2 := by
      rw [hws]
      refine forall₂_of_getElem? hall.length_eq fun k t w ht hw => ?_
      obtain ⟨w', hw', u, hin, hev⟩ := forall₂_getElem? hall ht
      obtain rfl := Option.some.inj (hw.symm.trans hw')
      exact hev.inside (hu t (List.mem_of_getElem? ht)) (hm.produces k t ht) hmodel hin
    obtain ⟨hc'', hl'⟩ := hc'.assign hassign
    exact ⟨hc'', hl.trans hl'⟩
  · exact hc.assign (evaluates_of_forward hc hr hm hu hrs)

theorem evaluateOutputs_complete {ts : List TensorId} {ws : List (Grid α)}
    (h : List.Forall₂ (fun t w => ∃ u, g.inner? t = some u ∧ g.Evaluates fed u w) ts ws) :
    ∀ {found : Valuation α × List (Grid α)}, g.Consistent fed found.1 →
      ∃ found', ts.foldlM g.evaluateOutput found = .ok found' := by
  induction h with
  | nil => exact fun {found} _ => ⟨found, rfl⟩
  | @cons t w ts ws h _ ih =>
    obtain ⟨u, hu, hev⟩ := h
    intro found hc
    obtain ⟨values₁, h₁⟩ := resolve_complete hs hf hev
      (Nat.lt_succ_of_lt (hev.index_lt hf)) hc
    have hnext : g.evaluateOutput found t = .ok (values₁, found.2 ++ [w]) :=
      evaluateOutput_eq_ok.2 ⟨u, w, hu, h₁, rfl⟩
    obtain ⟨found', h₂⟩ := @ih (values₁, found.2 ++ [w]) (resolve_sound hs hf h₁ hc).1
    exact ⟨found', foldlM_cons_eq_ok.2 ⟨_, hnext, h₂⟩⟩

/-- A call whose outputs evaluate to some values is evaluated to them. -/
theorem evaluate_call_complete {i : InvocationId} {inv : Invocation} {m : ModelDef}
    {ws : List (Grid α)} (hr : g.record? i = some inv) (hm : g.Made i inv)
    (hmodel : g.model? i.layer = some m) (hu : ∀ t ∈ inv.outputs, fed.lookup t = none)
    (h : List.Forall₂ (g.Evaluates fed) inv.outputs ws) (hc : g.Consistent fed values) :
    ∃ values', g.evaluate values i = .ok values' ∧ g.Consistent fed values' ∧
      List.Forall₂ (fun t w => values'.lookup t = some w) inv.outputs ws := by
  have hinner : List.Forall₂ (fun t w => ∃ u, g.inner? t = some u ∧ g.Evaluates fed u w)
      inv.outputs ws := by
    refine forall₂_of_getElem? h.length_eq fun k t w ht hw => ?_
    obtain ⟨w', hw', hev⟩ := forall₂_getElem? h ht
    obtain rfl := Option.some.inj (hw.symm.trans hw')
    cases hev with
    | fed h => simp [hu t (List.mem_of_getElem? ht)] at h
    | inside _ _ _ inner rest => exact ⟨_, inner, rest⟩
    | forward _ producer _ operation =>
      obtain rfl := Option.some.inj (producer.symm.trans (hm.produces k t ht))
      exact absurd (operation.symm.trans (operation?_eq_none_of_model? hmodel)) (by simp)
  obtain ⟨found, hfound⟩ : ∃ found, inv.outputs.foldlM g.evaluateOutput (values, []) = .ok found :=
    evaluateOutputs_complete hs hf hinner hc
  have heval := evaluate_eq_ok.2 ⟨inv, hr, .inl ⟨m, found, hmodel, hfound, rfl⟩⟩
  obtain ⟨hc', -⟩ := evaluate_sound hs hf ⟨inv, hr, hm, hu⟩ heval hc
  obtain ⟨-, -, ws', hws', hall⟩ := evaluateOutputs_sound hs hf hfound hc
  rw [List.nil_append] at hws'
  -- every output has a value now, which can only be what it evaluates to
  have hbound : List.Forall₂ (fun t v => (found.1.assign inv.outputs found.2).lookup t = some v)
      inv.outputs found.2 := forall₂_lookup_bind hm.produces.nodup (hws' ▸ hall.length_eq)
  refine ⟨_, heval, hc', forall₂_of_getElem? h.length_eq fun k t w ht hw => ?_⟩
  obtain ⟨v, -, hv⟩ := forall₂_getElem? hbound ht
  obtain ⟨w', hw', hev⟩ := forall₂_getElem? h ht
  obtain rfl := Option.some.inj (hw.symm.trans hw')
  obtain rfl := (hc'.evaluates t v hv).unique hev
  exact hv

/-- Evaluating invocations in turn gives values that tensors evaluate to. -/
theorem evaluateAll_sound {order : List InvocationId} (ho : ∀ i ∈ order, g.MakesUnfed fed i)
    (h : order.foldlM g.evaluate values = .ok values') (hc : g.Consistent fed values) :
    g.Consistent fed values' ∧ Later values values' := by
  obtain ⟨hc', hl, -⟩ := foldlM_keeps (P := g.Consistent fed) (R := Later) (Q := fun _ _ => True)
    Later.refl Later.trans (fun _ _ => trivial) (fun i hi values values' hc h => by
      obtain ⟨hc', hl⟩ := evaluate_sound hs hf (ho i hi) h hc
      exact ⟨hc', hl, trivial⟩) h hc
  exact ⟨hc', hl⟩

end

omit [Scalar α] in
/-- What is fed to a model. -/
theorem feeds_eq_ok : ∀ {xs : List (TensorId × Grid α)} {values values' : Valuation α},
    xs.foldlM g.feed values = .ok values' → values' = xs.reverse ++ values
  | [], _, _, h => by simpa using (foldlM_nil_eq_ok.1 h).symm
  | x :: xs, _, _, h => by
    obtain ⟨next, hn, h⟩ := foldlM_cons_eq_ok.1 h
    simp only [feed, bind_eq_ok, require_eq_ok, pure_eq_ok] at hn
    obtain ⟨_, -, _, -, rfl⟩ := hn
    rw [feeds_eq_ok h, List.reverse_cons, List.append_assoc, List.singleton_append]

theorem fedAtEntries (hs : g.Sound) {l : LayerId} {m : ModelDef} (hm : g.model? l = some m)
    (vs : List (Grid α)) : g.FedAtEntries (m.inputs.zip vs).reverse := by
  intro t v ht
  exact (hs.model hm).entry t (List.of_mem_zip (List.mem_reverse.1 (mem_of_lookup ht))).1

/-- The invocations of a model make outputs that are not fed to it. -/
theorem makesUnfed_of_internalOrder (hs : g.Sound) {l : LayerId} {m : ModelDef}
    (hm : g.model? l = some m) {order : List InvocationId} (ho : g.internalOrder m = .ok order)
    (vs : List (Grid α)) : ∀ i ∈ order, g.MakesUnfed (m.inputs.zip vs).reverse i := by
  intro i hi
  obtain ⟨hlists, -, -⟩ := internalOrder_lists hs.acyclic ho
  obtain ⟨⟨inv, hr⟩, t, p, hstop, hp, rfl⟩ := hlists.source hi
  obtain ⟨hmade, hout⟩ := hs.made_of_producer hp hr
  exact ⟨inv, hr, hmade, unfed_outputs hs (fedAtEntries hs hm vs) hr hmade
    (List.mem_of_getElem? hout) (lookup_zip_of_notMem hstop)⟩

/-- **The outputs of a model** get the values that they evaluate to. -/
theorem predict_sound (hs : g.Sound) {l : LayerId} {inputs ws : List (Grid α)}
    (h : g.predict l inputs = .ok ws) : ∃ m, g.model? l = some m ∧
      m.inputs.length = inputs.length ∧
      List.Forall₂ (g.Evaluates (m.inputs.zip inputs).reverse) m.outputs ws := by
  simp only [predict, bind_eq_ok, modelDef_eq_ok, require_eq_ok, mapM_forall₂, orRefuse_eq_ok] at h
  obtain ⟨m, hm, _, -, _, hlen, fed, hfeed, order, ho, values, hvalues, hws⟩ := h
  obtain rfl := feeds_eq_ok hfeed
  rw [List.append_nil] at hvalues
  have hf := fedAtEntries hs hm inputs
  obtain ⟨hc, -⟩ := evaluateAll_sound hs hf (makesUnfed_of_internalOrder hs hm ho inputs) hvalues
    consistent_self
  exact ⟨m, hm, hlen, hws.imp hc.evaluates⟩

end
end Neuroform.Graph

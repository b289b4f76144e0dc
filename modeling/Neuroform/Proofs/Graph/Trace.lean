/-
  Neuroform — the primitive invocations behind tensors.

  A trace lists the primitive invocations behind some tensors (`Behind`) once
  each, producers first (`Traced`).  It never runs out of depth, and a walk
  with an explicit stack comes to the same list (`Walks`).
-/
import Neuroform.Proofs.Graph.Resolves

namespace Neuroform.Graph

variable {α : Type} {g : Graph α}

/-- The primitive invocations that some tensors depend on. -/
inductive Behind (g : Graph α) (ts : List TensorId) : InvocationId → Prop where
  | root {t : TensorId} {p : Provenance} (h : t ∈ ts) (resolves : g.resolveProvenance t = .ok p) :
      Behind g ts p.source
  | input {i : InvocationId} {inv : Invocation} {u : TensorId} {p : Provenance}
      (behind : Behind g ts i) (record : g.record? i = some inv) (h : u ∈ inv.inputs)
      (resolves : g.resolveProvenance u = .ok p) : Behind g ts p.source

/-- A tensor is one of some tensors, or an input of an invocation behind them. -/
def Needed (g : Graph α) (ts : List TensorId) (u : TensorId) : Prop :=
  u ∈ ts ∨ ∃ i inv, g.Behind ts i ∧ g.record? i = some inv ∧ u ∈ inv.inputs

/-- Some tensors need one that comes from no invocation. -/
def Loose (g : Graph α) (ts : List TensorId) : Prop :=
  ∃ u, g.Needed ts u ∧ ∀ p, g.resolveProvenance u ≠ .ok p

/-- The invocations of outputs of them. -/
def sources (order : List Provenance) : List InvocationId := order.map Provenance.source

/-- A tensor has its primitive invocation in an order. -/
def Found (g : Graph α) (order : List Provenance) (t : TensorId) : Prop :=
  ∃ p, g.Resolves t p ∧ p.source ∈ sources order

/-- Primitive invocations that stand once each, behind the producers of their
    inputs. -/
inductive Traced (g : Graph α) : List Provenance → Prop where
  | nil : Traced g []
  | snoc {order : List Provenance} {p : Provenance} {inv : Invocation} (earlier : Traced g order)
      (primitive : g.model? p.layer = none) (fresh : p.source ∉ sources order)
      (record : g.record? p.source = some inv) (found : ∀ u ∈ inv.inputs, g.Found order u) :
      Traced g (order ++ [p])

/-- The walk with a stack of outputs, which are marked once their inputs have
    been put above them: from an order and a stack to the final order. -/
inductive Walks [Scalar α] (g : Graph α) :
    List Provenance → List (Provenance × Bool) → List Provenance → Prop where
  | done {order : List Provenance} : Walks g order [] order
  | skip {order order' : List Provenance} {p : Provenance} {marked : Bool}
      {stack : List (Provenance × Bool)} (seen : p.source ∈ sources order)
      (rest : Walks g order stack order') : Walks g order ((p, marked) :: stack) order'
  | leave {order order' : List Provenance} {p : Provenance} {stack : List (Provenance × Bool)}
      (fresh : p.source ∉ sources order) (rest : Walks g (order ++ [p]) stack order') :
      Walks g order ((p, true) :: stack) order'
  | expand {order order' : List Provenance} {p : Provenance} {inv : Invocation}
      {producers : List Provenance} {stack : List (Provenance × Bool)}
      (fresh : p.source ∉ sources order) (record : g.record? p.source = some inv)
      (inputs : g.resolveAll inv.inputs = .ok producers)
      (rest : Walks g order (producers.map (·, false) ++ (p, true) :: stack) order') :
      Walks g order ((p, false) :: stack) order'

@[simp] theorem mem_sources {order : List Provenance} {i : InvocationId} :
    i ∈ sources order ↔ ∃ p ∈ order, p.source = i := List.mem_map

theorem sources_append {order order' : List Provenance} :
    sources (order ++ order') = sources order ++ sources order' := List.map_append

theorem Found.later {order order' : List Provenance} {t : TensorId} (h : g.Found order t)
    (ho : order <+: order') : g.Found order' t := by
  obtain ⟨p, hp, hi⟩ := h
  exact ⟨p, hp, (ho.map Provenance.source).subset hi⟩

theorem Needed.behind {ts : List TensorId} {u : TensorId} (h : g.Needed ts u) {p : Provenance}
    (hp : g.resolveProvenance u = .ok p) : g.Behind ts p.source := by
  rcases h with h | ⟨i, inv, hb, hr, hu⟩
  · exact .root h hp
  · exact .input hb hr hu hp

theorem Behind.mono {ts ts' : List TensorId} {i : InvocationId} (h : g.Behind ts i)
    (ht : ∀ t ∈ ts, ∀ p, g.resolveProvenance t = .ok p → g.Behind ts' p.source) :
    g.Behind ts' i := by
  induction h with
  | root h resolves => exact ht _ h _ resolves
  | input _ record h resolves ih => exact .input ih record h resolves

theorem Loose.mono {ts ts' : List TensorId} (h : g.Loose ts) (ht : ∀ t ∈ ts, g.Needed ts' t) :
    g.Loose ts' := by
  obtain ⟨u, hu, hloose⟩ := h
  refine ⟨u, ?_, hloose⟩
  rcases hu with hu | ⟨i, inv, hb, hr, hu⟩
  · exact ht u hu
  · exact .inr ⟨i, inv, hb.mono fun t h p hp => (ht t h).behind hp, hr, hu⟩

namespace Traced
variable {order : List Provenance}

theorem nodup (h : g.Traced order) : (sources order).Nodup := by
  induction h with
  | nil => exact List.nodup_nil
  | snoc _ _ fresh _ _ ih =>
    rw [sources_append, List.nodup_append]
    refine ⟨ih, by simp [sources], ?_⟩
    rintro i hi j hj rfl
    obtain rfl := List.mem_singleton.1 hj
    exact fresh hi

theorem primitive (h : g.Traced order) {p : Provenance} (hp : p ∈ order) :
    g.model? p.layer = none := by
  induction h with
  | nil => simp at hp
  | snoc _ primitive _ _ _ ih =>
    rcases List.mem_append.1 hp with hp | hp
    · exact ih hp
    · rwa [List.mem_singleton.1 hp]

/-- The producers of the inputs of a traced invocation stand before it. -/
theorem found (h : g.Traced order) : ∀ {before after : List Provenance} {p : Provenance},
    order = before ++ p :: after → ∃ inv, g.record? p.source = some inv ∧
      ∀ u ∈ inv.inputs, g.Found before u := by
  induction h with
  | nil => intro before after p h; simp at h
  | @snoc order q inv _ _ _ record found ih =>
    intro before after p h
    rcases List.eq_nil_or_concat after with rfl | ⟨after, r, rfl⟩
    · obtain ⟨rfl, hq⟩ := List.append_inj' h rfl
      obtain rfl := List.singleton_inj.1 hq
      exact ⟨inv, record, found⟩
    · rw [List.concat_eq_append, ← List.cons_append, ← List.append_assoc] at h
      exact ih (List.append_inj' h rfl).1

end Traced

/-- A walk with a stack comes to one order. -/
theorem Walks.unique [Scalar α] {order a b : List Provenance} {stack : List (Provenance × Bool)}
    (h : g.Walks order stack a) (h' : g.Walks order stack b) : a = b := by
  induction h with
  | done => cases h' with
    | done => rfl
  | skip seen _ ih => cases h' with
    | skip _ rest => exact ih rest
    | leave fresh _ => exact absurd seen fresh
    | expand fresh _ _ _ => exact absurd seen fresh
  | leave fresh _ ih => cases h' with
    | skip seen _ => exact absurd seen fresh
    | leave _ rest => exact ih rest
  | expand fresh record inputs _ ih => cases h' with
    | skip seen _ => exact absurd seen fresh
    | expand _ record' inputs' rest =>
      obtain rfl := Option.some.inj (record.symm.trans record')
      obtain rfl := Except.ok.inj (inputs.symm.trans inputs')
      exact ih rest

/-- What a trace adds to an order is behind some tensors. -/
def Adds (g : Graph α) (ts : List TensorId) (order order' : List Provenance) : Prop :=
  order <+: order' ∧ ∀ i ∈ sources order', i ∈ sources order ∨ g.Behind ts i

theorem Adds.refl (ts : List TensorId) (order : List Provenance) : g.Adds ts order order :=
  ⟨List.prefix_refl _, fun _ => .inl⟩

theorem Adds.trans {ts : List TensorId} {a b c : List Provenance} (h : g.Adds ts a b)
    (h' : g.Adds ts b c) : g.Adds ts a c := by
  refine ⟨h.1.trans h'.1, fun i hi => ?_⟩
  rcases h'.2 i hi with hb | hr
  · exact h.2 i hb
  · exact .inr hr

theorem Adds.mono {ts ts' : List TensorId} {a b : List Provenance} (h : g.Adds ts a b)
    (ht : ∀ t ∈ ts, ∀ p, g.resolveProvenance t = .ok p → g.Behind ts' p.source) :
    g.Adds ts' a b :=
  ⟨h.1, fun i hi => (h.2 i hi).imp id (·.mono ht)⟩

/-! ## The trace -/

theorem followInner_ne_fault {t : TensorId} : ∀ {depth : Nat} {u : TensorId},
    g.followInner t depth u ≠ fault
  | 0, _ => by simp [followInner, refuse, fault]
  | depth + 1, u => by
    rw [followInner]
    refine bind_ne_fault orRefuse_ne_fault fun x _ => bind_ne_fault orRefuse_ne_fault fun p _ =>
      bind_ne_fault orRefuse_ne_fault fun layer _ => ?_
    split
    · exact bind_ne_fault orRefuse_ne_fault fun v _ => followInner_ne_fault
    · simp [fault, pure, Except.pure]

theorem resolveAll_ne_fault {ts : List TensorId} : g.resolveAll ts ≠ fault :=
  bind_ne_fault (mapM_ne_fault fun _ _ => followInner_ne_fault)
    fun _ _ => by simp [fault, pure, Except.pure]

variable [Scalar α]

/-- If a traced order has the invocations of some tensors, it has all that they
    depend on. -/
theorem Traced.behind {order : List Provenance} {ts : List TensorId} (h : g.Traced order)
    (ht : ∀ t ∈ ts, g.Found order t) {i : InvocationId} (hi : g.Behind ts i) : i ∈ sources order := by
  induction hi with
  | root hmem resolves =>
    obtain ⟨p, hp, hi⟩ := ht _ hmem
    rwa [(followInner_eq_ok resolves).unique hp]
  | input _ record hu resolves ih =>
    obtain ⟨p, hp, rfl⟩ := mem_sources.1 ih
    obtain ⟨before, after, rfl⟩ := List.append_of_mem hp
    obtain ⟨inv, hr, hf⟩ := h.found rfl
    obtain rfl := Option.some.inj (record.symm.trans hr)
    obtain ⟨q, hq, hi⟩ := (hf _ hu).later (List.prefix_append before (p :: after))
    rwa [(followInner_eq_ok resolves).unique hq]

variable (hs : g.Sound)
include hs

/-- What is behind some tensors has an output that is not made after them. -/
theorem Behind.index_le {ts : List TensorId} {i : InvocationId} (h : g.Behind ts i) :
    ∃ t ∈ ts, ∃ u p, u.index ≤ t.index ∧ g.producer? u = some p ∧ p.source = i := by
  induction h with
  | root h resolves =>
    obtain ⟨u, _, _, _, _, hle, hu, -⟩ := (followInner_eq_ok resolves).applied hs
    exact ⟨_, h, u, _, hle, hu, rfl⟩
  | input _ record h resolves ih =>
    obtain ⟨t, ht, v, q, hle, hv, rfl⟩ := ih
    obtain ⟨u, _, _, _, _, hle', hu, -⟩ := (followInner_eq_ok resolves).applied hs
    have := hs.acyclic hv record _ h
    exact ⟨t, ht, u, _, by omega, hu, rfl⟩

/-- No invocation is behind its own inputs. -/
theorem not_behind_inputs {i : InvocationId} {inv : Invocation} (hr : g.record? i = some inv) :
    ¬ g.Behind inv.inputs i := by
  intro h
  obtain ⟨t, ht, u, p, hle, hu, rfl⟩ := h.index_le hs
  have := hs.acyclic hu hr t ht
  omega

/-- One step of the trace: the invocation is listed already, or it is listed
    behind what its inputs depend on. -/
theorem traceFrom_eq_ok {depth : Nat} {order order' : List Provenance} {p : Provenance} :
    g.traceFrom (depth + 1) order p = .ok order' ↔
      (p.source ∈ sources order ∧ order = order') ∨
      (p.source ∉ sources order ∧ ∃ inv producers listed, g.record? p.source = some inv ∧
        List.Forall₂ g.Resolves inv.inputs producers ∧
        producers.foldlM (g.traceFrom depth) order = .ok listed ∧ listed ++ [p] = order') := by
  have hany : (order.any (·.source = p.source)) = true ↔ p.source ∈ sources order := by simp
  rw [traceFrom]
  by_cases h : p.source ∈ sources order
  · rw [if_pos (hany.2 h)]
    simp [h]
  · rw [if_neg (mt hany.1 h)]
    simp only [h, false_and, not_false_eq_true, true_and, false_or, bind_eq_ok, invocation_eq_ok,
      resolveAll_eq_ok hs, pure_eq_ok]
    constructor
    · rintro ⟨inv, hr, producers, hp, listed, hl, ho⟩
      exact ⟨inv, producers, listed, hr, hp, hl, ho⟩
    · rintro ⟨inv, producers, listed, hr, hp, hl, ho⟩
      exact ⟨inv, hr, producers, hp, listed, hl, ho⟩

/-- Tracing a producer lists what its tensor depends on, and a walk with the
    producer on top of its stack lists the same. -/
theorem traceFrom_traced : ∀ {depth : Nat} {order order' : List Provenance} {t : TensorId}
    {p : Provenance}, g.traceFrom depth order p = .ok order' → g.Resolves t p → g.Traced order →
      g.Traced order' ∧ g.Adds [t] order order' ∧ p.source ∈ sources order' ∧
      ∀ {stack final}, g.Walks order' stack final → g.Walks order ((p, false) :: stack) final
  | 0, _, _, _, _, h, _, _ => by simp [traceFrom] at h
  | depth + 1, order, order', t, p, h, hp, ht => by
    rcases (traceFrom_eq_ok hs).1 h with ⟨hmem, rfl⟩ | ⟨hfresh, inv, producers, listed, hr, hps, hf, rfl⟩
    · exact ⟨ht, .refl _ _, hmem, .skip hmem⟩
    obtain ⟨ht', hadds, hfound, hwalk⟩ := trace_traced hf hps ht
    have hroot : g.Behind [t] p.source := .root (by simp) ((resolveProvenance_eq_ok hs).2 hp)
    have hadds' : g.Adds [t] order listed := hadds.mono fun u hu q hq => .input hroot hr hu hq
    -- what is listed on the way is behind the inputs, where the invocation is not
    have hfresh' : p.source ∉ sources listed := fun hmem =>
      (hadds.2 _ hmem).elim hfresh (not_behind_inputs hs hr)
    have hprim : g.model? p.layer = none := by
      obtain ⟨_, _, op, _, _, _, _, _, _, ha⟩ := hp.applied hs
      exact model?_eq_none_of_operation? ha.operation
    refine ⟨.snoc ht' hprim hfresh' hr hfound, hadds'.trans ⟨List.prefix_append .., fun i hi => ?_⟩,
      by simp [sources], fun hw => ?_⟩
    · rw [sources_append, List.mem_append] at hi
      refine hi.imp id fun hi => ?_
      obtain rfl := List.mem_singleton.1 hi
      exact hroot
    · exact .expand hfresh hr ((resolveAll_eq_ok hs).2 hps) (hwalk (.leave hfresh' hw))
termination_by depth => (depth, 0)
where
  trace_traced {depth : Nat} : ∀ {ts : List TensorId} {ps : List Provenance}
      {order order' : List Provenance}, ps.foldlM (g.traceFrom depth) order = .ok order' →
      List.Forall₂ g.Resolves ts ps → g.Traced order →
      g.Traced order' ∧ g.Adds ts order order' ∧ (∀ t ∈ ts, g.Found order' t) ∧
      ∀ {stack final}, g.Walks order' stack final →
        g.Walks order (ps.map (·, false) ++ stack) final
    | _, _, _, _, h, .nil, ht => by
      obtain rfl := foldlM_nil_eq_ok.1 h
      exact ⟨ht, .refl _ _, by simp, fun hw => hw⟩
    | t :: ts, p :: ps, order, order', h, .cons hp hps, ht => by
      obtain ⟨listed, hl, h⟩ := foldlM_cons_eq_ok.1 h
      obtain ⟨ht₁, hadds₁, hmem, hwalk₁⟩ := traceFrom_traced hl hp ht
      obtain ⟨ht₂, hadds₂, hfound, hwalk₂⟩ := trace_traced h hps ht₁
      refine ⟨ht₂, ?_, ?_, fun hw => hwalk₁ (hwalk₂ hw)⟩
      · exact (hadds₁.mono fun u hu q hq => .root (by simp_all) hq).trans
          (hadds₂.mono fun u hu q hq => .root (List.mem_cons_of_mem _ hu) hq)
      · rintro u (_ | ⟨_, hu⟩)
        · exact Found.later ⟨p, hp, hmem⟩ hadds₂.1
        · exact hfound u hu
  termination_by ts => (depth, ts.length + 1)

/-- A step of the trace fails only where a tensor on the way comes from no
    invocation, and never for want of depth. -/
theorem traceFrom_error : ∀ {depth : Nat} {order : List Provenance} {t : TensorId} {p : Provenance}
    {e : Failure}, g.traceFrom depth order p = .error e → g.Resolves t p → t.index < depth →
      e ≠ .fault ∧ g.Loose [t]
  | 0, _, _, _, _, _, _, hd => by omega
  | depth + 1, order, t, p, e, h, hp, hd => by
    have hroot : g.Behind [t] p.source := .root (by simp) ((resolveProvenance_eq_ok hs).2 hp)
    obtain ⟨v, inv, _, _, _, hle, hv, hr, -⟩ := hp.applied hs
    rw [traceFrom] at h
    split at h
    · simp at h
    rcases bind_eq_error.1 h with h | ⟨inv', hinv', h⟩
    · exact absurd (invocation_eq_ok.2 hr) (by rw [h]; simp)
    obtain rfl := Option.some.inj (hr.symm.trans (invocation_eq_ok.1 hinv'))
    rcases bind_eq_error.1 h with h | ⟨producers, hps, h⟩
    · obtain ⟨u, hu, hloose⟩ := resolveAll_error hs h
      exact ⟨fun hf => resolveAll_ne_fault (hf ▸ h), u, .inr ⟨_, inv, hroot, hr, hu⟩, hloose⟩
    rcases bind_eq_error.1 h with h | ⟨_, -, h⟩
    · obtain ⟨q, hq, c, h⟩ := foldlM_eq_error h
      -- the inputs are made before the output that the tensor is
      obtain ⟨u, hu, hq⟩ := forall₂_mem_left ((resolveAll_eq_ok hs).1 hps).flip q hq
      have := hs.acyclic hv hr u hu
      obtain ⟨hne, hloose⟩ := traceFrom_error h hq (by omega)
      refine ⟨hne, hloose.mono fun w hw => ?_⟩
      rw [List.mem_singleton.1 hw]
      exact .inr ⟨_, inv, hroot, hr, hu⟩
    · cases h

/-- What a trace gives: the invocations behind some tensors, once each and
    producers first, as a walk with an explicit stack gives them. -/
theorem trace_eq_ok {ts : List TensorId} {order : List Provenance} (h : g.trace ts = .ok order) :
    g.Traced order ∧ (∀ i, i ∈ sources order ↔ g.Behind ts i) ∧ (∀ t ∈ ts, g.Found order t) ∧
      ∃ roots, g.resolveAll ts = .ok roots ∧ g.Walks [] (roots.map (·, false)) order := by
  obtain ⟨roots, hroots, h⟩ := bind_eq_ok.1 h
  obtain ⟨htraced, hadds, hfound, hwalk⟩ :=
    traceFrom_traced.trace_traced hs h ((resolveAll_eq_ok hs).1 hroots) .nil
  refine ⟨htraced, fun i => ⟨fun hi => ?_, htraced.behind hfound⟩, hfound, roots, hroots, ?_⟩
  · exact (hadds.2 i hi).resolve_left (by simp [sources])
  · have := hwalk .done
    rwa [List.append_nil] at this

/-- A trace fails only where a tensor comes from no invocation. -/
theorem trace_error {ts : List TensorId} {e : Failure} (h : g.trace ts = .error e) :
    e ≠ .fault ∧ g.Loose ts := by
  rcases bind_eq_error.1 h with h | ⟨roots, hroots, h⟩
  · obtain ⟨u, hu, hloose⟩ := resolveAll_error hs h
    exact ⟨fun hf => resolveAll_ne_fault (hf ▸ h), u, .inl hu, hloose⟩
  · obtain ⟨p, hp, c, h⟩ := foldlM_eq_error h
    obtain ⟨t, htmem, ht⟩ := forall₂_mem_left ((resolveAll_eq_ok hs).1 hroots).flip p hp
    obtain ⟨hne, hloose⟩ := traceFrom_error hs h ht (by have := ht.index_lt; omega)
    exact ⟨hne, hloose.mono fun w hw => .inl (List.mem_singleton.1 hw ▸ htmem)⟩

omit hs in
/-- A walk back from some tensors: what a walk with a stack gives, which is all
    that is behind the tensors, once each, without models, and producers
    first. -/
structure WalksBack (g : Graph α) (ts : List TensorId) (order : List Provenance) : Prop where
  walks : ∃ roots, g.resolveAll ts = .ok roots ∧ g.Walks [] (roots.map (·, false)) order
  behind : ∀ i, i ∈ sources order ↔ g.Behind ts i
  nodup : (sources order).Nodup
  primitive : ∀ p ∈ order, g.model? p.layer = none
  producers : ∀ before p after, order = before ++ p :: after → ∃ inv, g.record? p.source = some inv ∧
    ∀ t ∈ inv.inputs, ∃ q, g.resolveProvenance t = .ok q ∧ q.source ∈ sources before

/-- A trace walks back from its tensors. -/
theorem walksBack_of_trace {ts : List TensorId} {order : List Provenance}
    (h : g.trace ts = .ok order) : g.WalksBack ts order := by
  obtain ⟨htraced, hbehind, -, hwalks⟩ := trace_eq_ok hs h
  refine ⟨hwalks, hbehind, htraced.nodup, fun _ => htraced.primitive, fun before p after ho => ?_⟩
  obtain ⟨inv, hr, hf⟩ := htraced.found ho
  refine ⟨inv, hr, fun t ht => ?_⟩
  obtain ⟨q, hq, hmem⟩ := hf t ht
  exact ⟨q, (resolveProvenance_eq_ok hs).2 hq, hmem⟩

end Neuroform.Graph

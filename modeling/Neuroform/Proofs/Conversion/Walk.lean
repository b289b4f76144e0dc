/-
  Neuroform — what a conversion converts.

  A session walks through the trace of a model and converts the invocations on
  it one after the other (`Run`): each of them extends the network by a part
  and gets one view.  No view is looked up before it is there if every traced
  invocation has one output.
-/
import Neuroform.Proofs.Conversion.Rules
import Neuroform.Proofs.Graph.Reachable
import Neuroform.Proofs.Graph.Trace
import Neuroform.Proofs.Rational

namespace Neuroform.Session

open Neuroform.Graph

variable {α : Type} [Scalar α] {β : Type} {g : Graph α} {settings : Settings α}

/-! ## Runs -/

/-- How the invocations of a primitive layer are converted: wrapped, where that
    is allowed, or natively, where that is possible. -/
structure Chosen (g : Graph α) (settings : Settings α) (l : LayerId) (wrapped : Bool)
    (p : Primitive α) (c : InvocationId → Step (Workspace α) View) : Prop where
  kind : g.kind? l = some (.primitive p)
  conversion : Rule.Conversion wrapped p c
  fallback : wrapped = true → settings.allowFallback = true
  fixed : wrapped = false → ∀ n, p = .batchNorm n → settings.inferenceOnly = true

/-- An invocation that has been converted: whether its layer was wrapped, and
    what was added to the network. -/
structure Entry (α : Type) where
  invocation : InvocationId
  wrapped : Bool
  part : Part α

/-- A conversion of a graph comes to a workspace by converting invocations one
    after the other.  Besides, it notes warnings and adds probes. -/
inductive Run (g : Graph α) (settings : Settings α) : List (Entry α) → Workspace α → Prop where
  | start (label : String) (warnings : List String) :
    Run g settings [] ⟨g, settings, .empty label settings.inferenceOnly, [], warnings⟩
  | note {entries : List (Entry α)} {w : Workspace α} (run : Run g settings entries w)
      (warnings : List String) (probes : Array (Probe α)) :
    Run g settings entries { w with warnings, network := { w.network with probes } }
  | convert {entries : List (Entry α)} {w w' : Workspace α} {e : Entry α} {p : Primitive α}
      {c : InvocationId → Step (Workspace α) View} {v : View} (run : Run g settings entries w)
      (chosen : Chosen g settings e.invocation.layer e.wrapped p c)
      (ran : (c e.invocation).exec w = (.ok v, w'))
      (extends' : w'.network = w.network.extend e.part) :
    Run g settings (entries ++ [e]) { w' with views := (e.invocation, [v]) :: w'.views }

/-- The invocations that have been converted. -/
def converted (entries : List (Entry α)) : List InvocationId := entries.map (·.invocation)

namespace Run
variable {entries : List (Entry α)} {w : Workspace α}

/-- A conversion keeps its graph and settings, and gives every invocation one
    view, the last one first. -/
theorem framed (h : Run g settings entries w) : w.graph = g ∧ w.settings = settings ∧
    w.views.map (·.1) = (converted entries).reverse ∧ ∀ e ∈ w.views, ∃ v, e.2 = [v] := by
  induction h with
  | start => exact ⟨rfl, rfl, rfl, by simp⟩
  | note _ _ _ ih => exact ih
  | @convert entries w w' e p c v _ chosen ran _ ih =>
    obtain ⟨hg, hset, hkeys, hsingle⟩ := ih
    obtain ⟨layer, hl, -⟩ := kind?_eq_some.1 chosen.kind
    obtain ⟨hframe, -⟩ := (chosen.conversion.builds (hg.symm ▸ hl)).of_ok ran
    refine ⟨hframe.graph.trans hg, hframe.settings.trans hset, ?_, ?_⟩
    · simp [hframe.views, hkeys, converted]
    · rintro x (_ | ⟨_, hx⟩)
      · exact ⟨v, rfl⟩
      · exact hsingle x (hframe.views ▸ hx)

theorem graph_eq (h : Run g settings entries w) : w.graph = g := h.framed.1

theorem settings_eq (h : Run g settings entries w) : w.settings = settings := h.framed.2.1

theorem keys (h : Run g settings entries w) : w.views.map (·.1) = (converted entries).reverse :=
  h.framed.2.2.1

theorem single (h : Run g settings entries w) : ∀ e ∈ w.views, ∃ v, e.2 = [v] := h.framed.2.2.2

/-- A warning is noted. -/
theorem warned (h : Run g settings entries w) (warnings : List String) :
    Run g settings entries { w with warnings } := h.note warnings w.network.probes

theorem lookup (h : Run g settings entries w) {i : InvocationId} (hi : i ∈ converted entries) :
    ∃ v, w.views.lookup i = some [v] := by
  have hmem : i ∈ w.views.map (·.1) := by rw [h.keys]; simpa using hi
  obtain ⟨⟨i, vs⟩, he, rfl⟩ := List.mem_map.1 hmem
  obtain ⟨ws, hws⟩ := exists_lookup_of_mem he
  obtain ⟨v, hv⟩ := h.single _ (mem_of_lookup hws)
  exact ⟨v, by rw [hws]; exact congrArg some hv⟩

theorem lookup_none (h : Run g settings entries w) {i : InvocationId}
    (hi : i ∉ converted entries) : w.views.lookup i = none := by
  refine lookup_eq_none_of_fst fun e he hei => hi ?_
  have hmem : e.1 ∈ w.views.map (·.1) := List.mem_map_of_mem he
  rw [h.keys, List.mem_reverse, hei] at hmem
  exact hmem

end Run

/-! ## Converters -/

/-- What is bound to a layer: a way to convert its invocations, or the walk
    through it if it is a model. -/
def Bound (g : Graph α) (settings : Settings α) (l : LayerId) : Converter α → Prop
  | .rule r => ∃ wrapped p c, Chosen g settings l wrapped p c ∧ r.layer = l ∧
    r.convert = (Rule.simple l c).convert
  | .model l' => l' = l ∧ ∃ m, g.model? l = some m

/-- A session converts a part of a graph with the standard registry, and the
    converters that it has bound belong to their layers. -/
structure Standard (g : Graph α) (settings : Settings α) (entries : List (Entry α))
    (s : Session α) : Prop where
  run : Run g settings entries s.workspace
  registry : s.registry = Registry.standard
  converters : ∀ l c, s.converters.lookup l = some c → Bound g settings l c

/-- A failure that is none for a missing view under a condition. -/
def Sees (S : Prop) (e : Failure) : Prop := S → e.lacksView = false

section
variable {entries : List (Entry α)} {s : Session α} {S : Prop}

theorem sees_of_sighted {o : Outcome β} (h : Sighted o) {e : Failure} (he : o = .error e) :
    Sees S e := fun _ => h e he

/-- What a rule of the standard registry chooses for a layer, if it may be
    used. -/
theorem chosen_of_converts {l : LayerId} {layer : Layer α} (hl : g.layer l = .ok layer)
    {wrapped : Bool} {r : Rule α} (h : r.Converts l layer wrapped)
    (hf : wrapped = true → settings.allowFallback = true)
    (hn : wrapped = false → r.convertible g layer settings = .ok ()) :
    ∃ p c, Chosen g settings l wrapped p c ∧ r.layer = l ∧
      r.convert = (Rule.simple l c).convert ∧ r.hasWeights = Rule.weighs wrapped p ∧
      (wrapped = false → Rule.Supports g layer settings p) := by
  obtain ⟨p, c, hk, hc, hlayer, hr, -, hsupports, hw⟩ := h
  have hs : wrapped = false → Rule.Supports g layer settings p :=
    fun hw => hsupports hw g settings (hn hw)
  refine ⟨p, c, ⟨hk ▸ kind?_of_layer hl, hc, hf, ?_⟩, hlayer, hr, hw, hs⟩
  rintro hnative n rfl
  exact hs hnative

/-- A converter that a builder of the standard registry gives, if it may be
    used. -/
theorem bound_of_converts {l : LayerId} {layer : Layer α} (hl : g.layer l = .ok layer)
    {wrapped : Bool} {c : Converter α} (h : c.Converts l layer wrapped)
    (hf : wrapped = true → settings.allowFallback = true)
    (hn : wrapped = false → c.convertible g layer settings = .ok ()) : Bound g settings l c := by
  cases c with
  | rule r =>
    obtain ⟨p, c, hchosen, hlayer, hr, -⟩ := chosen_of_converts hl h hf hn
    exact ⟨wrapped, p, c, hchosen, hlayer, hr⟩
  | model l' =>
    refine ⟨h.1, ?_⟩
    rw [model?_of_layer hl]
    exact Option.isSome_iff_exists.1 h.2.2

theorem sighted_native (hr : s.registry = Registry.standard) {l : LayerId} {layer : Layer α} :
    Sighted (s.native l layer) := by
  unfold native
  split
  case h_1 b hb =>
    rw [hr] at hb
    refine sighted_bind (Registry.binding_standard hb l layer).1 fun c _ => ?_
    split <;> exact sighted_pure
  case h_2 => exact sighted_pure

/-- What is chosen natively is a converter of the standard registry that takes
    its layer. -/
theorem converts_of_native (hr : s.registry = Registry.standard) {l : LayerId} {layer : Layer α}
    {c : Converter α} (h : s.native l layer = .ok (.ok c)) : c.Converts l layer false ∧
      c.convertible s.workspace.graph layer s.workspace.settings = .ok () := by
  unfold native at h
  split at h
  case h_1 b hb =>
    rw [hr] at hb
    obtain ⟨c', hc, h⟩ := bind_eq_ok.1 h
    split at h
    case h_1 hconv =>
      obtain rfl := Except.ok.inj (pure_eq_ok.1 h)
      exact ⟨(Registry.binding_standard hb l layer).2 _ hc, hconv⟩
    · simp at h
  case h_2 => simp at h

theorem binding_of_fallback (hr : s.registry = Registry.standard) {b : ConverterBuilder α}
    (hb : s.fallback? = some b) :
    s.workspace.settings.allowFallback = true ∧ Registry.Binding true b := by
  unfold fallback? at hb
  rw [hr] at hb
  split at hb
  case isTrue h => exact ⟨h, Registry.binding_fallback hb⟩
  case isFalse => cases hb

theorem ensures_chooseConverter (hs : Standard g settings entries s) {l : LayerId}
    {layer : Layer α} (hl : g.layer l = .ok layer) :
    (chooseConverter l layer).Ensures s (Sees S) fun c s' => Standard g settings entries s' ∧
      s'.workspace.views = s.workspace.views ∧ Bound g settings l c := by
  refine Step.ensures_get_bind (Step.ensures_lift_bind
    (fun _ => sees_of_sighted (sighted_native hs.registry)) fun o ho => ?_)
  cases o with
  | ok c =>
    obtain ⟨hc, hconv⟩ := converts_of_native hs.registry ho
    rw [hs.run.graph_eq, hs.run.settings_eq] at hconv
    exact Step.ensures_pure ⟨hs, rfl, bound_of_converts hl hc nofun fun _ => hconv⟩
  | error reason =>
    dsimp only
    split
    case h_1 b hb =>
      have hallowed := binding_of_fallback hs.registry hb
      rw [hs.run.settings_eq] at hallowed
      exact Step.Ensures.bind (P := fun _ s' => Standard g settings entries s' ∧
          s'.workspace.views = s.workspace.views)
        ⟨⟨hs.run.warned _, hs.registry, hs.converters⟩, rfl⟩ fun _ s' hs' =>
        Step.ensures_lift (fun _ => sees_of_sighted (hallowed.2 l layer).1) fun c hc =>
          ⟨hs'.1, hs'.2, bound_of_converts hl ((hallowed.2 l layer).2 c hc) (fun _ => hallowed.1)
            nofun⟩
    case h_2 => exact Step.ensures_lift (fun _ => sees_of_sighted (sighted_refuse.2 rfl)) (by simp)

/-- The converter of a layer belongs to it; finding one leaves the views
    alone. -/
theorem ensures_getConverter (hs : Standard g settings entries s) {l : LayerId} :
    (getConverter l).Ensures s (Sees S) fun c s' => Standard g settings entries s' ∧
      s'.workspace.views = s.workspace.views ∧ Bound g settings l c := by
  unfold getConverter
  refine Step.ensures_get_bind (Step.ensures_lift_bind (fun _ => sees_of_sighted sighted_layer)
    fun layer hl => ?_)
  rw [hs.run.graph_eq] at hl
  split
  case h_1 c hc =>
    split
    · exact Step.ensures_lift (fun _ => sees_of_sighted (sighted_refuse.2 rfl)) (by simp)
    · exact Step.ensures_pure ⟨hs, rfl, hs.converters l c hc⟩
  case h_2 =>
    refine (ensures_chooseConverter hs hl).bind fun c s' ⟨hs', hviews, hbound⟩ => ?_
    refine ⟨⟨hs'.run, hs'.registry, fun l' c' hc' => ?_⟩, hviews, hbound⟩
    change ((l, c) :: s'.converters).lookup l' = some c' at hc'
    rw [List.lookup_cons] at hc'
    split at hc'
    case h_1 heq =>
      obtain rfl := Option.some.inj hc'
      obtain rfl := beq_iff_eq.1 heq
      exact hbound
    case h_2 => exact hs'.converters l' c' hc'

/-! ## Invocations -/

omit [Scalar α] in
theorem ensures_onWorkspace {st : Step (Workspace α) β} {E : Failure → Prop}
    {Q : β → Session α → Prop}
    (h : st.Ensures s.workspace E fun b workspace => Q b { s with workspace }) :
    (onWorkspace st).Ensures s E Q := Step.ensures_on h

/-- Converting an invocation that has not been converted makes an entry of it. -/
theorem ensures_convertWith (hs : Standard g settings entries s) {i : InvocationId}
    (hi : i ∉ converted entries) (hprim : g.model? i.layer = none)
    (hfed : S → s.workspace.Fed i) :
    (convertWith runRule i).Ensures s (Sees S) fun _ s' => ∃ e : Entry α, e.invocation = i ∧
      Standard g settings (entries ++ [e]) s' := by
  unfold convertWith
  refine Step.ensures_get_bind ?_
  rw [hs.run.lookup_none hi]
  refine (ensures_getConverter hs).bind fun c s₁ ⟨hs₁, hviews, hbound⟩ => ?_
  refine Step.ensures_get_bind (Step.ensures_lift_bind (fun _ => sees_of_sighted sighted_layer)
    fun layer hl => ?_)
  rw [hs.run.graph_eq] at hl
  cases c with
  | model l =>
    obtain ⟨-, m, hm⟩ := hbound
    simp [hm] at hprim
  | rule r =>
    obtain ⟨wrapped, p, c, hchosen, hlayer, hconvert⟩ := hbound
    have hsame : s.workspace.Framed s₁.workspace := ⟨hs₁.run.graph_eq.trans hs.run.graph_eq.symm,
      hs₁.run.settings_eq.trans hs.run.settings_eq.symm, hviews⟩
    have hrule : (runRule (.rule r) i.invocation).Ensures s₁ (Sees S) fun o s₂ => ∃ v w part,
        o = some v ∧ (c i).exec s₁.workspace = (.ok v, w) ∧
        w.network = s₁.workspace.network.extend part ∧ s₂ = { s₁ with workspace := w } := by
      refine ensures_onWorkspace ?_
      rw [hconvert]
      change Step.Ensures (some <$> c i) _ _ _
      rw [← bind_pure_comp]
      have hbuilds := hchosen.conversion.builds (hs₁.run.graph_eq.symm ▸ hl)
      rcases he : (c i).exec s₁.workspace with ⟨e | v, w⟩
      · refine Step.Ensures.bind (P := fun _ _ => False) ?_ fun _ _ h => h.elim
        rw [Step.Ensures, he]
        exact fun hS => hbuilds.of_error he (hsame.fed (hfed hS))
      · obtain ⟨-, part, hpart, -⟩ := hbuilds.of_ok he
        exact Step.ensures_exec_bind he ⟨v, w, part, rfl, rfl, hpart, rfl⟩
    refine (hrule.within fun e he hS => (lacksView_within e).trans (he hS)).bind ?_
    rintro _ _ ⟨v, w, part, rfl, hran, hpart, rfl⟩
    refine Step.ensures_lift_bind (fun _ => sees_of_sighted (sighted_orRefuse rfl)) fun v' hv' => ?_
    obtain rfl := Option.some.inj (orRefuse_eq_ok.1 hv')
    exact ⟨⟨i, wrapped, part⟩, rfl, hs₁.run.convert hchosen hran hpart, hs₁.registry,
      hs₁.converters⟩

/-! ## Whole models -/

/-- Every traced invocation has one output. -/
def SingleOutputs (g : Graph α) (order : List Provenance) : Prop :=
  ∀ p ∈ order, ∃ inv t, g.record? p.source = some inv ∧ inv.outputs = [t]

/-- A tensor whose only producer has been converted has a view. -/
theorem sighted_tensorView (hg : g.Sound) {w : Workspace α} (hw : Run g settings entries w)
    {order before : List Provenance} (hsingle : SingleOutputs g order) (hsub : before ⊆ order)
    (hdone : converted entries = sources before) {t : TensorId} (ht : g.Found before t) :
    Sighted (w.tensorView t) := by
  obtain ⟨p, hp, hi⟩ := ht
  obtain ⟨v, hv⟩ := hw.lookup (hdone ▸ hi)
  obtain ⟨q, hq, hqp⟩ := mem_sources.1 hi
  obtain ⟨inv, u, hr, hout⟩ := hsingle q (hsub hq)
  obtain ⟨u', inv', _, _, _, -, -, hr', hout', -⟩ := hp.applied hg
  obtain rfl := Option.some.inj ((hqp ▸ hr).symm.trans hr')
  have h0 : p.output = 0 := by
    rw [hout] at hout'
    have := (List.getElem?_eq_some_iff.1 hout').1
    simpa using this
  unfold Workspace.tensorView
  rw [hw.graph_eq, (resolveProvenance_eq_ok hg).2 hp]
  change Sighted (orRefuse ((w.views.lookup p.source).bind (·[p.output]?)) _)
  rw [hv, h0]
  exact sighted_ok

/-- A session that has converted a trace. -/
def Converted (g : Graph α) (settings : Settings α) (order : List Provenance) (s : Session α) :
    Prop :=
  ∃ entries, Standard g settings entries s ∧ converted entries = sources order

/-- The walk through a model converts what is traced, in that order. -/
theorem ensures_convertModel (hg : g.Sound) (hs : Standard g settings [] s) {l : LayerId}
    {m : ModelDef} (hm : g.model? l = some m)
    (hS : S → ∀ order, g.trace (m.outputs ++ m.inputs) = .ok order → SingleOutputs g order) :
    (convertModel l 0).Ensures s (Sees S) fun _ s' => ∃ order,
      g.trace (m.outputs ++ m.inputs) = .ok order ∧ Converted g settings order s' := by
  unfold convertModel
  refine Step.ensures_get_bind (Step.ensures_lift_bind (fun _ => sees_of_sighted sighted_layer)
    fun layer hl => Step.ensures_lift_bind (fun _ => sees_of_sighted sighted_modelDef)
    fun m' hm' => Step.ensures_lift_bind (fun _ => sees_of_sighted (sighted_require rfl))
    fun _ _ => Step.ensures_lift_bind (fun _ => sees_of_sighted sighted_trace) fun order ho => ?_)
  rw [hs.run.graph_eq] at hm' ho
  obtain rfl := Option.some.inj (hm.symm.trans (modelDef_eq_ok.1 hm'))
  obtain ⟨htraced, -, -, -⟩ := trace_eq_ok hg ho
  refine (Step.ensures_forIn (I := fun done _ s' => Converted g settings done s')
    ⟨[], hs, rfl⟩ ?_).bind fun _ s' h => Step.ensures_pure ⟨order, ho, h⟩
  rintro done p rest c s₁ hx ⟨entries, hs₁, hdone⟩
  have hfresh : p.source ∉ converted entries := by
    have := htraced.nodup
    rw [hx, sources_append, List.nodup_append] at this
    rw [hdone]
    exact fun hmem => this.2.2 _ hmem _ (by simp [sources]) rfl
  refine Step.ensures_get_bind ?_
  rw [Workspace.isConverted, hs₁.run.lookup_none hfresh]
  rw [if_pos (by rfl)]
  refine (ensures_convertWith hs₁ hfresh (htraced.primitive (by simp [hx])) fun h => ?_).bind ?_
  · -- the producers of the inputs stand before the invocation
    intro inv hr t ht
    obtain ⟨inv', hr', hfound⟩ := htraced.found hx
    rw [hs₁.run.graph_eq] at hr
    obtain rfl := Option.some.inj (hr.symm.trans hr')
    exact sighted_tensorView hg hs₁.run (hS h order ho) (by rw [hx]; simp) hdone (hfound t ht)
  · rintro _ s₂ ⟨e, he, hs₂⟩
    refine Step.ensures_pure ⟨c, rfl, _, hs₂, ?_⟩
    rw [converted, List.map_append, ← converted, hdone, sources_append, List.map_singleton, he]
    rfl

theorem ensures_bindInput {order : List Provenance} (hc : Converted g settings order s)
    {t : TensorId} (ht : S → Sighted (s.workspace.tensorView t)) :
    (bindInput t).Ensures s (Sees S) fun _ s' => Converted g settings order s' :=
  let ⟨entries, hs, hdone⟩ := hc
  Step.ensures_get_bind (Step.ensures_lift_bind (fun e he hS => ht hS e he)
    fun _ _ => ⟨entries, ⟨hs.run, hs.registry, hs.converters⟩, hdone⟩)

theorem ensures_bindOutput {order : List Provenance} (hc : Converted g settings order s)
    {t : TensorId} (ht : S → Sighted (s.workspace.tensorView t)) :
    (bindOutput t).Ensures s (Sees S) fun _ s' => Converted g settings order s' := by
  obtain ⟨entries, hs, hdone⟩ := hc
  refine Step.ensures_get_bind (Step.ensures_lift_bind (fun e he hS => ht hS e he) fun view _ =>
    Step.ensures_lift_bind (fun _ => sees_of_sighted Workspace.sighted_synapseOf) fun synapse _ => ?_)
  refine Step.Ensures.bind (P := fun _ s' => Standard g settings entries s') ?_
    fun _ s' hs' => ⟨entries, ⟨hs'.run, hs'.registry, hs'.converters⟩, hdone⟩
  refine ensures_onWorkspace (Step.ensures_on ((Network.sightedStep_addProbe.ensures
    (Network.atomic_addProbe view synapse) fun _ he _ => he).imp ?_))
  rintro _ _ ⟨-, -, rfl⟩
  exact ⟨hs.run.note _ _, hs.registry, hs.converters⟩

theorem ensures_bindLayers {order : List Provenance} (hc : Converted g settings order s) :
    bindLayers.Ensures s (Sees S) fun _ s' => Converted g settings order s' := by
  refine Step.ensures_get_bind ((Step.ensures_forIn
    (I := fun _ _ s' => Converted g settings order s') hc ?_).bind fun _ _ h => Step.ensures_pure h)
  rintro done ⟨i, views⟩ rest c s₁ - hc₁
  refine Step.ensures_lift_bind (fun _ => sees_of_sighted sighted_invocation) fun inv _ => ?_
  refine (Step.ensures_forIn (I := fun _ _ s' => Converted g settings order s') hc₁ ?_).bind
    fun _ _ h => Step.ensures_pure ⟨c, rfl, h⟩
  rintro done' ⟨t, view⟩ rest' c' s₂ - ⟨entries, hs, hdone⟩
  exact ⟨c', rfl, entries, ⟨hs.run, hs.registry, hs.converters⟩, hdone⟩

/-- Converting a model converts what is traced. -/
theorem ensures_convertAll (hg : g.Sound) (hs : Standard g settings [] s) {m : ModelDef}
    (hm : g.model? s.model = some m)
    (hS : S → ∀ order, g.trace (m.outputs ++ m.inputs) = .ok order → SingleOutputs g order) :
    convertAll.Ensures s (Sees S) fun _ s' => ∃ order,
      g.trace (m.outputs ++ m.inputs) = .ok order ∧ Converted g settings order s' := by
  unfold convertAll
  refine Step.ensures_get_bind (Step.ensures_lift_bind (fun _ => sees_of_sighted sighted_modelDef)
    fun m' hm' => ?_)
  rw [hs.run.graph_eq] at hm'
  obtain rfl := Option.some.inj (hm.symm.trans (modelDef_eq_ok.1 hm'))
  refine (ensures_getConverter hs).bind fun c s₁ hc => ?_
  obtain ⟨hs₁, hviews, hbound⟩ := hc
  cases c with
  | rule r =>
    obtain ⟨_, p, _, hchosen, -⟩ := hbound
    simp [model?, hchosen.kind, LayerKind.model?] at hm
  | model l =>
    obtain rfl := hbound.1
    refine (ensures_convertModel hg hs₁ hm hS).bind fun _ s₂ hmodel => ?_
    obtain ⟨order, ho, hc₂⟩ := hmodel
    obtain ⟨-, -, hfound, -⟩ := trace_eq_ok hg ho
    have hview : ∀ s' : Session α, Converted g settings order s' →
        ∀ t ∈ m.outputs ++ m.inputs, S → Sighted (s'.workspace.tensorView t) := by
      rintro s' ⟨_, hs', hdone⟩ t ht h
      exact sighted_tensorView hg hs'.run (hS h order ho) (List.Subset.refl _) hdone (hfound t ht)
    have hrest : ∀ s' : Session α, Converted g settings order s' →
        (do
          m.inputs.forM bindInput
          m.outputs.forM bindOutput
          bindLayers : Step (Session α) Unit).Ensures s' (Sees S) fun _ s'' => ∃ order,
            g.trace (m.outputs ++ m.inputs) = .ok order ∧ Converted g settings order s'' := by
      intro s' hc
      refine (Step.ensures_forM (I := fun _ s' => Converted g settings order s') hc
        fun done t rest s₁ hx hc₁ => ?_).bind fun _ s₃ hc₃ => ?_
      · exact ensures_bindInput hc₁ (hview s₁ hc₁ t (by simp [hx]))
      refine (Step.ensures_forM (I := fun _ s' => Converted g settings order s') hc₃
        fun done t rest s₁ hx hc₁ => ?_).bind fun _ s₄ hc₄ => ?_
      · exact ensures_bindOutput hc₁ (hview s₁ hc₁ t (by simp [hx]))
      · exact (ensures_bindLayers hc₄).imp fun _ _ hc₅ => ⟨order, ho, hc₅⟩
    dsimp only
    split
    · refine Step.Ensures.bind (P := fun _ s' => Converted g settings order s') ?_
        fun _ s' hc => hrest s' hc
      obtain ⟨entries, hs₂, hdone⟩ := hc₂
      exact ⟨entries, ⟨hs₂.run.warned _, hs₂.registry, hs₂.converters⟩, hdone⟩
    · exact hrest s₂ hc₂

end

theorem sighted_validate : Sighted settings.validate := by
  have hsynapse {synapse : Synapse α} : Sighted (synapse.validate.mapError fun failure =>
      .refused [] (.conversion (.invalidConfig (.synapse failure.text)))) := by
    cases synapse.validate with
    | error e => rintro _ ⟨⟩; rfl
    | ok _ => exact sighted_ok
  unfold Settings.validate
  dsimp only
  split
  · exact sighted_bind (sighted_refuse.2 rfl) (by simp [refuse])
  · split
    · refine sighted_bind hsynapse fun _ _ => ?_
      split
      · exact sighted_refuse.2 rfl
      · exact sighted_pure
    · split
      · exact sighted_refuse.2 rfl
      · exact sighted_pure

/-- A conversion starts with a model, and with nothing converted. -/
theorem start_eq_ok {l : LayerId} {registry : Registry α} {s : Session α}
    (h : start g l settings registry = .ok s) : (∃ m, g.model? l = some m) ∧ ∃ label, s =
      ⟨l, registry, ⟨g, settings, .empty label settings.inferenceOnly, [], registry.warnings⟩,
        [], [], [], []⟩ := by
  obtain ⟨_, -, h⟩ := bind_eq_ok.1 h
  obtain ⟨root, -, h⟩ := bind_eq_ok.1 h
  obtain ⟨m, hm, h⟩ := bind_eq_ok.1 h
  exact ⟨⟨m, modelDef_eq_ok.1 hm⟩, root.name, (pure_eq_ok.1 h).symm⟩

theorem standard_start {l : LayerId} {s : Session α}
    (h : start g l settings Registry.standard = .ok s) :
    Standard g settings [] s ∧ s.model = l := by
  obtain ⟨-, label, rfl⟩ := start_eq_ok h
  exact ⟨⟨.start _ _, rfl, by simp⟩, rfl⟩

theorem sighted_start {l : LayerId} {registry : Registry α} :
    Sighted (start g l settings registry) :=
  sighted_bind sighted_validate fun _ _ => sighted_bind sighted_layer fun _ _ =>
    sighted_bind sighted_modelDef fun _ _ => sighted_pure

/-- A conversion converts what is traced, and with single outputs it does not
    look for a view before it is there. -/
theorem convert_spec (hg : g.Sound) {l : LayerId} {m : ModelDef} (hm : g.model? l = some m) {S : Prop}
    (hS : S → ∀ order, g.trace (m.outputs ++ m.inputs) = .ok order → SingleOutputs g order) :
    (∀ s, convert g l settings Registry.standard = .ok s → ∃ order,
      g.trace (m.outputs ++ m.inputs) = .ok order ∧ Converted g settings order s) ∧
    ∀ e, convert g l settings Registry.standard = .error e → Sees S e := by
  have hspec : ∀ s₀, start g l settings Registry.standard = .ok s₀ →
      convertAll.Ensures s₀ (Sees S) fun _ s => ∃ order,
        g.trace (m.outputs ++ m.inputs) = .ok order ∧ Converted g settings order s := by
    intro s₀ h₀
    obtain ⟨hstd, hmodel⟩ := standard_start h₀
    exact ensures_convertAll hg hstd (by rwa [hmodel]) hS
  constructor
  · intro s h
    obtain ⟨s₀, h₀, h⟩ := bind_eq_ok.1 h
    obtain ⟨_, hrun, h⟩ := bind_eq_ok.1 h
    obtain rfl := pure_eq_ok.1 h
    exact (hspec s₀ h₀).of_ok (Prod.ext hrun rfl)
  · intro e h
    rcases bind_eq_error.1 h with h | ⟨s₀, h₀, h⟩
    · exact sees_of_sighted sighted_start h
    rcases bind_eq_error.1 h with h | ⟨_, -, h⟩
    · exact (hspec s₀ h₀).of_error (Prod.ext h rfl)
    · cases h

/-- **The walk back through a model is complete, free of duplicates and
    topological**, and conversions follow it: they give each invocation on it
    one view, and never miss one if all of them have single outputs. -/
theorem conversion_follows_trace (h : g.Reachable) (ts : List TensorId) :
    g.trace ts ≠ fault ∧ (∀ order, g.trace ts = .ok order → g.WalksBack ts order) ∧
    ∀ l m, g.model? l = some m → ∀ settings : Settings α,
      (∀ s, convert g l settings Registry.standard = .ok s → ∃ order,
        g.trace (m.outputs ++ m.inputs) = .ok order ∧
        s.workspace.views.map (·.1) = (sources order).reverse ∧
        ∀ e ∈ s.workspace.views, ∃ v, e.2 = [v]) ∧
      ((∀ order, g.trace (m.outputs ++ m.inputs) = .ok order → SingleOutputs g order) →
        ∀ contexts t l' n, convert g l settings Registry.standard ≠
          .error (.refused contexts (.session (.notConverted t l' n)))) := by
  have hs := h.sound
  refine ⟨fun hf => (trace_error hs hf).1 rfl, fun order => walksBack_of_trace hs,
    fun l m hm settings => ⟨?_, ?_⟩⟩
  · intro s hc
    obtain ⟨order, ho, entries, hconv, hdone⟩ :=
      (convert_spec hs hm (S := False) False.elim).1 s hc
    exact ⟨order, ho, by rw [hconv.run.keys, hdone], hconv.run.single⟩
  · intro hsingle contexts t l' n hc
    have := (convert_spec hs hm (S := True) fun _ => hsingle).2 _ hc trivial
    simp [Failure.lacksView, Cause.lacksView] at this

/-- The walk back through the model around a call, and its conversion. -/
theorem conversion_follows_trace_nested :
    (build nested : Graph ℚ).WalksBack [⟨5⟩] [⟨⟨3⟩, 0, 0⟩, ⟨⟨0⟩, 1, 0⟩, ⟨⟨1⟩, 1, 0⟩] ∧
    ∃ s, convert (build nested : Graph ℚ) ⟨4⟩ Settings.standard Registry.standard = .ok s ∧
      s.workspace.views.map (·.1) = [⟨⟨1⟩, 1⟩, ⟨⟨0⟩, 1⟩, ⟨⟨3⟩, 0⟩] := by
  obtain ⟨-, htrace, hconvert⟩ :=
    conversion_follows_trace (reachable_build (α := ℚ) nested) [⟨5⟩]
  have hok : (convert (build nested : Graph ℚ) ⟨4⟩ Settings.standard Registry.standard).isOk := by
    cbv
  obtain ⟨s, hs⟩ : ∃ s, convert (build nested : Graph ℚ) ⟨4⟩ Settings.standard
      Registry.standard = .ok s := by
    cases h : convert (build nested : Graph ℚ) ⟨4⟩ Settings.standard Registry.standard with
    | error e => simp [h, Except.isOk, Except.toBool] at hok
    | ok s => exact ⟨s, rfl⟩
  obtain ⟨order, ho, hkeys, -⟩ := (hconvert ⟨4⟩ _ rfl Settings.standard).1 s hs
  obtain rfl : [⟨⟨3⟩, 0, 0⟩, ⟨⟨0⟩, 1, 0⟩, ⟨⟨1⟩, 1, 0⟩] = order := Except.ok.inj ho
  exact ⟨htrace _ rfl, s, hs, hkeys⟩

end Neuroform.Session

/-
  Neuroform — which converters a conversion picks.

  A conversion that succeeds binds a rule to every layer on the trace of its
  model (`Picked`): the native one where that takes the layer, otherwise one
  that wraps it.  It converts the invocations on the trace one after the other
  (`Walked`), and meets a layer whose rule has weights only once, unless weights
  are split.
-/
import Neuroform.Proofs.Conversion.Walk

namespace Neuroform.Session

open Neuroform.Graph

variable {α : Type} [Scalar α] {β : Type} {g : Graph α} {settings : Settings α}
  {entries : List (Entry α)} {s s' : Session α} {l : LayerId} {m : ModelDef}

/-! ## Steps on a part of a session -/

omit [Scalar α] in
theorem onWorkspace_eq_ok {st : Step (Workspace α) β} {b : β} :
    (onWorkspace st).exec s = (.ok b, s') ↔
      ∃ w, st.exec s.workspace = (.ok b, w) ∧ s' = { s with workspace := w } :=
  Step.exec_on_eq_ok

omit [Scalar α] in
theorem onNetwork_eq_ok {st : Step (Network α) β} {b : β} :
    (onNetwork st).exec s = (.ok b, s') ↔ ∃ n, st.exec s.network = (.ok b, n) ∧
      s' = { s with workspace := { s.workspace with network := n } } := by
  constructor
  · intro h
    obtain ⟨w, hw, rfl⟩ := onWorkspace_eq_ok.1 h
    obtain ⟨n, hn, rfl⟩ := Workspace.onNetwork_eq_ok.1 hw
    exact ⟨n, hn, rfl⟩
  · rintro ⟨n, hn, rfl⟩
    exact onWorkspace_eq_ok.2 ⟨_, Workspace.onNetwork_eq_ok.2 ⟨n, hn, rfl⟩, rfl⟩

/-! ## Converters -/

/-- The standard registry has a native converter for a layer, which takes it. -/
def Takes (g : Graph α) (settings : Settings α) (l : LayerId) (layer : Layer α) : Prop :=
  ∃ b c, (Registry.standard : Registry α).lookup layer.kind.typeName = some b ∧
    b l layer = .ok c ∧ c.convertible g layer settings = .ok ()

/-- A rule that is picked for a primitive layer.  A layer is wrapped only if no
    native rule takes it. -/
structure Picked (g : Graph α) (settings : Settings α) (l : LayerId) (wrapped : Bool)
    (r : Rule α) : Prop where
  rule : ∃ p c, Chosen g settings l wrapped p c ∧ r.layer = l ∧
    r.convert = (Rule.simple l c).convert ∧ r.hasWeights = Rule.weighs wrapped p ∧
    (wrapped = false → ∃ layer, g.layer l = .ok layer ∧ Rule.Supports g layer settings p)
  taken : wrapped = false → ∀ layer, g.layer l = .ok layer → Takes g settings l layer
  declined : wrapped = true → ∀ layer, g.layer l = .ok layer → ¬Takes g settings l layer

/-- What is bound to a layer: a rule that is picked for it, or the walk through
    it if it is a model, which is never wrapped. -/
def Fits (g : Graph α) (settings : Settings α) (l : LayerId) (wrapped : Bool) : Converter α → Prop
  | .rule r => Picked g settings l wrapped r
  | .model l' => l' = l ∧ wrapped = false ∧ ∃ m, g.model? l = some m

/-- What is noted about a converter that is bound: that the layer is wrapped, if
    it is. -/
inductive Notes : Bool → List String → Prop where
  | native : Notes false []
  | wrapped (reason : String) : Notes true [s!"{reason}. Falling back to tensor node."]

/-- A converter is found for a layer: it has been bound before, and is not used
    again if it has weights that are not split, or it is bound now. -/
inductive Finds (g : Graph α) (settings : Settings α) (l : LayerId) (c : Converter α)
    (s : Session α) : Session α → Prop where
  | again (bound : s.converters.lookup l = some c)
    (weights : c.hasWeights = true → settings.splitSharedWeights = true) : Finds g settings l c s s
  | first {wrapped : Bool} {notes : List String} (new : s.converters.lookup l = none)
    (fits : Fits g settings l wrapped c) (noted : Notes wrapped notes) : Finds g settings l c s
      { s with workspace := { s.workspace with warnings := s.workspace.warnings ++ notes },
               converters := (l, c) :: s.converters }

/-- A rule without conditions takes its layers. -/
theorem convertible_simple {c : InvocationId → Step (Workspace α) View} {layer : Layer α} :
    (Rule.simple l c).convertible g layer settings = .ok () := by
  unfold Rule.convertible
  cases settings.inferenceOnly <;> rfl

/-- The native rule of the entries of models has no conditions. -/
theorem takes_entry {layer : Layer α} {d : InputLayer} (hk : layer.kind = .primitive (.input d)) :
    Takes g settings l layer := by
  have htype : layer.kind.typeName = "InputLayer" := by rw [hk]; rfl
  refine ⟨RuleBuilder.converter Rule.input, .rule (Rule.simple l Rule.convertInput), ?_, ?_,
    convertible_simple⟩
  · rw [htype]
    rfl
  · simp only [RuleBuilder.converter, Rule.input, hk]
    rfl

/-- That of concatenations has one: batches are not joined. -/
theorem takes_concatenate {layer : Layer α} {c : Concatenate}
    (hk : layer.kind = .primitive (.concatenate c))
    (hn : Rule.namesBatch c.axis (Rule.firstOutputRank? g layer) = false) :
    Takes g settings l layer := by
  have htype : layer.kind.typeName = "Concatenate" := by rw [hk]; rfl
  refine ⟨RuleBuilder.converter Rule.concatenate, .rule { Rule.simple l (Rule.convertConcatenate c)
    with eligible := fun g layer _ => Rule.concatenateEligible c g layer }, ?_, ?_, ?_⟩
  · rw [htype]
    rfl
  · simp only [RuleBuilder.converter, Rule.concatenate, hk]
    rfl
  · refine Rule.convertible_eq_ok.2 ⟨?_, by simp [Rule.simple], by simp [Rule.simple]⟩
    exact if_neg (Bool.eq_false_iff.1 hn)

/-- A layer that is taken is converted natively. -/
theorem native_of_takes (hr : s.registry = Registry.standard) {layer : Layer α}
    (h : Takes s.workspace.graph s.workspace.settings l layer) :
    ∃ c, s.native l layer = .ok (.ok c) := by
  obtain ⟨b, c, hb, hc, hconv⟩ := h
  refine ⟨c, ?_⟩
  rw [native, hr, hb]
  dsimp only
  rw [hc]
  simp only [bind, Except.bind, hconv]
  rfl

/-- A layer that is converted natively is taken. -/
theorem takes_of_native (hr : s.registry = Registry.standard) {layer : Layer α} {c : Converter α}
    (h : s.native l layer = .ok (.ok c)) :
    Takes s.workspace.graph s.workspace.settings l layer := by
  obtain ⟨-, hconv⟩ := converts_of_native hr h
  unfold native at h
  rw [hr] at h
  split at h
  case h_1 b hb =>
    obtain ⟨c', hc, h⟩ := bind_eq_ok.1 h
    split at h
    case h_1 =>
      obtain rfl := Except.ok.inj (pure_eq_ok.1 h)
      exact ⟨b, c', hb, hc, hconv⟩
    · simp at h
  case h_2 => simp at h

/-- The entries of models are not wrapped. -/
theorem Picked.entry {wrapped : Bool} {r : Rule α} (h : Picked g settings l wrapped r)
    (hw : wrapped = true) : ¬g.IsEntry l := by
  rintro ⟨d, hd⟩
  obtain ⟨layer, hl, hk⟩ := kind?_eq_some.1 hd
  exact h.declined hw layer hl (takes_entry hk)

/-- A builder of the standard registry gives what fits a layer, if it may be
    used. -/
theorem fits_of_converts {layer : Layer α} (hl : g.layer l = .ok layer) {wrapped : Bool}
    {c : Converter α} (h : c.Converts l layer wrapped)
    (hf : wrapped = true → settings.allowFallback = true)
    (hn : wrapped = false → c.convertible g layer settings = .ok () ∧ Takes g settings l layer)
    (hd : wrapped = true → ¬Takes g settings l layer) : Fits g settings l wrapped c := by
  cases c with
  | rule r =>
    obtain ⟨p, c, hchosen, hlayer, hconvert, hweights, hs⟩ :=
      chosen_of_converts hl h hf fun hw => (hn hw).1
    refine ⟨⟨p, c, hchosen, hlayer, hconvert, hweights, fun hw => ⟨layer, hl, hs hw⟩⟩,
      fun hw layer' hl' => ?_, fun hw layer' hl' => ?_⟩
    · obtain rfl := Except.ok.inj (hl.symm.trans hl')
      exact (hn hw).2
    · obtain rfl := Except.ok.inj (hl.symm.trans hl')
      exact hd hw
  | model l' =>
    refine ⟨h.1, h.2.1, ?_⟩
    rw [model?_of_layer hl]
    exact Option.isSome_iff_exists.1 h.2.2

/-- Choosing a converter notes that a layer is wrapped, and nothing else. -/
theorem chooseConverter_eq_ok (hr : s.registry = Registry.standard)
    (hrun : Run g settings entries s.workspace) {layer : Layer α} (hl : g.layer l = .ok layer)
    {c : Converter α} (h : (chooseConverter l layer).exec s = (.ok c, s')) :
    ∃ wrapped notes, Fits g settings l wrapped c ∧ Notes wrapped notes ∧ s' = { s with
      workspace := { s.workspace with warnings := s.workspace.warnings ++ notes } } := by
  rw [chooseConverter, Step.exec_get_bind] at h
  obtain ⟨o, ho, h⟩ := Step.exec_lift_bind_eq_ok.1 h
  cases o with
  | ok c' =>
    obtain ⟨rfl, rfl⟩ := Step.exec_pure_eq_ok.1 h
    obtain ⟨hc, hconv⟩ := converts_of_native hr ho
    have htakes := takes_of_native hr ho
    rw [hrun.graph_eq, hrun.settings_eq] at hconv htakes
    have hnative : ∀ {P : Prop}, false = true → P := fun h => absurd h Bool.false_ne_true
    refine ⟨false, [], fits_of_converts hl hc hnative (fun _ => ⟨hconv, htakes⟩) hnative,
      .native, ?_⟩
    rw [List.append_nil]
  | error reason =>
    dsimp only at h
    split at h
    case h_1 b hb =>
      obtain ⟨hallowed, hbinding⟩ := binding_of_fallback hr hb
      rw [hrun.settings_eq] at hallowed
      obtain ⟨_, s₂, hwarn, h⟩ := Step.exec_bind_eq_ok.1 h
      obtain ⟨hc, rfl⟩ := Step.exec_lift_eq_ok.1 h
      obtain ⟨-, rfl⟩ := Prod.mk.inj hwarn
      refine ⟨true, _, fits_of_converts hl ((hbinding l layer).2 c hc) (fun _ => hallowed)
        (fun h => absurd h.symm Bool.false_ne_true) ?_, .wrapped reason, rfl⟩
      intro _ htakes
      -- the native rule would have been chosen
      rw [← hrun.graph_eq, ← hrun.settings_eq] at htakes
      obtain ⟨c', hc'⟩ := native_of_takes hr htakes
      rw [hc'] at ho
      cases ho
    case h_2 =>
      obtain ⟨h, -⟩ := Step.exec_lift_eq_ok.1 h
      simp at h

/-- The converter of a layer is found. -/
theorem getConverter_eq_ok (hr : s.registry = Registry.standard)
    (hrun : Run g settings entries s.workspace) {c : Converter α}
    (h : (getConverter l).exec s = (.ok c, s')) : Finds g settings l c s s' := by
  rw [getConverter, Step.exec_get_bind] at h
  obtain ⟨layer, hl, h⟩ := Step.exec_lift_bind_eq_ok.1 h
  rw [hrun.graph_eq] at hl
  cases hlook : s.converters.lookup l with
  | some c' =>
    rw [hlook] at h
    dsimp only at h
    split at h
    case isTrue =>
      obtain ⟨h, -⟩ := Step.exec_lift_eq_ok.1 h
      simp at h
    case isFalse hfree =>
      obtain ⟨rfl, rfl⟩ := Step.exec_pure_eq_ok.1 h
      refine .again hlook fun hw => ?_
      rw [hrun.settings_eq] at hfree
      simpa [hw] using hfree
  | none =>
    rw [hlook] at h
    obtain ⟨c', s₂, hc, h⟩ := Step.exec_bind_eq_ok.1 h
    obtain ⟨wrapped, notes, hfits, hnotes, rfl⟩ := chooseConverter_eq_ok hr hrun hl hc
    obtain ⟨_, s₃, hmod, h⟩ := Step.exec_bind_eq_ok.1 h
    obtain ⟨-, rfl⟩ := Prod.mk.inj hmod
    obtain ⟨rfl, rfl⟩ := Step.exec_pure_eq_ok.1 h
    exact .first hlook hfits hnotes

/-- Finding a converter leaves alone what has been converted. -/
theorem Finds.same {c : Converter α} (h : Finds g settings l c s s') :
    s'.model = s.model ∧ s'.registry = s.registry ∧ s'.inputs = s.inputs ∧
      s'.outputs = s.outputs ∧ s'.network = s.network ∧
      ∃ warnings, s'.workspace = { s.workspace with warnings } := by
  cases h with
  | again => exact ⟨rfl, rfl, rfl, rfl, rfl, _, rfl⟩
  | first => exact ⟨rfl, rfl, rfl, rfl, rfl, _, rfl⟩

/-- A converter that has been found is bound to its layer. -/
theorem Finds.lookup_self {c : Converter α} (h : Finds g settings l c s s') :
    s'.converters.lookup l = some c := by
  cases h with
  | again bound => exact bound
  | first => simp

/-- Converters that have been bound stay bound. -/
theorem Finds.lookup_of_some {c c' : Converter α} {l' : LayerId} (h : Finds g settings l c s s')
    (hl : s.converters.lookup l' = some c') : s'.converters.lookup l' = some c' := by
  cases h with
  | again => exact hl
  | first new =>
    rw [List.lookup_cons, beq_eq_false_iff_ne.2 fun heq : l' = l => ?_]
    · exact hl
    · rw [heq, new] at hl
      cases hl

/-- A converter that is bound is the one that has been found, or has been bound
    before. -/
theorem Finds.lookup_cases {c c' : Converter α} {l' : LayerId} (h : Finds g settings l c s s')
    (hl : s'.converters.lookup l' = some c') :
    s.converters.lookup l' = some c' ∨ l' = l ∧ c' = c := by
  cases h with
  | again => exact .inl hl
  | first =>
    rw [List.lookup_cons] at hl
    split at hl
    case h_1 heq => exact .inr ⟨beq_iff_eq.1 heq, (Option.some.inj hl).symm⟩
    case h_2 => exact .inl hl

/-! ## Walks -/

/-- How a session comes to be whose model is walked through: the converter of the
    model is found, and one invocation after the other is converted by the rule
    that is found for its layer. -/
inductive Walk (g : Graph α) (settings : Settings α) : List (Entry α) → Session α → Prop where
  | start {l : LayerId} {s : Session α} (start : start g l settings Registry.standard = .ok s) :
    Walk g settings [] s
  | model {entries : List (Entry α)} {s s' : Session α} {l l' : LayerId}
      (walk : Walk g settings entries s) (finds : Finds g settings l (.model l') s s') :
    Walk g settings entries s'
  | convert {entries : List (Entry α)} {s s' : Session α} {e : Entry α} {r : Rule α} {v : View}
      {w : Workspace α} (walk : Walk g settings entries s)
      (run : Run g settings entries s'.workspace)
      (finds : Finds g settings e.invocation.layer (.rule r) s s')
      (ran : (r.convert e.invocation.invocation).exec s'.workspace = (.ok (some v), w))
      (extends' : w.network = s'.workspace.network.extend e.part) :
    Walk g settings (entries ++ [e])
      { s' with workspace := { w with views := (e.invocation, [v]) :: w.views } }
  | sequential {entries : List (Entry α)} {s : Session α} (walk : Walk g settings entries s) :
    Walk g settings entries { s with workspace := { s.workspace with
      warnings := s.workspace.warnings ++ ["Converting sequential model to functional model"] } }

/-- A session that has converted some invocations, and has not bound any input
    or output of its model. -/
structure Walked (g : Graph α) (settings : Settings α) (entries : List (Entry α))
    (s : Session α) : Prop where
  walk : Walk g settings entries s
  run : Run g settings entries s.workspace
  registry : s.registry = Registry.standard
  converters : ∀ l c, s.converters.lookup l = some c → ∃ wrapped, Fits g settings l wrapped c
  used : ∀ e ∈ entries, ∃ r, s.converters.lookup e.invocation.layer = some (.rule r) ∧
    Picked g settings e.invocation.layer e.wrapped r
  shared : ∀ e ∈ entries, ∀ e' ∈ entries, e.invocation ≠ e'.invocation →
    e.invocation.layer = e'.invocation.layer →
    ∀ r, s.converters.lookup e.invocation.layer = some (.rule r) → r.hasWeights = true →
      settings.splitSharedWeights = true
  inputs : s.inputs = []
  outputs : s.outputs = []
  probes : s.network.probes = #[]

/-- A session that starts has not converted anything. -/
theorem walked_start (h : start g l settings Registry.standard = .ok s) :
    Walked g settings [] s ∧ s.model = l := by
  have hwalk := Walk.start h
  obtain ⟨-, label, rfl⟩ := start_eq_ok h
  exact ⟨⟨hwalk, .start label _, rfl, by simp, by simp, by simp, rfl, rfl, rfl⟩, rfl⟩

namespace Walked

/-- It is noted that the model is sequential. -/
theorem sequential (hs : Walked g settings entries s) :
    Walked g settings entries { s with workspace := { s.workspace with
      warnings := s.workspace.warnings ++ ["Converting sequential model to functional model"] } } :=
  { hs with walk := hs.walk.sequential, run := hs.run.warned _ }

/-- What is found fits its layer, and with weights it has not been used unless
    they are split. -/
theorem finds (hs : Walked g settings entries s) {c : Converter α}
    (h : Finds g settings l c s s') : (∃ wrapped, Fits g settings l wrapped c) ∧
      ((∃ e ∈ entries, e.invocation.layer = l) → c.hasWeights = true →
        settings.splitSharedWeights = true) := by
  cases h with
  | again bound weights => exact ⟨hs.converters l c bound, fun _ => weights⟩
  | first new fits =>
    refine ⟨⟨_, fits⟩, ?_⟩
    rintro ⟨e, he, rfl⟩
    obtain ⟨r, hr, -⟩ := hs.used e he
    simp [new] at hr

/-- The converters after one more has been found. -/
theorem converters_of_finds (hs : Walked g settings entries s) {c : Converter α}
    (h : Finds g settings l c s s') : ∀ l' c', s'.converters.lookup l' = some c' →
      ∃ wrapped, Fits g settings l' wrapped c' := by
  intro l' c' hc'
  obtain hold | ⟨rfl, rfl⟩ := h.lookup_cases hc'
  · exact hs.converters l' c' hold
  · exact (hs.finds h).1

/-- The walk through the model has begun. -/
theorem model (hs : Walked g settings entries s) {l' : LayerId}
    (h : Finds g settings l (.model l') s s') : Walked g settings entries s' := by
  obtain ⟨-, hregistry, hinputs, houtputs, hnetwork, warnings, hw⟩ := h.same
  refine ⟨hs.walk.model h, hw ▸ hs.run.warned warnings, hregistry.trans hs.registry,
    hs.converters_of_finds h, fun e he => ?_, fun e he e' he' hdiff hsame r hr => ?_,
    hinputs.trans hs.inputs, houtputs.trans hs.outputs, hnetwork ▸ hs.probes⟩
  · obtain ⟨r, hr, hpicked⟩ := hs.used e he
    exact ⟨r, h.lookup_of_some hr, hpicked⟩
  · obtain ⟨r', hr', -⟩ := hs.used e he
    obtain rfl : r' = r := by simpa using (h.lookup_of_some hr').symm.trans hr
    exact hs.shared e he e' he' hdiff hsame r' hr'

/-- **Converting one more invocation** makes an entry of it. -/
theorem convert (hs : Walked g settings entries s) {i : InvocationId}
    (hi : i ∉ converted entries) (hprim : g.model? i.layer = none) {views : List View}
    (h : (convertWith runRule i).exec s = (.ok views, s')) :
    ∃ e : Entry α, e.invocation = i ∧ s'.model = s.model ∧
      Walked g settings (entries ++ [e]) s' := by
  rw [convertWith, Step.exec_get_bind, hs.run.lookup_none hi] at h
  obtain ⟨c, s₁, hc, h⟩ := Step.exec_bind_eq_ok.1 h
  have hfinds := getConverter_eq_ok hs.registry hs.run hc
  obtain ⟨hmodel, hregistry, hinputs, houtputs, hnetwork, warnings, hw⟩ := hfinds.same
  have hrun₁ : Run g settings entries s₁.workspace := hw ▸ hs.run.warned warnings
  obtain ⟨⟨wrapped, hfits⟩, hweights⟩ := hs.finds hfinds
  obtain ⟨layer, hl, h⟩ := Step.exec_lift_bind_eq_ok.1 h
  rw [hs.run.graph_eq] at hl
  cases c with
  | model l =>
    obtain ⟨-, -, m, hm⟩ := hfits
    simp [hm] at hprim
  | rule r =>
    obtain ⟨p, c, hchosen, -, hconvert, -⟩ := hfits.rule
    obtain ⟨result, s₂, hrun, h⟩ := Step.exec_bind_eq_ok.1 h
    obtain ⟨v, hv, h⟩ := Step.exec_lift_bind_eq_ok.1 h
    obtain ⟨_, s₃, hmod, h⟩ := Step.exec_bind_eq_ok.1 h
    obtain ⟨-, rfl⟩ := Step.exec_pure_eq_ok.1 h
    obtain ⟨-, rfl⟩ := Prod.mk.inj hmod
    obtain rfl := orRefuse_eq_ok.1 hv
    -- the rule has run on the workspace
    have hrule : (onWorkspace (r.convert i.invocation)).exec s₁ = (.ok (some v), s₂) :=
      Step.exec_within_eq_ok.1 hrun
    obtain ⟨w, hruled, rfl⟩ := onWorkspace_eq_ok.1 hrule
    have hran : (c i).exec s₁.workspace = (.ok v, w) :=
      Rule.convert_simple_eq_ok.1 (hconvert ▸ hruled)
    obtain ⟨-, part, hpart, -⟩ := (hchosen.conversion.builds (hrun₁.graph_eq.symm ▸ hl)).of_ok hran
    have hrun' : Run g settings (entries ++ [⟨i, wrapped, part⟩])
        { w with views := (i, [v]) :: w.views } := hrun₁.convert hchosen hran hpart
    have hwalk : Walk g settings (entries ++ [⟨i, wrapped, part⟩])
        { s₁ with workspace := { w with views := (i, [v]) :: w.views } } :=
      hs.walk.convert (e := ⟨i, wrapped, part⟩) hrun₁ hfinds hruled hpart
    have hold : ∀ e ∈ entries, ∀ r', s₁.converters.lookup e.invocation.layer = some (.rule r') →
        s.converters.lookup e.invocation.layer = some (.rule r') := fun e he r' hr' => by
      obtain ⟨r'', hr'', -⟩ := hs.used e he
      rwa [← hr', hfinds.lookup_of_some hr'']
    refine ⟨⟨i, wrapped, part⟩, rfl, hmodel, ⟨hwalk, hrun', hregistry.trans hs.registry,
      fun l' c' => hs.converters_of_finds hfinds l' c', ?_, ?_, hinputs.trans hs.inputs,
      houtputs.trans hs.outputs, ?_⟩⟩
    · intro e he
      rcases List.mem_append.1 he with he | he
      · obtain ⟨r', hr', hpicked⟩ := hs.used e he
        exact ⟨r', hfinds.lookup_of_some hr', hpicked⟩
      · obtain rfl := List.mem_singleton.1 he
        exact ⟨r, hfinds.lookup_self, hfits⟩
    · -- an entry of the same layer has used the rule before
      have hagain : ∀ e ∈ entries, e.invocation.layer = i.layer → r.hasWeights = true →
          settings.splitSharedWeights = true := fun e he hl => hweights ⟨e, he, hl⟩
      intro e he e' he' hdiff hsame r' hr' hw
      rcases List.mem_append.1 he with he | he <;> rcases List.mem_append.1 he' with he' | he'
      · exact hs.shared e he e' he' hdiff hsame r' (hold e he r' hr') hw
      · obtain rfl := List.mem_singleton.1 he'
        obtain rfl : r = r' := by
          rw [hsame] at hr'
          simpa using hfinds.lookup_self.symm.trans hr'
        exact hagain e he hsame hw
      · obtain rfl := List.mem_singleton.1 he
        obtain rfl : r = r' := by simpa using hfinds.lookup_self.symm.trans hr'
        exact hagain e' he' hsame.symm hw
      · rw [List.mem_singleton.1 he, List.mem_singleton.1 he'] at hdiff
        exact absurd rfl hdiff
    · change w.network.probes = #[]
      rw [hpart]
      exact (congrArg Network.probes hnetwork).trans hs.probes

/-- **The walk through a model** converts what is traced, in that order. -/
theorem convertModel (hg : g.Sound) (hs : Walked g settings [] s) (hm : g.model? l = some m)
    {o : Option View} (h : (convertModel l 0).exec s = (.ok o, s')) :
    ∃ order entries, g.trace (m.outputs ++ m.inputs) = .ok order ∧
      converted entries = sources order ∧ s'.model = s.model ∧ Walked g settings entries s' := by
  rw [Session.convertModel, Step.exec_get_bind] at h
  obtain ⟨layer, -, h⟩ := Step.exec_lift_bind_eq_ok.1 h
  obtain ⟨m', hm', h⟩ := Step.exec_lift_bind_eq_ok.1 h
  obtain ⟨_, -, h⟩ := Step.exec_lift_bind_eq_ok.1 h
  obtain ⟨order, ho, h⟩ := Step.exec_lift_bind_eq_ok.1 h
  obtain ⟨_, s₁, hloop, h⟩ := Step.exec_bind_eq_ok.1 h
  obtain ⟨-, rfl⟩ := Step.exec_pure_eq_ok.1 h
  rw [hs.run.graph_eq] at hm' ho
  obtain rfl := Option.some.inj (hm.symm.trans (modelDef_eq_ok.1 hm'))
  obtain ⟨htraced, -, -, -⟩ := trace_eq_ok hg ho
  suffices hwalked : ∃ entries, converted entries = sources order ∧ s₁.model = s.model ∧
      Walked g settings entries s₁ by
    obtain ⟨entries, hdone, hmodel, hs₁⟩ := hwalked
    exact ⟨order, entries, ho, hdone, hmodel, hs₁⟩
  refine Step.forIn_keeps (I := fun done _ s₂ => ∃ entries, converted entries = sources done ∧
    s₂.model = s.model ∧ Walked g settings entries s₂) hloop ⟨[], rfl, rfl, hs⟩ ?_
  rintro done p rest c s₂ r s₃ hx ⟨entries, hdone, hmodel, hs₂⟩ hround
  have hfresh : p.source ∉ converted entries := by
    have hnodup := htraced.nodup
    rw [hx, sources_append, List.nodup_append] at hnodup
    rw [hdone]
    exact fun hmem => hnodup.2.2 _ hmem _ (by simp [sources]) rfl
  rw [Step.exec_get_bind, Workspace.isConverted, hs₂.run.lookup_none hfresh, if_pos (by rfl)]
    at hround
  obtain ⟨_, _, hconvert, hround⟩ := Step.exec_bind_eq_ok.1 hround
  obtain ⟨rfl, rfl⟩ := Step.exec_pure_eq_ok.1 hround
  obtain ⟨e, he, hmodel', hs₃⟩ := hs₂.convert hfresh (htraced.primitive (by simp [hx])) hconvert
  refine ⟨c, rfl, entries ++ [e], ?_, hmodel'.trans hmodel, hs₃⟩
  rw [sources_append, ← hdone]
  simp [converted, sources, he]

end Walked

end Neuroform.Session

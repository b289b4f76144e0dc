/-
  Neuroform — settings under which more is converted natively.

  No rule of the standard registry refuses a layer because a network is only
  run, or because maximum pooling may be averaged.  So where these are turned
  on, a conversion wraps no layer that it did not wrap before
  (`fewer_fallbacks`).
-/
import Neuroform.Proofs.Conversion.Noting

namespace Neuroform

variable {α : Type}

/-- Settings that differ from others in that a network is only run, or in that
    maximum pooling is averaged, where it was not before. -/
def Settings.Widens (s s' : Settings α) : Prop :=
  ∃ inference average, s' = { s with
    inferenceOnly := s.inferenceOnly || inference, maxToAverage := s.maxToAverage || average }

variable [Scalar α] {settings settings' : Settings α} {g : Graph α} {l : LayerId}
  {layer : Layer α}

/-! ## Rules -/

namespace Rule

/-- Widened settings keep the layers that the further conditions of a rule
    allow. -/
def Steady (layer : Layer α) (r : Rule α) : Prop :=
  ∀ g s s', s.Widens s' → r.eligible g layer s = .ok () → r.eligible g layer s' = .ok ()

/-- The options that matter in training matter in fewer settings. -/
theorem Steady.convertible {r : Rule α} (hr : r.Steady layer) (hw : settings.Widens settings')
    (h : r.convertible g layer settings = .ok ()) : r.convertible g layer settings' = .ok () := by
  obtain ⟨heligible, hoptions, htraining⟩ := convertible_eq_ok.1 h
  refine convertible_eq_ok.2 ⟨hr g _ _ hw heligible, hoptions, fun hi => htraining ?_⟩
  obtain ⟨inference, average, rfl⟩ := hw
  exact (Bool.or_eq_false_iff.1 hi).1

omit [Scalar α] in
/-- A rule whose conditions do not look at the settings. -/
theorem steady_of_eq {r : Rule α} (h : ∀ g s s', r.eligible g layer s' = r.eligible g layer s) :
    r.Steady layer :=
  fun g s s' _ he => (h g s s').trans he

omit [Scalar α] in
theorem steady_poolEligible {p : Pool} (hw : settings.Widens settings')
    (h : poolEligible p layer settings = .ok ()) : poolEligible p layer settings' = .ok () := by
  obtain ⟨inference, average, rfl⟩ := hw
  unfold poolEligible at h ⊢
  by_cases hmax : p.kind = .maximum
  · cases ha : settings.maxToAverage with
    | true => simp
    | false => simp [hmax, ha] at h
  · simp [hmax]

omit [Scalar α] in
theorem steady_batchNormEligible {n : BatchNorm α} (hw : settings.Widens settings')
    (h : batchNormEligible n layer settings = .ok ()) :
    batchNormEligible n layer settings' = .ok () := by
  obtain ⟨inference, average, rfl⟩ := hw
  unfold batchNormEligible at h ⊢
  cases hi : settings.inferenceOnly with
  | true => simpa [hi] using h
  | false => simp [hi] at h

/-- What a builder binds to a layer is steady. -/
def BindsSteady (b : RuleBuilder α) : Prop := ∀ l layer r, b l layer = .ok r → r.Steady layer

theorem bindsSteady_batchNorm : BindsSteady (batchNorm : RuleBuilder α) := by
  intro l layer r h
  unfold batchNorm at h
  split at h
  · obtain ⟨⟨scale, offset⟩, -, h⟩ := bind_eq_ok.1 h
    obtain rfl := pure_eq_ok.1 h
    exact fun _ _ _ hw => steady_batchNormEligible hw
  · simp [ruleMismatch] at h

theorem bindsSteady_pool : BindsSteady (pool : RuleBuilder α) := by
  intro l layer r h
  unfold pool at h
  split at h
  · obtain rfl := Except.ok.inj h
    exact fun _ _ _ hw => steady_poolEligible hw
  · simp [ruleMismatch] at h

/-- All other builders give rules without a look at the settings. -/
theorem bindsSteady_of_mem {b : RuleBuilder α} (hb : b ∈ [input, dense, activation, relu, leakyRelu,
    merge, concatenate, passing, conv, upSampling, zeroPadding]) : BindsSteady b := by
  intro l layer r h
  simp only [List.mem_cons, List.not_mem_nil, or_false] at hb
  rcases hb with rfl | rfl | rfl | rfl | rfl | rfl | rfl | rfl | rfl | rfl | rfl
  all_goals
    simp only [input, dense, activation, relu, leakyRelu, merge, concatenate, passing, conv,
      upSampling, zeroPadding] at h
    split at h
  -- a layer of another kind is refused
  all_goals cases h
  all_goals exact steady_of_eq fun _ _ _ => rfl

end Rule

/-! ## The standard registry -/

namespace Registry

theorem bindsSteady_primitiveRules :
    ∀ e ∈ (primitiveRules : List (String × RuleBuilder α)), Rule.BindsSteady e.2 := by
  have hrank : ∀ rank, ∀ e ∈ (ofRank rank : List (String × RuleBuilder α)),
      Rule.BindsSteady e.2 := by
    simp [ofRank, Rule.bindsSteady_pool, Rule.bindsSteady_of_mem]
  intro e he
  simp only [primitiveRules, List.mem_append] at he
  rcases he with ((he | he) | he) | he
  · revert e
    simp [Rule.bindsSteady_batchNorm, Rule.bindsSteady_of_mem]
  · exact hrank 1 e he
  · exact hrank 2 e he
  · exact hrank 3 e he

/-- **Eligibility is monotone**: what the standard registry binds to a layer
    takes it under widened settings, if it did before. -/
theorem convertible_of_widens (hw : settings.Widens settings') {b : ConverterBuilder α}
    {c : Converter α} (hb : (standard : Registry α).lookup layer.kind.typeName = some b)
    (hc : b l layer = .ok c) (h : c.convertible g layer settings = .ok ()) :
    c.convertible g layer settings' = .ok () := by
  rcases List.mem_append.1 (mem_of_lookup hb) with hmem | hmem
  · obtain ⟨⟨name, b'⟩, hb', he⟩ := List.mem_map.1 hmem
    cases he
    obtain ⟨r, hr, hc⟩ := bind_eq_ok.1 hc
    obtain rfl := pure_eq_ok.1 hc
    exact (bindsSteady_primitiveRules _ hb' l layer r hr).convertible hw h
  · have hmodel : b = model := by
      simp only [List.mem_cons, Prod.mk.injEq, List.not_mem_nil, or_false] at hmem
      rcases hmem with ⟨-, rfl⟩ | ⟨-, rfl⟩ <;> rfl
    rw [hmodel, model] at hc
    split at hc
    case isTrue =>
      obtain rfl := Except.ok.inj hc
      rfl
    case isFalse => cases hc

end Registry

/-! ## Conversions -/

namespace Session

open Neuroform.Graph

variable {s s' : Session α}

theorem Takes.of_widens (hw : settings.Widens settings') (h : Takes g settings l layer) :
    Takes g settings' l layer := by
  obtain ⟨b, c, hb, hc, hconv⟩ := h
  exact ⟨b, c, hb, hc, Registry.convertible_of_widens hw hb hc hconv⟩

/-- A session with widened settings has no reason to decline a layer that one
    without them would convert natively. -/
theorem native_error_of_widens (hr : s.registry = Registry.standard)
    (hr' : s'.registry = Registry.standard) (hg : s'.workspace.graph = s.workspace.graph)
    (hw : s.workspace.settings.Widens s'.workspace.settings) {reason' : String}
    (h : s'.native l layer = .ok (.error reason')) :
    ∃ reason, s.native l layer = .ok (.error reason) := by
  rw [native, hr', hg] at h
  rw [native, hr]
  cases hb : (Registry.standard : Registry α).lookup layer.kind.typeName with
  | none => exact ⟨_, rfl⟩
  | some b =>
    simp only [hb] at h
    obtain ⟨c, hc, h⟩ := bind_eq_ok.1 h
    simp only [hc, bind, Except.bind]
    cases hconv : c.convertible s.workspace.graph layer s.workspace.settings with
    | error cause => exact ⟨_, rfl⟩
    | ok =>
      rw [Registry.convertible_of_widens hw hb hc hconv] at h
      cases h

/-- An entry wraps its layer if and only if the native rule does not take the
    layer. -/
theorem Noted.wraps_iff {entries : List (Entry α)} {fallbacks : List LayerId}
    (h : Noted g settings entries fallbacks s) {e : Entry α} (he : e ∈ entries)
    (hl : g.layer e.invocation.layer = .ok layer) :
    e.layers ≠ [] ↔ ¬Takes g settings e.invocation.layer layer := by
  obtain ⟨layer', p, hl', hk, -⟩ := h.wraps e he
  obtain rfl := Except.ok.inj (hl.symm.trans hl')
  obtain ⟨c, hc⟩ := h.bound e he
  have hfits := h.fits _ c hc
  rw [(h.wraps e he).iff]
  generalize decide (e.invocation.layer ∈ fallbacks) = wrapped at hfits
  cases c with
  | model l' =>
    -- the layer of an entry is primitive
    obtain ⟨-, -, m, hm⟩ := hfits
    rw [model?_of_layer hl, hk] at hm
    cases hm
  | rule r =>
    cases wrapped with
    | false => exact iff_of_false Bool.false_ne_true (not_not_intro (hfits.taken rfl layer hl))
    | true => exact iff_of_true rfl (hfits.declined rfl layer hl)

/-- **Widened settings wrap no further layers.**  What the standard registry
    binds to a layer takes it if it did before; so a session that declines a
    layer would have declined it before; and of a model that is converted under
    both settings, the layers that own a tensor node under the widened ones did
    so before. -/
theorem fewer_fallbacks (hw : settings.Widens settings') :
    (∀ (g : Graph α) (l : LayerId) (layer : Layer α) b c,
      (Registry.standard : Registry α).lookup layer.kind.typeName = some b → b l layer = .ok c →
      c.convertible g layer settings = .ok () → c.convertible g layer settings' = .ok ()) ∧
    (∀ s s' : Session α, s.registry = Registry.standard → s'.registry = Registry.standard →
      s'.workspace.graph = s.workspace.graph → s.workspace.settings = settings →
      s'.workspace.settings = settings' → ∀ l layer reason',
      s'.native l layer = .ok (.error reason') → ∃ reason, s.native l layer = .ok (.error reason)) ∧
    ∀ (g : Graph α) l s s', g.Reachable → convert g l settings Registry.standard = .ok s →
      convert g l settings' Registry.standard = .ok s' →
      ∃ m order entries entries', g.model? l = some m ∧
        g.trace (m.outputs ++ m.inputs) = .ok order ∧ converted entries = sources order ∧
        converted entries' = sources order ∧ Run g settings entries s.workspace ∧
        Run g settings' entries' s'.workspace ∧ owners entries' ⊆ owners entries := by
  refine ⟨fun g l layer b c hb hc h => Registry.convertible_of_widens hw hb hc h, ?_, ?_⟩
  · rintro s s' hr hr' hg rfl rfl l layer reason' h
    exact native_error_of_widens hr hr' hg hw h
  · intro g l s s' hg hc hc'
    obtain ⟨m, hm⟩ := exists_model hc
    obtain ⟨order, entries, s₁, ho, hdone, hwalked, -, hends⟩ := convert_eq_ok hg.sound hm hc
    obtain ⟨order', entries', s₁', ho', hdone', hwalked', -, hends'⟩ :=
      convert_eq_ok hg.sound hm hc'
    obtain rfl := Except.ok.inj (ho.symm.trans ho')
    refine ⟨m, order, entries, entries', hm, ho, hdone, hdone', hends.run hwalked,
      hends'.run hwalked', fun k hk => ?_⟩
    obtain ⟨fallbacks, hnoted, -⟩ := hwalked.walk.noted
    obtain ⟨fallbacks', hnoted', -⟩ := hwalked'.walk.noted
    obtain ⟨e', he', hwraps', rfl⟩ := mem_owners.1 hk
    -- the invocation has been converted under both settings
    have hmem : e'.invocation ∈ converted entries := by
      rw [hdone, ← hdone']
      exact List.mem_map_of_mem he'
    obtain ⟨e, he, heq⟩ := List.mem_map.1 hmem
    obtain ⟨layer, p, hl, -⟩ := hnoted'.wraps e' he'
    have hnot : ¬Takes g settings' e'.invocation.layer layer := (hnoted'.wraps_iff he' hl).1 hwraps'
    rw [← heq] at hl hnot
    refine mem_owners.2 ⟨e, he, (hnoted.wraps_iff he hl).2 fun htakes => ?_, by rw [heq]⟩
    exact hnot (htakes.of_widens hw)

/-- Maximum pooling and a layer that clips, one after the other. -/
def pooled : List (BuildStep ℚ) :=
  [.input "x" [2, 1], .wire "pool" (.pool ⟨.maximum, .windows [2] [2] .valid, .channelsLast⟩) [⟨0⟩],
    .wire "clip" (.relu ⟨some 6, 0, 0⟩) [⟨1⟩], .model "m" [⟨0⟩] [⟨2⟩]]

/-- The standard settings, widened in both ways. -/
def widest : Settings ℚ := { Settings.standard with inferenceOnly := true, maxToAverage := true }

/-- Both layers are wrapped, and only the one that clips where pooling may be
    averaged. -/
theorem fewer_fallbacks_pooled : ∃ s s' entries entries',
    convert (build pooled) ⟨3⟩ Settings.standard Registry.standard = .ok s ∧
      convert (build pooled) ⟨3⟩ widest Registry.standard = .ok s' ∧
      (s.network.sketch.kinds.filterMap ObjectKind.layer?).map (·.name) = ["pool", "clip"] ∧
      (s'.network.sketch.kinds.filterMap ObjectKind.layer?).map (·.name) = ["clip"] ∧
      Run (build pooled) Settings.standard entries s.workspace ∧
      Run (build pooled) widest entries' s'.workspace ∧
      owners entries' ⊆ owners entries := by
  have hok : (do
      let s ← convert (build pooled) ⟨3⟩ Settings.standard Registry.standard
      pure ((s.network.sketch.kinds.filterMap ObjectKind.layer?).map (·.name)) :
        Outcome _).toOption = some ["pool", "clip"] := by decide +kernel
  have hok' : (do
      let s ← convert (build pooled) ⟨3⟩ widest Registry.standard
      pure ((s.network.sketch.kinds.filterMap ObjectKind.layer?).map (·.name)) :
        Outcome _).toOption = some ["clip"] := by decide +kernel
  obtain ⟨s, hs, hnames⟩ := bind_eq_ok.1 (toOption_eq_some.1 hok)
  obtain ⟨s', hs', hnames'⟩ := bind_eq_ok.1 (toOption_eq_some.1 hok')
  have hwidest : Settings.standard.Widens widest := ⟨true, true, rfl⟩
  obtain ⟨-, -, hconverted⟩ := fewer_fallbacks hwidest
  obtain ⟨_, _, entries, entries', -, -, -, -, hrun, hrun', hsub⟩ :=
    hconverted _ _ _ _ (reachable_build pooled) hs hs'
  exact ⟨s, s', entries, entries', hs, hs', pure_eq_ok.1 hnames, pure_eq_ok.1 hnames', hrun, hrun',
    hsub⟩

end Session
end Neuroform

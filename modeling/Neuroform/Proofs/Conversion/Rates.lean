/-
  Neuroform — models converted with and without a scaling of firing rates.

  The sessions of both conversions bind the same converters and come to
  workspaces that are scaled against each other (`Session.Scaled`).  So they
  succeed together, and rectifying networks keep their outputs
  (`rates_scaled`).
-/
import Neuroform.Proofs.Conversion.Scaling
import Neuroform.Proofs.Conversion.Walk

namespace Neuroform.Session

variable {α β : Type} [Scalar α] {scale : RateScale α}

/-- Sessions of a conversion without and with a scaling, which have bound the
    same converters of the standard registry. -/
structure Scaled (scale : RateScale α) (s s' : Session α) : Prop where
  model : s'.model = s.model
  standard : s.registry = Registry.standard
  registry : s'.registry = s.registry
  workspace : s.workspace.Scaled scale s'.workspace
  converters : s'.converters = s.converters
  bound : ∀ l c, s.converters.lookup l = some c → c.Respects scale
  inputs : s'.inputs = s.inputs
  outputs : s'.outputs = s.outputs
  layers : s'.layers = s.layers

section
variable {s s' : Session α}

theorem respects_onWorkspace {st : Step (Workspace α) β}
    (hs : st.Respects (Workspace.Scaled scale)) : (onWorkspace st).Respects (Scaled scale) :=
  fun _ _ h => (hs _ _ h.workspace).on fun _ _ hw => { h with workspace := hw }

theorem respects_onNetwork {st : Step (Network α) β}
    (hs : st.Respects (Network.Scaled (· ∈ scale.factors))) :
    (onNetwork st).Respects (Scaled scale) :=
  respects_onWorkspace (Workspace.respects_onNetwork hs)

/-! ## Converters -/

theorem Scaled.native (h : s.Scaled scale s') {l : LayerId} {layer : Layer α} :
    s'.native l layer = s.native l layer := by
  unfold Session.native
  rw [h.registry, h.standard]
  cases hb : (Registry.standard : Registry α).lookup layer.kind.typeName with
  | none => rfl
  | some b =>
    dsimp only
    cases hc : b l layer with
    | error e => rfl
    | ok c =>
      have hconverts := (Registry.binding_standard hb l layer).2 c hc
      rw [h.workspace.graph, h.workspace.settings]
      dsimp only [bind, Except.bind]
      rw [hconverts.convertible]

theorem Scaled.fallback (h : s.Scaled scale s') : s'.fallback? = s.fallback? := by
  unfold Session.fallback?
  rw [h.registry, h.workspace.settings]

theorem agrees_chooseConverter (h : s.Scaled scale s') {l : LayerId} {layer : Layer α} :
    Step.Agrees (Scaled scale) (Converter.Respects scale) (chooseConverter l layer)
      (chooseConverter l layer) s s' := by
  refine .get_bind ?_
  rw [h.native, h.fallback]
  refine .lift_bind h fun o ho => ?_
  cases o with
  | ok c => exact .pure h (converts_of_native h.standard ho).1.respects
  | error reason =>
    dsimp only
    cases hb : s.fallback? with
    | none => exact .lift h nofun
    | some b =>
      exact ((respects_onWorkspace Workspace.respects_warn) s s' h).bind fun _ _ _ _ h' =>
        .lift h' fun c hc => ((binding_of_fallback h.standard hb).2 l layer).2 c hc |>.respects

theorem agrees_getConverter (h : s.Scaled scale s') {l : LayerId} :
    Step.Agrees (Scaled scale) (Converter.Respects scale) (getConverter l) (getConverter l)
      s s' := by
  refine .get_bind ?_
  rw [h.workspace.graph, h.workspace.settings, h.converters]
  refine .lift_bind h fun layer _ => ?_
  cases hc : s.converters.lookup l with
  | some c =>
    dsimp only
    split
    · exact .lift h nofun
    · exact .pure h (h.bound l c hc)
  | none =>
    refine (agrees_chooseConverter h).bind fun c s s' hrespects h => ?_
    refine .of_exec rfl rfl { h with converters := ?_, bound := fun l' c' hc' => ?_ }
      fun c' hc' => Except.ok.inj hc' ▸ hrespects
    · exact congrArg ((l, c) :: ·) h.converters
    · change ((l, c) :: s.converters).lookup l' = some c' at hc'
      rw [List.lookup_cons] at hc'
      split at hc'
      · exact Option.some.inj hc' ▸ hrespects
      · exact h.bound l' c' hc'

/-! ## Invocations -/

theorem respects_runRule {c : Converter α} (hc : c.Respects scale) (invocation : Nat) :
    (runRule c invocation).Respects (Scaled scale) := by
  cases c with
  | rule r => exact respects_onWorkspace (hc invocation)
  | model l =>
    exact .read (fun s s' h => by rw [h.workspace.graph]) fun s => .lift_bind fun _ => .lift

theorem respects_convertWith {run : Converter α → Nat → Step (Session α) (Option View)}
    (hrun : ∀ c, c.Respects scale → ∀ i, (run c i).Respects (Scaled scale)) {i : InvocationId} :
    (convertWith run i).Respects (Scaled scale) := by
  intro s s' h
  refine .get_bind ?_
  rw [h.workspace.views, h.workspace.graph]
  cases s.workspace.views.lookup i with
  | some views => exact .pure h trivial
  | none =>
    refine (agrees_getConverter h).bind fun c s s' hc h => ?_
    have hview : ∀ view, (onWorkspace (modify fun w =>
        { w with views := (i, [view]) :: w.views })).Respects (Scaled (α := α) scale) :=
      fun view => respects_onWorkspace fun w w' hw => .of_exec rfl rfl
        { hw with views := congrArg ((i, [view]) :: ·) hw.views } fun _ _ => trivial
    exact .lift_bind h fun layer _ => ((hrun c hc i.invocation).within s s' h).bind
      fun result s s' _ h => .lift_bind h fun view _ => ((hview view).bind fun _ => .pure) s s' h

theorem respects_convertModel {l : LayerId} {invocation : Nat} :
    (convertModel l invocation : Step (Session α) _).Respects (Scaled scale) := by
  refine .read (fun s s' h => by rw [h.workspace.graph]) fun s => .lift_bind fun layer =>
    .lift_bind fun m => .lift_bind fun _ => .lift_bind fun order =>
    (Step.Respects.forIn fun p _ => ?_).bind fun _ => .pure
  refine .read (fun s s' h => by rw [h.workspace.isConverted]) fun s => ?_
  split
  · exact (respects_convertWith fun c hc => respects_runRule hc).bind fun _ => .pure
  · exact .pure

theorem respects_run {c : Converter α} (hc : c.Respects scale) (invocation : Nat) :
    (run c invocation).Respects (Scaled scale) := by
  cases c with
  | rule r => exact respects_runRule hc invocation
  | model l => exact respects_convertModel

/-! ## Whole models -/

theorem respects_bindInput {t : TensorId} :
    (bindInput t : Step (Session α) Unit).Respects (Scaled scale) :=
  .read (fun s s' h => by rw [h.workspace.tensorView]) fun s => .lift_bind fun view s s' h =>
    .of_exec rfl rfl { h with inputs := congrArg (·.insert t view) h.inputs } fun _ _ => trivial

theorem respects_bindOutput {t : TensorId} :
    (bindOutput t : Step (Session α) Unit).Respects (Scaled scale) := by
  refine .read (fun s s' h => by simp only [h.workspace.tensorView, h.workspace.synapseOf])
    fun s => .lift_bind fun view => .lift_bind fun synapse =>
    (respects_onNetwork Network.respects_addProbe).bind fun probe s s' h => ?_
  exact .of_exec rfl rfl { h with outputs := congrArg (·.insert t probe) h.outputs }
    fun _ _ => trivial

theorem respects_bindLayers : (bindLayers : Step (Session α) Unit).Respects (Scaled scale) := by
  refine .read (fun s s' h => by dsimp only; rw [h.workspace.graph, h.workspace.views]) fun s =>
    (Step.Respects.forIn fun e _ => .lift_bind fun invocation => ?_).bind fun _ => .pure
  refine (Step.Respects.forIn fun e _ => ?_).bind fun _ => .pure
  exact fun s s' h =>
    .of_exec rfl rfl { h with layers := congrArg (·.insert e.1 e.2) h.layers } fun _ _ => trivial

theorem respects_convertAll : (convertAll : Step (Session α) Unit).Respects (Scaled scale) := by
  intro s s' h
  refine .get_bind ?_
  rw [h.workspace.graph, h.model]
  refine .lift_bind h fun m _ => (agrees_getConverter h).bind fun c s s' hc h => ?_
  refine (respects_run hc 0 s s' h).bind fun _ s s' _ h => ?_
  have hrest : (do
      m.inputs.forM bindInput
      m.outputs.forM bindOutput
      bindLayers : Step (Session α) Unit).Respects (Scaled scale) :=
    (Step.Respects.forM fun _ => respects_bindInput).bind fun _ =>
    (Step.Respects.forM fun _ => respects_bindOutput).bind fun _ => respects_bindLayers
  dsimp only
  split
  · exact ((respects_onWorkspace Workspace.respects_warn).bind fun _ => hrest) s s' h
  · exact hrest s s' h

end

/-- A conversion that may scale firing rates starts like one that does not. -/
theorem start_scaled {g : Graph α} {l : LayerId} {settings : Settings α}
    (hk : ∀ k ∈ settings.scale.factors, isFinite k ∧ 0 < k) :
    (∃ e, start g l { settings with scale := .none } Registry.standard = .error e ∧
      start g l settings Registry.standard = .error e) ∨
    ∃ s s', start g l { settings with scale := .none } Registry.standard = .ok s ∧
      start g l settings Registry.standard = .ok s' ∧ s.Scaled settings.scale s' := by
  have hfactors : settings.scale.factors.find? (fun k => !(isFinite k && decide (0 < k))) = none :=
    List.find?_eq_none.2 fun k hmem => by simp [(hk k hmem).1, (hk k hmem).2]
  have hvalid : settings.validate = { settings with scale := .none }.validate := by
    unfold Settings.validate
    rw [hfactors]
    rfl
  unfold start
  rw [hvalid]
  cases { settings with scale := .none }.validate with
  | error e => exact .inl ⟨e, rfl, rfl⟩
  | ok _ =>
    cases g.layer l with
    | error e => exact .inl ⟨e, rfl, rfl⟩
    | ok root =>
      cases g.modelDef l with
      | error e => exact .inl ⟨e, rfl, rfl⟩
      | ok m => exact .inr ⟨_, _, rfl, rfl, rfl, rfl, rfl, ⟨rfl, rfl, rfl, .refl, rfl⟩, rfl, nofun,
          rfl, rfl, rfl⟩

/-- Conversions with and without a scaling fail alike, or succeed together with
    scaled sessions. -/
theorem convert_scaled {g : Graph α} {l : LayerId} {settings : Settings α}
    (hk : ∀ k ∈ settings.scale.factors, isFinite k ∧ 0 < k) :
    (∃ e, convert g l { settings with scale := .none } Registry.standard = .error e ∧
      convert g l settings Registry.standard = .error e) ∨
    ∃ s s', convert g l { settings with scale := .none } Registry.standard = .ok s ∧
      convert g l settings Registry.standard = .ok s' ∧ s.Scaled settings.scale s' := by
  unfold convert
  obtain ⟨e, he, he'⟩ | ⟨s, s', hs, hs', h⟩ := start_scaled hk
  · rw [he, he']
    exact .inl ⟨e, rfl, rfl⟩
  rw [hs, hs']
  obtain ⟨ho, hr, -⟩ := respects_convertAll s s' h
  change (∃ e, (convertAll.exec s).1 >>= _ = _ ∧ (convertAll.exec s').1 >>= _ = _) ∨
    ∃ t t', (convertAll.exec s).1 >>= _ = _ ∧ (convertAll.exec s').1 >>= _ = _ ∧ _
  rw [ho]
  cases (convertAll.exec s).1 with
  | error e => exact .inl ⟨e, rfl, rfl⟩
  | ok _ => exact .inr ⟨_, _, rfl, rfl, hr⟩

/-- **Scaling firing rates preserves outputs.**  By finite and positive factors,
    a conversion with a scaling succeeds if and only if the one without it does;
    the networks are equal but for gain, biases and amplitude of ensembles; and
    if all ensembles are rectifiers, they give the same values for all inputs in
    exact arithmetic. -/
theorem rates_scaled {g : Graph α} {l : LayerId} {settings : Settings α}
    (hk : ∀ k ∈ settings.scale.factors, isFinite k ∧ 0 < k) :
    ((∃ s', convert g l settings Registry.standard = .ok s') ↔
      ∃ s, convert g l { settings with scale := .none } Registry.standard = .ok s) ∧
    ∀ s s', convert g l { settings with scale := .none } Registry.standard = .ok s →
      convert g l settings Registry.standard = .ok s' →
      s.network.Scaled (· ∈ settings.scale.factors) s'.network ∧
      s'.inputs = s.inputs ∧ s'.outputs = s.outputs ∧
      (Exact α → (∀ o ∈ s.network.objects, ∀ e, o.kind = .neurons e → e.neuron.isRectifier) →
        ∀ fed batch, s'.network.predict fed batch = s.network.predict fed batch) := by
  obtain ⟨e, he, he'⟩ | ⟨s, s', hs, hs', h⟩ :=
    convert_scaled (g := g) (l := l) hk <;> refine ⟨?_, fun t t' ht ht' => ?_⟩
  · simp [he, he']
  · simp [he] at ht
  · simp [hs, hs']
  obtain rfl := Except.ok.inj (hs.symm.trans ht)
  obtain rfl := Except.ok.inj (hs'.symm.trans ht')
  refine ⟨h.workspace.network, h.inputs, h.outputs, fun hα hn fed batch => ?_⟩
  have hpos : s.network.Scaled (0 < ·) s'.network :=
    h.workspace.network.imp fun k hmem => (hk k hmem).2
  exact hpos.predict hα hn fed batch

/-- A model of a dense layer that ends in a rectifier. -/
def rectifiedDense : List (Graph.BuildStep ℚ) :=
  [.input "x" [1], .wire "d" (.dense ⟨⟨1, 1, #[4], rfl⟩, some [3], .relu, default⟩) [⟨0⟩],
    .model "m" [⟨0⟩] [⟨1⟩]]

/-- Rates that are four times as high. -/
def quadrupled : Settings ℚ := { Settings.standard with scale := .everywhere 4 }

/-- A rectifier with a bias has the same output at higher rates. -/
theorem rates_scaled_dense : ∃ s s', convert (Graph.build rectifiedDense) ⟨2⟩ Settings.standard
      Registry.standard = .ok s ∧
    convert (Graph.build rectifiedDense) ⟨2⟩ quadrupled Registry.standard = .ok s' ∧
    ∃ values, s.network.predict [(⟨0⟩, ⟨1, 1, #[5], rfl⟩)] 1 = .ok values ∧
      s'.network.predict [(⟨0⟩, ⟨1, 1, #[5], rfl⟩)] 1 = .ok values ∧
      values.map (·.cells) = [#[23]] := by
  have hrun : (do
      let s ← convert (Graph.build rectifiedDense) ⟨2⟩ Settings.standard Registry.standard
      let values ← s.network.predict [(⟨0⟩, ⟨1, 1, #[5], rfl⟩)] 1
      return (s.network.objects.all (·.kind.rectifies), values.map (·.cells)) :
      Outcome _).toOption = some (true, [#[23]]) := by
    decide +kernel
  obtain ⟨s, hs, hrun⟩ := bind_eq_ok.1 (toOption_eq_some.1 hrun)
  obtain ⟨values, hvalues, hrun⟩ := bind_eq_ok.1 hrun
  obtain ⟨hall, hcells⟩ := Prod.mk.inj (pure_eq_ok.1 hrun)
  have hk : ∀ k ∈ quadrupled.scale.factors, isFinite k ∧ 0 < k := by
    intro k hk
    obtain rfl := List.mem_singleton.1 hk
    decide +kernel
  obtain ⟨hiff, hboth⟩ := rates_scaled (g := Graph.build rectifiedDense) (l := ⟨2⟩) hk
  obtain ⟨s', hs'⟩ := hiff.2 ⟨s, hs⟩
  obtain ⟨-, -, -, hpredict⟩ := hboth s s' hs hs'
  refine ⟨s, s', hs, hs', values, hvalues, ?_, hcells⟩
  rw [hpredict exact_of_field ?_, hvalues]
  intro o ho e he
  simpa [he, ObjectKind.rectifies] using Array.all_eq_true'.1 hall o ho

end Neuroform.Session

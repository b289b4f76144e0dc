/-
  Neuroform — layers with weights that are applied again.

  A layer that shares weights among its invocations is refused on its second
  one, unless weights are split.  Whether it shares weights is for its rule to
  say, and only the native rules for dense layers and convolutions do: a wrapped
  layer is converted as often as it is applied, each time with weights of its
  own (`repeated_weights_wrapped`).
-/
import Neuroform.Proofs.Conversion.Ends
import Neuroform.Proofs.Conversion.Parameters

namespace Neuroform

variable {α : Type} [Scalar α]

/-- The layers with parameters that are converted natively either share their
    weights, or are normalizations. -/
theorem Rule.Conversion.weighs_or_batchNorm {p : Primitive α}
    {c : InvocationId → Step (Workspace α) View} (h : Rule.Conversion false p c)
    (hp : 0 < p.operation.parameterCount) :
    Rule.weighs false p = true ∨ ∃ n, p = .batchNorm n := by
  cases h with
  | dense => exact .inl rfl
  | conv => exact .inl rfl
  | batchNorm => exact .inr ⟨_, rfl⟩
  | _ => exact absurd hp (lt_irrefl 0)

namespace Session

open Neuroform.Graph

variable {g : Graph α} {settings : Settings α} {entries : List (Entry α)} {s : Session α}

/-- What was converted more than once without splitting weights was wrapped, or
    it has a native rule that does not share weights. -/
theorem Walked.unshared (hs : Walked g settings entries s)
    (hsplit : settings.splitSharedWeights = false) {e e' : Entry α} (he : e ∈ entries)
    (he' : e' ∈ entries) (hne : e.invocation ≠ e'.invocation)
    (hl : e.invocation.layer = e'.invocation.layer) :
    ∃ p c, Chosen g settings e.invocation.layer e.wrapped p c ∧ Rule.weighs e.wrapped p = false := by
  obtain ⟨r, hr, hpicked⟩ := hs.used e he
  obtain ⟨p, c, hchosen, -, -, hweighs, -⟩ := hpicked.rule
  refine ⟨p, c, hchosen, ?_⟩
  rw [← hweighs, Bool.eq_false_iff]
  intro hw
  rw [hs.shared e he e' he' hne hl r hr hw] at hsplit
  cases hsplit

/-- **Weights that are not split are duplicated where the fallback hides them**:
    if a conversion that does not split weights succeeds, every layer with
    parameters that was converted for two invocations has been wrapped for
    both, or is a normalization in a network that is only run.  Each of the
    invocations of a wrapped layer adds all of its trained parameters. -/
theorem repeated_weights_wrapped (h : g.Reachable) {l : LayerId} {m : ModelDef}
    (hm : g.model? l = some m) (hsplit : settings.splitSharedWeights = false)
    (hc : convert g l settings Registry.standard = .ok s) :
    ∃ order entries, g.trace (m.outputs ++ m.inputs) = .ok order ∧
      converted entries = sources order ∧ Run g settings entries s.workspace ∧
      ∀ e ∈ entries, ∀ e' ∈ entries, e.invocation ≠ e'.invocation →
        e.invocation.layer = e'.invocation.layer →
        ∀ layer, g.layer e.invocation.layer = .ok layer → 0 < layer.parameterCount →
          (e.wrapped = true ∧ settings.allowFallback = true ∨
            settings.inferenceOnly = true ∧ ∃ n, layer.kind = .primitive (.batchNorm n)) ∧
          s.network.contribution e.part =
            if settings.inferenceOnly || !layer.trainable then 0 else layer.parameterCount := by
  obtain ⟨order, entries, s₁, ho, hdone, hs, -, hends⟩ := convert_eq_ok h.sound hm hc
  have hrun := hends.run hs
  refine ⟨order, entries, ho, hdone, hrun, ?_⟩
  intro e he e' he' hne hsame layer hl hparameters
  obtain ⟨p, c, hchosen, hweighs⟩ := hs.unshared hsplit he he' hne hsame
  have hk : layer.kind = .primitive p :=
    Option.some.inj ((kind?_of_layer hl).symm.trans hchosen.kind)
  have hkind : e.wrapped = true ∧ settings.allowFallback = true ∨
      settings.inferenceOnly = true ∧ ∃ n, layer.kind = .primitive (.batchNorm n) := by
    cases hw : e.wrapped with
    | true => exact .inl ⟨rfl, hchosen.fallback hw⟩
    | false =>
      rw [Layer.parameterCount, hk] at hparameters
      rw [hw] at hweighs
      rcases (hw ▸ hchosen.conversion).weighs_or_batchNorm hparameters with hweighs' | ⟨n, rfl⟩
      · rw [hweighs] at hweighs'
        cases hweighs'
      · exact .inr ⟨hchosen.fixed hw n rfl, n, hk⟩
  refine ⟨hkind, ?_⟩
  rw [Session.network, hrun.contribution_eq he hl]
  rcases hkind with ⟨hw, -⟩ | ⟨hi, -⟩
  · rw [hw, Bool.true_and]
  · rw [hi, Bool.true_or, Bool.true_or]

/-- A model that applies one dense layer twice, to samples of two axes. -/
def twiceDense : List (BuildStep ℚ) :=
  [.input "x" [1, 1], .wire "d" (.dense ⟨.ofColumn [2], none, .linear, default⟩) [⟨0⟩],
    .apply ⟨1⟩ [⟨1⟩], .model "m" [⟨0⟩] [⟨2⟩]]

/-- The dense layer is wrapped, as its samples have two axes; its only weight is
    in the converted network twice. -/
theorem repeated_weights_wrapped_dense : (build twiceDense).trainableParameterCount ⟨2⟩ = .ok 1 ∧
    ∃ s entries, convert (build twiceDense) ⟨2⟩ Settings.standard Registry.standard = .ok s ∧
      Run (build twiceDense) Settings.standard entries s.workspace ∧
      s.network.trainableParameterCount = .ok 2 ∧
      ∀ i ∈ [⟨⟨1⟩, 0⟩, ⟨⟨1⟩, 1⟩], ∃ e ∈ entries, e.invocation = i ∧ e.wrapped = true ∧
        s.network.contribution e.part = 1 := by
  have hcount : (do (← convert (build twiceDense) ⟨2⟩ Settings.standard
      Registry.standard).network.trainableParameterCount : Outcome Nat).toOption = some 2 := by
    decide +kernel
  have hmodel : (build twiceDense).model? ⟨2⟩ = some ⟨[⟨0⟩], [⟨2⟩], [⟨0⟩, ⟨1⟩], false⟩ := by cbv
  have htrace : (build twiceDense).trace [⟨2⟩, ⟨0⟩] =
      .ok [⟨⟨0⟩, 0, 0⟩, ⟨⟨1⟩, 0, 0⟩, ⟨⟨1⟩, 1, 0⟩] := by cbv
  have hdense : ∃ layer, (build twiceDense).layer ⟨1⟩ = .ok layer ∧ layer.parameterCount = 1 ∧
      layer.trainable = true := ⟨_, rfl, rfl, rfl⟩
  obtain ⟨s, hs, hcount⟩ := bind_eq_ok.1 (toOption_eq_some.1 hcount)
  refine ⟨by cbv, s, ?_⟩
  obtain ⟨order, entries, horder, hdone, hrun, htwice⟩ :=
    repeated_weights_wrapped (reachable_build twiceDense) hmodel rfl hs
  refine ⟨entries, hs, hrun, hcount, ?_⟩
  obtain rfl := Except.ok.inj (htrace.symm.trans horder)
  obtain ⟨e₀, _, rfl, he₀, h⟩ := List.map_eq_cons_iff.1 hdone
  obtain ⟨e₁, _, rfl, he₁, h⟩ := List.map_eq_cons_iff.1 h
  obtain ⟨e₂, _, rfl, he₂, h⟩ := List.map_eq_cons_iff.1 h
  obtain rfl := List.map_eq_nil_iff.1 h
  obtain ⟨layer, hl, hone, htrain⟩ := hdense
  have hadds : ∀ e ∈ [e₀, e₁, e₂], ∀ e' ∈ [e₀, e₁, e₂], e.invocation ≠ e'.invocation →
      e.invocation.layer = ⟨1⟩ → e'.invocation.layer = ⟨1⟩ →
      e.wrapped = true ∧ s.network.contribution e.part = 1 := by
    intro e he e' he' hne h h'
    obtain ⟨hkind, hpart⟩ := htwice e he e' he' hne (h.trans h'.symm) layer (h ▸ hl) (by omega)
    refine ⟨?_, by rw [hpart, hone, htrain]; rfl⟩
    rcases hkind with ⟨hw, -⟩ | ⟨hi, -⟩
    · exact hw
    · cases hi
  intro i hi
  simp only [List.mem_cons, List.not_mem_nil, or_false] at hi
  rcases hi with rfl | rfl
  · exact ⟨e₁, by simp, he₁, hadds e₁ (by simp) e₂ (by simp) (by rw [he₁, he₂]; decide)
      (by rw [he₁]; rfl) (by rw [he₂]; rfl)⟩
  · exact ⟨e₂, by simp, he₂, hadds e₂ (by simp) e₁ (by simp) (by rw [he₁, he₂]; decide)
      (by rw [he₂]; rfl) (by rw [he₁]; rfl)⟩

end Session
end Neuroform

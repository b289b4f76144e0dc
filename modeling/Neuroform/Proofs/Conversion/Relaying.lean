/-
  Neuroform — layers without a nonlinearity.

  Merges, poolings, normalizations, concatenations, up-samplings and zero
  paddings give no nonlinearity to their target (`Primitive.IsRelay`).  It is
  then the target of a linear activation, which settings may swap like any
  other: such a layer is held by a passthrough node if and only if a linear
  activation is still linear after the swaps.
-/
import Neuroform.Proofs.Conversion.Holding

namespace Neuroform

variable {α : Type} [Scalar α]

/-! ## Linear targets -/

/-- Activations are compared by their names. -/
theorem Nonlinearity.beq_activation {n : Nonlinearity α} {a : Activation} :
    (n == .activation a) = true ↔ n = .activation a := by
  cases n with
  | activation b =>
    change (b == a) = true ↔ _
    simp
  | neuron m =>
    change false = true ↔ _
    simp

/-- A linear activation that is not swapped is its own target. -/
theorem Settings.target_linear {s : Settings α} (h : ∀ e ∈ s.swaps, e.1 ≠ .activation .linear) :
    s.target (.activation .linear) = .activation .linear := by
  have hnone : s.swaps.find? (·.1 == .activation .linear) = none :=
    List.find?_eq_none.2 fun e he hswap => h e he (Nonlinearity.beq_activation.1 hswap)
  have hswap : s.swap (.activation .linear) = .activation .linear := by rw [swap, hnone]; rfl
  simp only [target, hswap, Nonlinearity.native?]

/-- The targets of linear activations are the passthrough nodes. -/
theorem targetKind_eq_passthrough {factor : Option α} {biases : Option (List α)} {dims : List Nat}
    {n : Nonlinearity α} {size : Nat} :
    targetKind factor biases dims n = .node (.passthrough size) ↔
      n = .activation .linear ∧ size = volume dims := by
  cases n with
  | neuron n => simp [targetKind]
  | activation a =>
    change Workspace.activationKind dims a = _ ↔ _
    unfold Workspace.activationKind
    split <;> simp_all [eq_comm]

/-! ## Relays -/

/-- Layers that have no nonlinearity. -/
inductive Primitive.IsRelay : Primitive α → Prop where
  | merge (m : Merge) : IsRelay (.merge m)
  | pool (p : Pool) : IsRelay (.pool p)
  | batchNorm (n : BatchNorm α) : IsRelay (.batchNorm n)
  | concatenate (c : Concatenate) : IsRelay (.concatenate c)
  | upSampling (u : UpSampling) : IsRelay (.upSampling u)
  | zeroPadding (z : ZeroPadding) : IsRelay (.zeroPadding z)

namespace Primitive.IsRelay
variable {p : Primitive α} (h : p.IsRelay)
include h

/-- A relay asks for a target without biases and nonlinearity. -/
theorem target? : Rule.target? p = some (none, none) := by cases h <;> rfl

omit [Scalar α] in
theorem not_handsOn {g : Graph α} {i : InvocationId} : ¬Rule.HandsOn g i false p := by
  cases h <;> exact nofun

end Primitive.IsRelay

/-! ## Conversions -/

namespace Session

open Neuroform.Graph

variable {g : Graph α} {settings : Settings α} {entries : List (Entry α)} {w : Workspace α}
  {e : Entry α} {l : LayerId} {s : Session α} {p : Primitive α}

/-- What is held for a relay is the target of a linear activation. -/
theorem Completed.held_relay (hd : Completed g settings entries w) (he : e ∈ entries)
    (hnative : e.wrapped = false) (hk : g.kind? e.invocation.layer = some (.primitive p))
    (hp : p.IsRelay) : ∃ dims o x, g.OutputDims e.invocation dims ∧
      w.views.lookup e.invocation = some [.full o] ∧ w.network.object o = .ok x ∧
      x.kind = settings.targetKind e.invocation.layer none none dims := by
  obtain ⟨v, hv, hheld⟩ := hd.holds.held e he
  cases hheld with
  | @made p' dims o x hk' _ hdims hx fills =>
    obtain rfl : p = p' := by simpa using hk.symm.trans hk'
    refine ⟨dims, o, x, hdims, hv, Network.object_eq_ok.2 hx, ?_⟩
    rw [← hd.run.settings_eq]
    exact fills.target hnative none none hp.target?
  | handed hands _ =>
    obtain ⟨p', hk', hands⟩ := hands
    obtain rfl : p = p' := by simpa using hk.symm.trans hk'
    exact absurd (hnative ▸ hands) hp.not_handsOn

/-- **Layers without a nonlinearity follow the swaps of linear activations.**  In
    a conversion with the standard registry, each invocation of such a layer
    that is converted natively is held by a passthrough node if and only if the
    swaps leave linear activations linear, as they do where none of them is for
    linear activations.  Otherwise it is held by the ensemble or the tensor node
    of what a linear activation becomes. -/
theorem relays_follow_linear (h : g.Reachable)
    (hc : convert g l settings Registry.standard = .ok s) :
    ∃ m order entries, g.model? l = some m ∧ g.trace (m.outputs ++ m.inputs) = .ok order ∧
      converted entries = sources order ∧ Run g settings entries s.workspace ∧
      (∀ e ∈ entries, e.wrapped = false →
        ∀ p, g.kind? e.invocation.layer = some (.primitive p) → p.IsRelay →
        ∃ dims o x, g.OutputDims e.invocation dims ∧
          s.workspace.views.lookup e.invocation = some [.full o] ∧ s.network.object o = .ok x ∧
          x.kind = targetKind (settings.scale.ofLayer? e.invocation.layer) none dims
            (settings.target (.activation .linear)) ∧
          ((∃ size, x.kind = .node (.passthrough size)) ↔
            settings.target (.activation .linear) = .activation .linear)) ∧
      ((∀ e ∈ settings.swaps, e.1 ≠ .activation .linear) →
        settings.target (.activation .linear) = .activation .linear) := by
  obtain ⟨m, hm⟩ := exists_model hc
  obtain ⟨order, entries, s₁, ho, hdone, hd, -⟩ := convert_completed h.sound hm hc
  refine ⟨m, order, entries, hm, ho, hdone, hd.run, ?_, Settings.target_linear⟩
  intro e he hnative p hk hp
  obtain ⟨dims, o, x, hdims, hv, hx, hkind⟩ := hd.held_relay he hnative hk hp
  refine ⟨dims, o, x, hdims, hv, hx, hkind, ?_⟩
  rw [hkind]
  constructor
  · rintro ⟨size, hsize⟩
    exact (targetKind_eq_passthrough.1 hsize).1
  · exact fun hlinear => ⟨_, targetKind_eq_passthrough.2 ⟨hlinear, rfl⟩⟩

/-- Without fallbacks all that is converted is native. -/
theorem Run.native (h : Run g settings entries w) (ha : settings.allowFallback = false) :
    ∀ e ∈ entries, e.wrapped = false := by
  induction h with
  | start => exact nofun
  | note _ _ _ ih => exact ih
  | convert _ chosen _ _ ih =>
    intro e he
    rcases List.mem_append.1 he with he | he
    · exact ih e he
    · obtain rfl := List.mem_singleton.1 he
      exact Bool.eq_false_iff.2 fun hw => by simp [chosen.fallback hw] at ha

/-- An input is added to itself. -/
def doubled : List (BuildStep ℚ) :=
  [.input "x" [1], .wire "a" (.merge .add) [⟨0⟩, ⟨0⟩], .model "m" [⟨0⟩] [⟨1⟩]]

/-- Linear activations become rectifiers, and nothing is wrapped. -/
def rectifying : Settings ℚ := { Settings.standard with
  allowFallback := false
  swaps := [(.activation .linear, .activation .relu)] }

/-- The sum has no nonlinearity, but it is held by rectified neurons. -/
theorem relays_follow_linear_doubled : ∃ s entries,
    convert (build doubled) ⟨2⟩ rectifying Registry.standard = .ok s ∧
      Run (build doubled) rectifying entries s.workspace ∧
      ∃ e ∈ entries, e.invocation = ⟨⟨1⟩, 0⟩ ∧ e.wrapped = false ∧
        (build doubled).kind? ⟨1⟩ = some (.primitive (.merge .add)) ∧
        ∃ o x size gain bias, s.workspace.views.lookup e.invocation = some [.full o] ∧
          s.network.object o = .ok x ∧ x.kind = .neurons ⟨size, .rectified 1, gain, bias⟩ := by
  have hok : (do
      let _ ← convert (build doubled) ⟨2⟩ rectifying Registry.standard
      pure () : Outcome _).toOption = some () := by decide +kernel
  have hmodel : (build doubled).model? ⟨2⟩ = some ⟨[⟨0⟩], [⟨1⟩], [⟨0⟩, ⟨1⟩], false⟩ := by cbv
  have htrace : (build doubled).trace [⟨1⟩, ⟨0⟩] = .ok [⟨⟨0⟩, 0, 0⟩, ⟨⟨1⟩, 0, 0⟩] := by cbv
  have hkind : (build doubled).kind? ⟨1⟩ = some (.primitive (.merge .add)) := by cbv
  obtain ⟨s, hs, -⟩ := bind_eq_ok.1 (toOption_eq_some.1 hok)
  obtain ⟨m, order, entries, hm, ho, hdone, hrun, hrelay, -⟩ :=
    relays_follow_linear (reachable_build doubled) hs
  obtain rfl := Option.some.inj (hmodel.symm.trans hm)
  obtain rfl := Except.ok.inj (htrace.symm.trans ho)
  obtain ⟨e, he, hi⟩ : ∃ e ∈ entries, e.invocation = ⟨⟨1⟩, 0⟩ :=
    List.mem_map.1 (by rw [← converted, hdone]; simp [sources, Provenance.source])
  have hnative : e.wrapped = false := hrun.native rfl e he
  obtain ⟨dims, o, x, -, hv, hx, hx', -⟩ :=
    hrelay e he hnative (.merge .add) (by rw [hi]; exact hkind) (.merge .add)
  exact ⟨s, entries, hs, hrun, e, he, hi, hnative, hkind, o, x, _, _, _, hv, hx, hx'⟩

end Session
end Neuroform

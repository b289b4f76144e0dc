/-
  Neuroform — the rules of the standard registry.

  `Conversion` lists how primitive layers are converted: natively, or wrapped in
  a tensor node.  Each of these ways builds a part of the network with known
  parameters for an invocation (`Conversion.builds`).  What the standard
  registry binds to a layer is one of them for that layer, or the walk through
  a model (`binding_standard`).
-/
import Neuroform.Proofs.Binding
import Neuroform.Proofs.Conversion.Frame

namespace Neuroform

variable {α : Type} [Scalar α]

namespace Rule

open Workspace

variable {i : InvocationId} {w : Workspace α}

/-- The kernel is trained on the connection and the bias in the target. -/
theorem builds_convertDense {d : Dense α} : Builds i d.parameterCount w (convertDense d i) := by
  have hkernel : d.kernel.transpose.cells.size = d.kernel.cells.size := by
    rw [Table.size_cells, Table.size_cells, Nat.mul_comm]
    rfl
  refine (builds_buildTarget.add fun _ _ _ => builds_wireInput.only fun _ _ _ => .pure).of_eq ?_
  simp only [if_true, Transform.parameterCount, hkernel, biasCount, Dense.parameterCount]
  omega

theorem builds_convertBatchNorm {axes : List Int} {scale offset : List α} :
    Builds i 0 w (convertBatchNorm axes scale offset i) := by
  have hspread : ∀ {values : List α} {dims : List Nat} {axis : Nat},
      Sighted (spread values dims axis) := by
    intro values dims axis
    refine sighted_bind sighted_requireRoom fun _ _ => ?_
    split <;> simp
  exact .get_bind (.lift_bind (fun _ => sighted_inputDims) fun dims _ =>
    .lift_bind (fun _ => sighted_orFault) fun _ _ =>
    .lift_bind (fun _ => sighted_axisIndex) fun axis _ =>
    .lift_bind (fun _ => sighted_require rfl) fun _ _ => .lift_bind (fun _ => hspread) fun _ _ =>
    .lift_bind (fun _ => hspread) fun _ _ => builds_bareTarget.bind fun output w _ =>
    .get_bind (.lift_bind (fun _ => sighted_label) fun label _ =>
    builds_node.bind fun _ _ _ =>
    builds_connect_frozen.bind fun _ _ _ => builds_wireInput_frozen.bind fun _ _ _ => .pure))

theorem builds_convertInput : Builds i 0 w (convertInput i) := by
  refine .get_bind (.lift_bind (fun _ => sighted_layer) fun layer _ =>
    .lift_bind (fun _ => sighted_layerInvocation) fun inv _ => ?_)
  split
  · exact .lift_bind (fun _ => sighted_outputDims) fun _ _ =>
      .lift_bind (fun _ => sighted_product) fun _ _ =>
      .lift_bind (fun _ => sighted_requireRoom) fun _ _ =>
      builds_node.bind fun _ _ _ => .pure
  · exact .lift (·.inputView)

theorem builds_convertNonlinearity {n : Nonlinearity α} : Builds i 0 w (convertNonlinearity n i) :=
  builds_bareTarget.bind fun _ _ _ => builds_wireInput_frozen.bind fun _ _ _ => .pure

theorem builds_convertMerge {m : Merge} : Builds i 0 w (convertMerge m i) :=
  .get_bind (.lift_bind (fun _ => sighted_invocation) fun _ _ =>
    builds_bareTarget.bind fun _ _ _ =>
    (Builds.forIn fun _ _ _ => builds_wireInput_frozen.bind fun _ _ _ => .pure).bind
      fun _ _ _ => .pure)

theorem builds_convertConcatenate {c : Concatenate} : Builds i 0 w (convertConcatenate c i) := by
  refine .get_bind (.lift_bind (fun _ => sighted_outputDims) fun dims _ =>
    .lift_bind (fun _ => ?_) fun axis _ => builds_bareTarget.bind fun output w _ =>
    .get_bind (.lift_bind (fun _ => sighted_allInputDims) fun _ _ =>
    (Builds.forIn fun _ _ w => .lift_bind (fun _ => sighted_orFault) fun _ _ =>
      .lift_bind (fun _ => sighted_selectBox) fun _ _ =>
      .lift_bind (fun _ => sighted_slice) fun _ _ =>
        builds_wireInput_frozen.bind fun _ _ _ => .pure).bind fun _ _ _ => .pure))
  exact sighted_bind sighted_axisIndex fun _ _ => sighted_bind (sighted_require rfl)
    fun _ _ => sighted_pure

theorem builds_convertPassing : Builds i 0 w (convertPassing i) := .get_bind (.lift (·.inputView))

theorem builds_convertUpSampling {u : UpSampling} : Builds i 0 w (convertUpSampling u i) := by
  refine .get_bind (.lift_bind (fun _ => sighted_inputDims) fun dims _ =>
    .lift_bind (fun _ => ?_) fun places _ => builds_bareTarget.bind fun output w _ =>
    .get_bind (.lift_bind (·.inputView) fun _ _ => .lift_bind (fun _ => sighted_slice) fun _ _ =>
    builds_connect_frozen.bind fun _ _ _ => .pure))
  exact sighted_bind (sighted_requireSpatial rfl) fun _ _ => sighted_bind sighted_requireRoom
    fun _ _ => sighted_bind sighted_requireRoom fun _ _ => sighted_pure

theorem builds_convertZeroPadding {z : ZeroPadding} : Builds i 0 w (convertZeroPadding z i) := by
  refine .get_bind (.lift_bind (fun _ => sighted_outputDims) fun dims _ =>
    .lift_bind (fun _ => ?_) fun places _ => builds_bareTarget.bind fun output w _ =>
    .lift_bind (fun _ => sighted_slice) fun _ _ => builds_wireInput_frozen.bind fun _ _ _ => .pure)
  refine sighted_bind (sighted_requireSpatial rfl) fun _ _ => sighted_bind (sighted_mapM ?_)
    fun _ _ => sighted_selectBox
  exact fun _ _ => sighted_bind sighted_ofNat fun _ _ => sighted_bind (sighted_require rfl)
    fun _ _ => sighted_pure

theorem builds_wireBiases {c : Conv α} {output : View} {bias : List α} :
    Builds i bias.length w (wireBiases c i output bias) :=
  .get_bind (.lift_bind (fun _ => sighted_label) fun _ _ =>
    .lift_bind (fun _ => sighted_outputDims) fun _ _ => builds_node.bind fun _ _ _ =>
    builds_node.bind fun _ _ _ =>
    (builds_connect.of_eq (by simp [Transform.parameterCount, Table.ofColumn])).only
      fun _ _ _ => .lift_bind (fun _ => sighted_requireRoom) fun _ _ =>
        builds_connect_frozen.bind fun _ _ _ => .pure)

/-- The kernel is trained on the connection and the bias in front of the
    relay. -/
theorem builds_convertConv {c : Conv α} : Builds i c.parameterCount w (convertConv c i) := by
  have hwire : ∀ {output : View} {w : Workspace α}, Builds i c.kernel.size w (do
      let dims ← (← get).inputDims i
      let _ ← wireInput i output 0 true (.convolution (← convTransform c dims))
      return output) := .get_bind (.lift_bind (fun _ => sighted_inputDims) fun _ _ =>
      .lift_bind (fun _ => sighted_makeConvolution) fun t ht =>
      (builds_wireInput.only fun _ _ _ => .pure).of_eq (by
        obtain ⟨_, -, ht⟩ := bind_eq_ok.1 ht
        obtain ⟨_, -, ht⟩ := bind_eq_ok.1 ht
        obtain rfl := pure_eq_ok.1 ht
        rfl))
  refine builds_bareTarget.bind fun output w _ => ?_
  unfold Conv.parameterCount
  cases c.bias with
  | none => exact hwire
  | some bias => exact (builds_wireBiases.add fun _ _ _ => hwire).of_eq (Nat.add_comm _ _)

theorem builds_convertPool {p : Pool} : Builds i 0 w (convertPool p i) := by
  refine .get_bind (.lift_bind (fun _ => sighted_inputDims) fun dims _ =>
    .lift_bind (fun _ => ?_) fun t _ => builds_bareTarget.bind fun output w _ =>
    builds_wireInput_frozen.bind fun _ _ _ => .pure)
  exact sighted_bind sighted_orFault fun _ _ => sighted_bind sighted_product fun _ _ =>
    sighted_bind (sighted_require rfl) fun _ _ => sighted_bind sighted_requireRoom fun _ _ =>
    sighted_bind sighted_requireRoom fun _ _ => sighted_makeConvolution

theorem sighted_inputParts {output : View} {shapes : List (List Nat)} :
    Sighted (inputParts output shapes) := by
  have hparts : ∀ (shapes : List (List Nat)) (start : Nat),
      Sighted (inputParts.parts output start shapes) := by
    intro shapes
    induction shapes with
    | nil => exact fun _ => sighted_ok
    | cons shape rest ih =>
      intro start
      rw [inputParts.parts]
      exact sighted_bind sighted_requireRoom fun _ _ => sighted_bind sighted_slice fun _ _ =>
        sighted_bind (ih _) fun _ _ => sighted_pure
  unfold inputParts
  split
  · exact sighted_ok
  · exact hparts _ _

/-- The tensor node of a layer has the parameters of the layer, if that is
    trained. -/
theorem builds_convertWrapped {p : Primitive α} {layer : Layer α}
    (hl : w.graph.layer i.layer = .ok layer) :
    Builds i (if layer.trainable then p.operation.parameterCount else 0) w (convertWrapped p i) := by
  refine .get_bind (.lift_bind (fun _ => sighted_layer) fun layer' hl' =>
    .lift_bind (fun _ => sighted_layerInvocation) fun inv _ =>
    .lift_bind (fun _ => sighted_require rfl) fun _ _ =>
    .lift_bind (fun _ => sighted_allInputDims) fun shapes _ =>
    .lift_bind (fun _ => sighted_outputDims) fun dims _ => .lift_bind (fun _ => ?_) fun _ _ =>
    .lift_bind (fun _ => sighted_product) fun _ _ => .lift_bind (fun _ => sighted_label) fun _ _ =>
    (builds_object.of_eq ?_).only fun _ _ _ => .lift_bind (fun _ => sighted_inputParts) fun _ _ =>
    (Builds.forIn fun _ _ _ => builds_wireInput_frozen.bind fun _ _ _ => .pure).bind
      fun _ _ _ => .pure)
  · refine sighted_bind (sighted_mapM fun _ _ => sighted_product) fun sizes _ => ?_
    split
    · exact sighted_pure
    · exact sighted_bind sighted_ofNat fun _ _ => sighted_pure
  · obtain rfl := Except.ok.inj (hl.symm.trans hl')
    rfl

/-! ## Ways of conversion -/

/-- How the invocations of a primitive layer are converted: wrapped as they are
    or natively. -/
inductive Conversion : Bool → Primitive α → (InvocationId → Step (Workspace α) View) → Prop where
  | wrapped (p : Primitive α) : Conversion true p (convertWrapped p)
  | input (l : InputLayer) : Conversion false (.input l) convertInput
  | dense (d : Dense α) : Conversion false (.dense d) (convertDense d)
  | conv (c : Conv α) : Conversion false (.conv c) (convertConv c)
  | pool (p : Pool) : Conversion false (.pool p) (convertPool p)
  | activation (a : ActivationLayer) :
    Conversion false (.activation a) (convertNonlinearity (.activation a.activation))
  | merge (m : Merge) : Conversion false (.merge m) (convertMerge m)
  | batchNorm {n : BatchNorm α} {scale offset : List α} (affine : n.affine = .ok (scale, offset)) :
    Conversion false (.batchNorm n) (convertBatchNorm n.axis scale offset)
  | concatenate (c : Concatenate) : Conversion false (.concatenate c) (convertConcatenate c)
  | flatten : Conversion false .flatten convertPassing
  | reshape (r : Reshape) : Conversion false (.reshape r) convertPassing
  | relu (r : Relu α) :
    Conversion false (.relu r) (convertNonlinearity (rectifier r.negativeSlope))
  | leakyRelu (r : LeakyRelu α) :
    Conversion false (.leakyRelu r) (convertNonlinearity (.neuron (.leaky r.alpha 1)))
  | upSampling (u : UpSampling) : Conversion false (.upSampling u) (convertUpSampling u)
  | zeroPadding (z : ZeroPadding) : Conversion false (.zeroPadding z) (convertZeroPadding z)

/-- The number of trained parameters that converting an invocation adds.  Only
    wrapped layers can be fixed; a native normalization always is. -/
def convertedCount (wrapped : Bool) (p : Primitive α) (trainable : Bool) : Nat :=
  match wrapped, p with
  | true, p => if trainable then p.operation.parameterCount else 0
  | false, .batchNorm _ => 0
  | false, p => p.operation.parameterCount

/-- **What a conversion of an invocation builds**: a part of the network with
    the parameters of the layer. -/
theorem Conversion.builds {wrapped : Bool} {p : Primitive α}
    {c : InvocationId → Step (Workspace α) View} (h : Conversion wrapped p c) {layer : Layer α}
    (hl : w.graph.layer i.layer = .ok layer) :
    Builds i (convertedCount wrapped p layer.trainable) w (c i) := by
  cases h with
  | wrapped p => exact builds_convertWrapped hl
  | input => exact builds_convertInput
  | dense => exact builds_convertDense
  | conv => exact builds_convertConv
  | pool => exact builds_convertPool
  | activation => exact builds_convertNonlinearity
  | merge => exact builds_convertMerge
  | batchNorm => exact builds_convertBatchNorm
  | concatenate => exact builds_convertConcatenate
  | flatten => exact builds_convertPassing
  | reshape => exact builds_convertPassing
  | relu => exact builds_convertNonlinearity
  | leakyRelu => exact builds_convertNonlinearity
  | upSampling => exact builds_convertUpSampling
  | zeroPadding => exact builds_convertZeroPadding

/-! ## Builders -/

/-- The native conversions that share weights among invocations. -/
def weighs : Bool → Primitive α → Bool
  | false, .dense _ | false, .conv _ => true
  | _, _ => false

/-- What is checked of a layer before it is converted natively. -/
def Supports (g : Graph α) (layer : Layer α) (s : Settings α) : Primitive α → Prop
  | .dense _ => ∀ inv ∈ layer.invocations, ∀ t ∈ inv.inputs.head?, ∀ x, g.tensor t = .ok x →
    x.shape.rank = 2
  | .batchNorm _ => s.inferenceOnly = true
  | .relu r => r.maxValue = none ∧ r.threshold == 0
  | .conv c => c.dilationRate.map Word.signed = List.replicate c.rank 1
  | .pool p => (p.kind = .maximum → s.maxToAverage = true) ∧
    ∀ size strides padding, p.extent = .windows size strides padding → padding = .valid
  | .upSampling u => u.rank = 2 → u.interpolation = .nearest
  | _ => True

omit [Scalar α] in
theorem convert_simple_eq_ok {l : LayerId} {c : InvocationId → Step (Workspace α) View} {i : Nat}
    {v : View} {w w' : Workspace α} : ((simple l c).convert i).exec w = (.ok (some v), w') ↔
      (c ⟨l, i⟩).exec w = (.ok v, w') := by
  constructor
  · intro h
    obtain ⟨v', hran, hv⟩ := Step.exec_map_eq_ok.1 h
    obtain rfl : v' = v := Option.some.inj hv
    exact hran
  · exact fun h => Step.exec_map_eq_ok.2 ⟨v, h, rfl⟩

/-- A rule for a primitive layer, by how it converts.  Which layers it takes
    does not depend on firing rates, and those that a native one takes are
    supported. -/
def Converts (l : LayerId) (layer : Layer α) (wrapped : Bool) (r : Rule α) : Prop :=
  ∃ p c, layer.kind = .primitive p ∧ Conversion wrapped p c ∧ r.layer = l ∧
    r.convert = (simple l c).convert ∧
    (∀ g s scale, r.eligible g layer { s with scale } = r.eligible g layer s) ∧
    (wrapped = false → ∀ g s, r.convertible g layer s = .ok () → Supports g layer s p) ∧
    r.hasWeights = weighs wrapped p

theorem checkOptions_eq_ok {layer : Layer α} (trainingOnly : Bool)
    {defaults : List (OptionDefault α)} : checkOptions layer trainingOnly defaults = .ok () ↔
      ∀ d ∈ defaults, ((layer.kind.option d.name).getD .none).agrees d.value = true := by
  unfold checkOptions
  split
  case h_1 hnone => exact iff_of_true rfl fun d hd => by simpa using List.find?_eq_none.1 hnone d hd
  case h_2 d hsome =>
    refine iff_of_false (by simp) fun h => ?_
    have hchanged := List.find?_some hsome
    simp [h d (List.mem_of_find?_eq_some hsome)] at hchanged

theorem convertible_eq_ok {r : Rule α} {g : Graph α} {layer : Layer α} {s : Settings α} :
    r.convertible g layer s = .ok () ↔ r.eligible g layer s = .ok () ∧
      (∀ d ∈ r.fixedOptions, ((layer.kind.option d.name).getD .none).agrees d.value = true) ∧
      (s.inferenceOnly = false → ∀ d ∈ r.fixedInTraining,
        ((layer.kind.option d.name).getD .none).agrees d.value = true) := by
  rw [← checkOptions_eq_ok false, ← checkOptions_eq_ok true]
  unfold convertible
  cases r.eligible g layer s with
  | error e => exact iff_of_false nofun nofun
  | ok _ =>
    cases checkOptions layer false r.fixedOptions with
    | error e => exact iff_of_false nofun nofun
    | ok _ => cases hs : s.inferenceOnly <;> simp [bind, Except.bind, pure, Except.pure]

/-- A builder gives rules for primitive layers, or refuses the layers. -/
def Binding (wrapped : Bool) (b : RuleBuilder α) : Prop :=
  ∀ l layer, Sighted (b l layer) ∧ ∀ r, b l layer = .ok r → Converts l layer wrapped r

/-- Everything but the conversion of an invocation may be chosen freely. -/
theorem binding_ok {l : LayerId} {layer : Layer α} {wrapped : Bool} {p : Primitive α} {r : Rule α}
    {c : InvocationId → Step (Workspace α) View} (hk : layer.kind = .primitive p)
    (hc : Conversion wrapped p c) (hl : r.layer = l) (hr : r.convert = (simple l c).convert)
    (hw : r.hasWeights = weighs wrapped p)
    (he : ∀ g s scale, r.eligible g layer { s with scale } = r.eligible g layer s)
    (hn : wrapped = false → ∀ g s, r.convertible g layer s = .ok () → Supports g layer s p) :
    Sighted (.ok r : Outcome (Rule α)) ∧
      ∀ r', (.ok r : Outcome (Rule α)) = .ok r' → Converts l layer wrapped r' := by
  refine ⟨sighted_ok, ?_⟩
  rintro _ ⟨⟩
  exact ⟨p, c, hk, hc, hl, hr, he, hn, hw⟩

theorem binding_mismatch {expected : String} {l : LayerId} {layer : Layer α} {wrapped : Bool} :
    Sighted (ruleMismatch expected layer : Outcome (Rule α)) ∧
      ∀ r, (ruleMismatch expected layer : Outcome (Rule α)) = .ok r →
        Converts l layer wrapped r :=
  ⟨sighted_refuse.2 rfl, fun r h => by simp [ruleMismatch] at h⟩

theorem sighted_affine {n : BatchNorm α} : Sighted n.affine := by
  have hstretch : ∀ {f : α → α → α} {xs ys : List α}, Sighted (stretchWith f xs ys) := by
    intro f xs ys
    unfold stretchWith
    split
    · exact sighted_ok
    · split <;> simp
  have hscale : Sighted n.scale := by
    unfold BatchNorm.scale
    split
    · exact hstretch
    · exact sighted_ok
  refine sighted_bind hscale fun _ _ => sighted_bind hstretch fun _ _ => ?_
  split
  · exact sighted_bind hstretch fun _ _ => sighted_pure
  · exact sighted_pure

omit [Scalar α] in
/-- Dense layers are applied to samples of one axis. -/
theorem denseEligible_eq_ok {g : Graph α} {layer : Layer α} (h : denseEligible g layer = .ok ()) :
    ∀ inv ∈ layer.invocations, ∀ t ∈ inv.inputs.head?, ∀ x, g.tensor t = .ok x →
      x.shape.rank = 2 := by
  unfold denseEligible at h
  simp only [← Array.forIn_toList] at h
  intro inv hinv
  rw [← Array.mem_toList_iff] at hinv
  generalize layer.invocations.toList = invs at h hinv
  induction invs with
  | nil => simp at hinv
  | cons first invs ih =>
    rw [List.forIn_cons] at h
    rcases ht : first.inputs.head? with _ | t
    · rw [ht] at h
      rcases List.mem_cons.1 hinv with rfl | hinv
      · simp [ht]
      · exact ih h hinv
    rw [ht] at h
    rcases hx : g.tensor t with e | x
    · simp only [hx] at h
      rcases List.mem_cons.1 hinv with rfl | hinv
      · rintro _ ht' x hx'
        obtain rfl := Option.some.inj (ht.symm.trans ht')
        exact absurd (hx.symm.trans hx') nofun
      · exact ih h hinv
    simp only [hx] at h
    split at h
    · cases h
    · rcases List.mem_cons.1 hinv with rfl | hinv
      · rintro _ ht' x' hx'
        obtain rfl := Option.some.inj (ht.symm.trans ht')
        obtain rfl := Except.ok.inj (hx.symm.trans hx')
        exact not_not.1 ‹_›
      · exact ih h hinv

theorem binding_dense : Binding false (dense : RuleBuilder α) := by
  intro l layer
  unfold dense
  split
  · exact binding_ok ‹_› (.dense _) rfl rfl rfl (fun _ _ _ => rfl) fun _ _ _ h =>
      denseEligible_eq_ok (convertible_eq_ok.1 h).1
  · exact binding_mismatch

theorem binding_input : Binding false (input : RuleBuilder α) := by
  intro l layer
  unfold input
  split
  · exact binding_ok ‹_› (.input _) rfl rfl rfl (fun _ _ _ => rfl) fun _ _ _ _ => trivial
  · exact binding_mismatch

theorem binding_activation : Binding false (activation : RuleBuilder α) := by
  intro l layer
  unfold activation
  split
  · exact binding_ok ‹_› (.activation _) rfl rfl rfl (fun _ _ _ => rfl) fun _ _ _ _ => trivial
  · exact binding_mismatch

theorem binding_relu : Binding false (relu : RuleBuilder α) := by
  intro l layer
  unfold relu
  split
  case h_1 op hk =>
    refine binding_ok hk (.relu _) rfl rfl rfl (fun _ _ _ => rfl) fun _ g s h => ?_
    obtain ⟨-, hoptions, -⟩ := convertible_eq_ok.1 h
    have hmax := hoptions _ (.head _)
    have hthreshold := hoptions _ (.tail _ (.head _))
    rw [hk] at hmax hthreshold
    change (OptionValue.float? op.maxValue).agrees .none = true at hmax
    refine ⟨?_, hthreshold⟩
    cases hm : op.maxValue with
    | none => rfl
    | some x => rw [hm] at hmax; cases hmax
  · exact binding_mismatch

theorem binding_leakyRelu : Binding false (leakyRelu : RuleBuilder α) := by
  intro l layer
  unfold leakyRelu
  split
  · exact binding_ok ‹_› (.leakyRelu _) rfl rfl rfl (fun _ _ _ => rfl) fun _ _ _ _ => trivial
  · exact binding_mismatch

theorem binding_merge : Binding false (merge : RuleBuilder α) := by
  intro l layer
  unfold merge
  split
  · exact binding_ok ‹_› (.merge _) rfl rfl rfl (fun _ _ _ => rfl) fun _ _ _ _ => trivial
  · exact binding_mismatch

theorem binding_concatenate : Binding false (concatenate : RuleBuilder α) := by
  intro l layer
  unfold concatenate
  split
  · exact binding_ok ‹_› (.concatenate _) rfl rfl rfl (fun _ _ _ => rfl) fun _ _ _ _ => trivial
  · exact binding_mismatch

/-- The rule for up-sampling looks at the interpolation of two axes, and of no
    other number. -/
theorem convertible_upSampling {u : UpSampling} {l : LayerId} {layer : Layer α} {r : Rule α}
    (hk : layer.kind = .primitive (.upSampling u)) (hr : upSampling l layer = .ok r) (g : Graph α)
    (s : Settings α) :
    r.convertible g layer s = .ok () ↔ (u.rank = 2 → u.interpolation = .nearest) := by
  have hagrees : (OptionValue.str u.interpolation.name : OptionValue α).agrees (.str "nearest") =
      true ↔ u.interpolation = .nearest := by
    cases u.interpolation
    · exact iff_of_true rfl rfl
    · exact iff_of_false nofun nofun
  have hoption : layer.kind.option "interpolation" =
      if u.rank = 2 then some (OptionValue.str u.interpolation.name) else none := by
    rw [hk]
    rfl
  unfold upSampling at hr
  split at hr
  case h_1 op hop =>
    obtain rfl : u = op := by simpa using hk.symm.trans hop
    obtain rfl := Except.ok.inj hr
    rw [convertible_eq_ok, ← hagrees]
    by_cases hrank : u.rank = 2
    · simp [simple, hrank, hoption]
    · simp [simple, hrank]
  case h_2 hother => exact absurd hk (hother u)

theorem binding_upSampling : Binding false (upSampling : RuleBuilder α) := by
  intro l layer
  unfold upSampling
  split
  case h_1 op hk =>
    refine binding_ok hk (.upSampling _) rfl rfl rfl (fun _ _ _ => rfl) fun _ g s h => ?_
    refine (convertible_upSampling (l := l) hk ?_ g s).1 h
    unfold upSampling
    rw [hk]
  · exact binding_mismatch

theorem binding_zeroPadding : Binding false (zeroPadding : RuleBuilder α) := by
  intro l layer
  unfold zeroPadding
  split
  · exact binding_ok ‹_› (.zeroPadding _) rfl rfl rfl (fun _ _ _ => rfl) fun _ _ _ _ => trivial
  · exact binding_mismatch

theorem binding_conv : Binding false (conv : RuleBuilder α) := by
  intro l layer
  unfold conv
  split
  case h_1 op hk =>
    refine binding_ok hk (.conv _) rfl rfl rfl (fun _ _ _ => rfl) fun _ g s h => ?_
    obtain ⟨-, hoptions, -⟩ := convertible_eq_ok.1 h
    have hdilation := hoptions _ (.head _)
    rw [hk] at hdilation
    change (op.dilationRate.map Word.signed == (List.replicate op.rank 1).map Word.signed) = true
      at hdilation
    exact (beq_iff_eq.1 hdilation).trans List.map_replicate
  · exact binding_mismatch

theorem binding_pool : Binding false (pool : RuleBuilder α) := by
  intro l layer
  unfold pool
  split
  case h_1 op hk =>
    refine binding_ok hk (.pool _) rfl rfl rfl (fun _ _ _ => rfl) fun _ g s h => ?_
    obtain ⟨heligible, hoptions, -⟩ := convertible_eq_ok.1 h
    change poolEligible op layer s = .ok () at heligible
    refine ⟨fun hmax => ?_, fun size strides padding hextent => ?_⟩
    · unfold poolEligible at heligible
      by_contra hs
      rw [if_pos ⟨hmax, by simpa using hs⟩] at heligible
      cases heligible
    · have hvalid := hoptions ⟨"padding", .str "valid"⟩ (by simp [Pool.isGlobal, hextent])
      rw [hk] at hvalid
      change (op.option "padding" |>.getD .none).agrees _ = true at hvalid
      simp only [Pool.option, hextent] at hvalid
      cases padding with
      | valid => rfl
      | same => cases hvalid
  · exact binding_mismatch

theorem binding_passing : Binding false (passing : RuleBuilder α) := by
  intro l layer
  unfold passing
  split
  · exact binding_ok ‹_› .flatten rfl rfl rfl (fun _ _ _ => rfl) fun _ _ _ _ => trivial
  · exact binding_ok ‹_› (.reshape _) rfl rfl rfl (fun _ _ _ => rfl) fun _ _ _ _ => trivial
  · exact binding_mismatch

theorem binding_batchNorm : Binding false (batchNorm : RuleBuilder α) := by
  intro l layer
  unfold batchNorm
  split
  case h_1 op hk =>
    refine ⟨sighted_bind sighted_affine fun _ _ => sighted_pure, fun r h => ?_⟩
    obtain ⟨⟨scale, offset⟩, haffine, h⟩ := bind_eq_ok.1 h
    obtain rfl := pure_eq_ok.1 h
    refine ⟨_, _, hk, .batchNorm haffine, rfl, rfl, fun _ _ _ => rfl, fun _ g s h => ?_, rfl⟩
    have he : batchNormEligible op layer s = .ok () := (convertible_eq_ok.1 h).1
    unfold batchNormEligible at he
    change s.inferenceOnly = true
    by_contra hs
    rw [if_pos (by simpa using hs)] at he
    cases he
  · exact binding_mismatch

theorem binding_wrapping : Binding true (wrapping : RuleBuilder α) := by
  intro l layer
  unfold wrapping
  split
  · exact binding_ok ‹_› (.wrapped _) rfl rfl rfl (fun _ _ _ => rfl) nofun
  · exact ⟨sighted_refuse.2 rfl, fun r h => by simp at h⟩

end Rule

/-! ## The standard registry -/

/-- A converter for a layer: a rule for it, or the walk through it if it is a
    model, which is never wrapped. -/
def Converter.Converts (l : LayerId) (layer : Layer α) (wrapped : Bool) : Converter α → Prop
  | rule r => r.Converts l layer wrapped
  | model l' => l' = l ∧ wrapped = false ∧ layer.kind.isModel

namespace Registry

/-- A builder gives converters for layers, or refuses them. -/
def Binding (wrapped : Bool) (b : ConverterBuilder α) : Prop :=
  ∀ l layer, Sighted (b l layer) ∧ ∀ c, b l layer = .ok c → c.Converts l layer wrapped

theorem binding_converter {wrapped : Bool} {b : RuleBuilder α} (h : Rule.Binding wrapped b) :
    Binding wrapped b.converter := by
  intro l layer
  refine ⟨sighted_bind (h l layer).1 fun _ _ => sighted_pure, fun c hc => ?_⟩
  obtain ⟨r, hr, hc⟩ := bind_eq_ok.1 hc
  obtain rfl := pure_eq_ok.1 hc
  exact (h l layer).2 r hr

theorem binding_model : Binding false (model : ConverterBuilder α) := by
  intro l layer
  unfold model
  split
  case isTrue h => exact ⟨sighted_ok, by rintro _ ⟨⟩; exact ⟨rfl, rfl, h⟩⟩
  case isFalse => exact ⟨sighted_refuse.2 rfl, fun c h => by simp [ruleMismatch] at h⟩

theorem binding_ofRank (rank : Nat) :
    ∀ e ∈ (ofRank rank : List (String × RuleBuilder α)), Rule.Binding false e.2 := by
  simp [ofRank, Rule.binding_conv, Rule.binding_pool, Rule.binding_upSampling,
    Rule.binding_zeroPadding]

theorem binding_primitiveRules :
    ∀ e ∈ (primitiveRules : List (String × RuleBuilder α)), Rule.Binding false e.2 := by
  intro e he
  simp only [primitiveRules, List.mem_append] at he
  rcases he with ((he | he) | he) | he
  · revert e
    simp [Rule.binding_input, Rule.binding_dense, Rule.binding_activation, Rule.binding_relu,
      Rule.binding_leakyRelu, Rule.binding_merge, Rule.binding_batchNorm,
      Rule.binding_concatenate, Rule.binding_passing]
  · exact binding_ofRank 1 e he
  · exact binding_ofRank 2 e he
  · exact binding_ofRank 3 e he

/-- **The standard registry** binds native rules, and the walk through models. -/
theorem binding_standard {name : String} {b : ConverterBuilder α}
    (hb : (standard : Registry α).lookup name = some b) : Binding false b := by
  rcases List.mem_append.1 (mem_of_lookup hb) with hmem | hmem
  · obtain ⟨⟨name, b'⟩, hb', he⟩ := List.mem_map.1 hmem
    cases he
    exact binding_converter (binding_primitiveRules _ hb')
  · simp only [List.mem_cons, Prod.mk.injEq, List.not_mem_nil, or_false] at hmem
    rcases hmem with ⟨-, rfl⟩ | ⟨-, rfl⟩ <;> exact binding_model

/-- The fallback of the standard registry wraps layers. -/
theorem binding_fallback {b : ConverterBuilder α}
    (hb : (standard : Registry α).fallback = some b) : Binding true b := by
  obtain rfl := Option.some.inj hb
  exact binding_converter Rule.binding_wrapping

end Registry
end Neuroform

/-
  Neuroform — what a conversion of an invocation attaches to a network.

  A rule adds objects behind those that there are (`Workspace.Attaches`).  The
  first of them is the target: it may read all others, and none of them reads
  it; what is behind it reads what is older.  Among them is a tensor node for
  every warning that an activation is wrapped, and one for the layer if that is
  wrapped itself.
-/
import Neuroform.Proofs.Conversion.Drawing
import Neuroform.Proofs.Conversion.Rules

namespace Neuroform

variable {α : Type} {β γ δ : Type}

/-! ## Tensor nodes and warnings -/

namespace ObjectKind

/-- The layer that a tensor node wraps. -/
def layer? : ObjectKind α → Option (WrappedLayer α)
  | tensorNode ⟨_, _, .layer l⟩ => some l
  | _ => none

/-- Whether an object is a tensor node for an activation. -/
def isActivation : ObjectKind α → Bool
  | tensorNode ⟨_, _, .activation _⟩ => true
  | _ => false

end ObjectKind

/-- Whether a warning says that a layer is wrapped. -/
def warnsOfLayer (warning : String) : Bool :=
  "Falling back to tensor node.".toList.isSuffixOf warning.toList

/-- Whether a warning says that an activation is wrapped. -/
def warnsOfActivation (warning : String) : Bool :=
  "does not have a native equivalent; falling back to a tensor node".toList.isSuffixOf
    warning.toList

section
variable {warning : String}

theorem getLast?_of_suffix {xs ys : List Char} (h : xs.isSuffixOf ys = true) (hx : xs ≠ []) :
    ys.getLast? = xs.getLast? := by
  obtain ⟨zs, rfl⟩ := List.isSuffixOf_iff_suffix.1 h
  exact List.getLast?_append_of_ne_nil zs hx

theorem getLast?_of_warnsOfLayer (h : warnsOfLayer warning = true) :
    warning.toList.getLast? = some '.' := by
  rw [warnsOfLayer] at h
  rw [getLast?_of_suffix h (by simp)]
  simp

theorem getLast?_of_warnsOfActivation (h : warnsOfActivation warning = true) :
    warning.toList.getLast? = some 'e' := by
  rw [warnsOfActivation] at h
  rw [getLast?_of_suffix h (by simp)]
  simp

/-- A warning of neither kind ends in neither way. -/
theorem warns_neither {c : Char} (h : warning.toList.getLast? = some c) (hl : c ≠ '.')
    (ha : c ≠ 'e') : warnsOfLayer warning = false ∧ warnsOfActivation warning = false := by
  constructor
  · refine Bool.eq_false_iff.2 fun h' => hl ?_
    exact Option.some.inj (h.symm.trans (getLast?_of_warnsOfLayer h'))
  · refine Bool.eq_false_iff.2 fun h' => ha ?_
    exact Option.some.inj (h.symm.trans (getLast?_of_warnsOfActivation h'))
end

/-- Whatever the reason is for which a layer is wrapped, its warning is one of a
    layer only. -/
theorem warns_fallback (reason : String) :
    warnsOfLayer s!"{reason}. Falling back to tensor node." = true ∧
      warnsOfActivation s!"{reason}. Falling back to tensor node." = false := by
  have htext : (s!"{reason}. Falling back to tensor node.").toList =
      reason.toList ++ ". ".toList ++ "Falling back to tensor node.".toList := by
    simp [toString]
  have hlayer : warnsOfLayer s!"{reason}. Falling back to tensor node." = true := by
    rw [warnsOfLayer, htext]
    exact List.isSuffixOf_iff_suffix.2 (List.suffix_append _ _)
  refine ⟨hlayer, Bool.eq_false_iff.2 fun h => ?_⟩
  have hlast := (getLast?_of_warnsOfLayer hlayer).symm.trans (getLast?_of_warnsOfActivation h)
  exact absurd (Option.some.inj hlast) (by decide)

theorem warns_activation (name : String) :
    warnsOfLayer (s!"Activation type {name} does not have a native equivalent; " ++
        "falling back to a tensor node") = false ∧
      warnsOfActivation (s!"Activation type {name} does not have a native equivalent; " ++
        "falling back to a tensor node") = true := by
  have htext : (s!"Activation type {name} does not have a native equivalent; " ++
      "falling back to a tensor node").toList = ("Activation type " ++ name ++ " ").toList ++
      "does not have a native equivalent; falling back to a tensor node".toList := by
    simp [toString]
  have hactivation : warnsOfActivation
      (s!"Activation type {name} does not have a native equivalent; " ++
        "falling back to a tensor node") = true := by
    rw [warnsOfActivation, htext]
    exact List.isSuffixOf_iff_suffix.2 (List.suffix_append _ _)
  refine ⟨Bool.eq_false_iff.2 fun h => ?_, hactivation⟩
  have hlast := (getLast?_of_warnsOfLayer h).symm.trans (getLast?_of_warnsOfActivation hactivation)
  exact absurd (Option.some.inj hlast) (by decide)

theorem warns_scaling (name : String) :
    warnsOfLayer
        ("Firing rate scaling being applied to activation type that does not support amplitude " ++
          s!"({name}); this will change the output") = false ∧
      warnsOfActivation
        ("Firing rate scaling being applied to activation type that does not support amplitude " ++
          s!"({name}); this will change the output") = false := by
  refine warns_neither (c := 't') ?_ (by decide) (by decide)
  rw [String.toList_append, List.getLast?_append_of_ne_nil _ (by simp [toString])]
  change ("(" ++ name ++ "); this will change the output").toList.getLast? = some 't'
  rw [String.toList_append, List.getLast?_append_of_ne_nil _ (by simp)]
  simp

/-! ## What is attached -/

/-- A wire leads to the first of some objects from any other one, or to one
    behind the first from an earlier one. -/
structure Wire.Hangs (e : Wire α) (first : ObjectId) : Prop where
  behind : first.index ≤ e.post.object.index
  other : e.pre.object ≠ first
  forward : e.post.object = first ∨ e.pre.object.index < e.post.object.index

/-- A part of a network is attached at the place of its first object.  It wraps
    some layers, and activations as warnings say and as far as that is
    allowed. -/
structure Sketch.Attached (part : Sketch α) (first : ObjectId) (layers : List (WrappedLayer α))
    (allowed : Bool) (warnings : List String) : Prop where
  hangs : ∀ e ∈ part.wires, e.Hangs first
  layers : part.kinds.filterMap ObjectKind.layer? = layers
  activations : warnings.countP warnsOfActivation = part.kinds.countP ObjectKind.isActivation
  silent : warnings.countP warnsOfLayer = 0
  allowed : allowed = false → part.kinds.countP ObjectKind.isActivation = 0

namespace Sketch.Attached
variable {part part' : Sketch α} {first : ObjectId} {layers layers' : List (WrappedLayer α)}
  {allowed : Bool} {warnings warnings' : List String}

theorem nil : (⟨[], []⟩ : Sketch α).Attached first [] allowed [] :=
  ⟨by simp, rfl, rfl, rfl, fun _ => rfl⟩

theorem append (h : part.Attached first layers allowed warnings)
    (h' : part'.Attached first layers' allowed warnings') :
    (part ++ part').Attached first (layers ++ layers') allowed (warnings ++ warnings') where
  hangs e he := (List.mem_append.1 he).elim (h.hangs e) (h'.hangs e)
  layers := by rw [kinds_append, List.filterMap_append, h.layers, h'.layers]
  activations := by
    rw [kinds_append, List.countP_append, List.countP_append, h.activations, h'.activations]
  silent := by rw [List.countP_append, h.silent, h'.silent]
  allowed ha := by rw [kinds_append, List.countP_append, h.allowed ha, h'.allowed ha]

/-- An object that is no tensor node for an activation. -/
theorem object {kind : ObjectKind α} (h : kind.isActivation = false) :
    (⟨[kind], []⟩ : Sketch α).Attached first kind.layer?.toList allowed [] where
  hangs := by simp
  layers := by cases hk : kind.layer? <;> simp [hk]
  activations := by simp [h]
  silent := rfl
  allowed _ := by simp [h]

theorem wire {e : Wire α} (h : e.Hangs first) :
    (⟨[], [e]⟩ : Sketch α).Attached first [] allowed [] :=
  ⟨fun _ he => List.mem_singleton.1 he ▸ h, rfl, rfl, rfl, fun _ => rfl⟩

end Sketch.Attached

namespace Workspace

/-- All views show objects in front of one. -/
def ViewedBefore (w : Workspace α) (first : ObjectId) : Prop :=
  ∀ e ∈ w.views, ∀ v ∈ e.2, v.object.index < first.index

/-- A workspace comes from another one by adding to its network. -/
structure Extends (w w' : Workspace α) : Prop where
  framed : w.Framed w'
  next : w.next.index ≤ w'.next.index

theorem Extends.refl (w : Workspace α) : w.Extends w := ⟨.refl w, le_rfl⟩

theorem Extends.trans {w w' w'' : Workspace α} (h : w.Extends w') (h' : w'.Extends w'') :
    w.Extends w'' := ⟨h.framed.trans h'.framed, h.next.trans h'.next⟩

theorem Draws.extends {w w' : Workspace α} {part : Sketch α} (h : w.Draws part w') :
    w.Extends w' := ⟨h.framed, by simp [h.next]⟩

/-- A step that succeeds attaches a part and notes the warnings about it. -/
def Attaches (first : ObjectId) (layers : List (WrappedLayer α)) (w : Workspace α)
    (s : Step (Workspace α) β) (Q : β → Workspace α → Prop) : Prop :=
  s.Ensures w (fun _ => True) fun b w' => (∃ part warnings, w.Draws part w' ∧
    w'.warnings = w.warnings ++ warnings ∧
    part.Attached first layers w.settings.allowFallback warnings) ∧ Q b w'

namespace Attaches
variable {first : ObjectId} {layers layers' : List (WrappedLayer α)} {w : Workspace α}
  {s : Step (Workspace α) β} {f : β → Step (Workspace α) γ} {Q Q' : β → Workspace α → Prop}
  {R : γ → Workspace α → Prop}

theorem imp (h : Attaches first layers w s Q) (hq : ∀ b w', Q b w' → Q' b w') :
    Attaches first layers w s Q' :=
  Step.Ensures.imp h fun b w' h => ⟨h.1, hq b w' h.2⟩

/-- What is attached extends the workspace. -/
theorem extending (h : Attaches first layers w s Q) :
    Attaches first layers w s fun b w' => w.Extends w' ∧ Q b w' :=
  Step.Ensures.imp h fun _ _ h =>
    let ⟨_, _, hd, _⟩ := h.1
    ⟨h.1, hd.extends, h.2⟩

theorem pure {b : β} (h : Q b w) : Attaches first [] w (Pure.pure b) Q :=
  ⟨⟨⟨[], []⟩, [], .refl, by simp, .nil⟩, h⟩

theorem get_bind {f : Workspace α → Step (Workspace α) γ}
    (h : Attaches first layers w (f w) R) : Attaches first layers w (get >>= f) R :=
  Step.ensures_get_bind h

theorem lift_bind {o : Outcome β} (h : ∀ b, o = .ok b → Attaches first layers w (f b) R) :
    Attaches first layers w (liftM o >>= f) R :=
  Step.ensures_lift_bind (fun _ _ => trivial) h

/-- Parts that are attached one behind the other. -/
theorem add (hs : Attaches first layers w s Q)
    (hf : ∀ b w', w.Extends w' → Q b w' → Attaches first layers' w' (f b) R) :
    Attaches first (layers ++ layers') w (s >>= f) R := by
  refine Step.Ensures.bind hs ?_
  rintro b w' ⟨⟨part, warnings, hd, hw, ha⟩, hq⟩
  refine Step.Ensures.imp (hf b w' hd.extends hq) ?_
  rintro c w'' ⟨⟨part', warnings', hd', hw', ha'⟩, hr⟩
  rw [hd.framed.settings] at ha'
  exact ⟨⟨part ++ part', warnings ++ warnings', hd.trans hd', by rw [hw', hw, List.append_assoc],
    ha.append ha'⟩, hr⟩

/-- A step that wraps no layer, and what follows it. -/
theorem bind (hs : Attaches first [] w s Q)
    (hf : ∀ b w', w.Extends w' → Q b w' → Attaches first layers w' (f b) R) :
    Attaches first layers w (s >>= f) R := hs.add hf

/-- A loop of which no round wraps a layer. -/
theorem forIn {f : δ → γ → Step (Workspace α) (ForInStep γ)} : ∀ {xs : List δ} {c : γ}
    {w : Workspace α}, (∀ x ∈ xs, ∀ c w', w.Extends w' →
      Attaches first [] w' (f x c) fun _ _ => True) →
    Attaches first [] w (forIn xs c f) fun _ _ => True
  | [], _, _, _ => .pure trivial
  | x :: xs, c, w, h => by
    rw [List.forIn_cons]
    refine (h x (by simp) c w (.refl w)).bind fun r w' hw _ => ?_
    cases r with
    | done c => exact .pure trivial
    | yield c =>
      exact .forIn fun y hy c w'' hw' => h y (List.mem_cons_of_mem _ hy) c w'' (hw.trans hw')

end Attaches

/-! ## Operations -/

section
variable {first : ObjectId} {w : Workspace α}

/-- A step on the network notes no warnings. -/
theorem attaches_onNetwork {layers : List (WrappedLayer α)} {s : Step (Network α) β}
    {Q : β → Workspace α → Prop} (h : ∀ b w', (onNetwork s).exec w = (.ok b, w') →
      ∃ part, w.Draws part w' ∧ part.Attached first layers w.settings.allowFallback [] ∧ Q b w') :
    Attaches first layers w (onNetwork s) Q := by
  refine Step.ensures_of_eq_ok fun b w' he => ?_
  obtain ⟨part, hd, ha, hq⟩ := h b w' he
  obtain ⟨n, -, rfl⟩ := onNetwork_eq_ok.1 he
  exact ⟨⟨part, [], hd, (List.append_nil _).symm, ha⟩, hq⟩

theorem attaches_object {kind : ObjectKind α} (label : String) (h : kind.isActivation = false) :
    Attaches first kind.layer?.toList w (onNetwork (Network.addObject kind label))
      fun o w' => o = w.next ∧ w.next.index < w'.next.index := by
  refine attaches_onNetwork fun o w' he => ?_
  obtain ⟨ho, hd⟩ := draws_addObject he
  exact ⟨_, hd, .object h, ho, by simp [hd.next]⟩

theorem attaches_node (n : Node α) (label : String) :
    Attaches first [] w (onNetwork (Network.addObject (.node n) label))
      fun o w' => o = w.next ∧ w.next.index < w'.next.index := attaches_object label rfl

theorem attaches_flag (key : TrainableKey) (flag : Option Bool) :
    Attaches first [] w (onNetwork (Network.setTrainable key flag)) fun _ _ => True :=
  attaches_onNetwork fun _ _ he => ⟨_, draws_setTrainable he, .nil, trivial⟩

theorem attaches_warn {text : String}
    (h : warnsOfLayer text = false ∧ warnsOfActivation text = false) :
    Attaches first [] w (warn text) fun _ w' => w'.next = w.next :=
  ⟨⟨⟨[], []⟩, [text], draws_warn rfl, rfl, ⟨by simp, rfl, by simp [h.2], by simp [h.1],
    fun _ => rfl⟩⟩, rfl⟩

variable [Scalar α]

theorem attaches_networkConnect {pre post : View} {t : Transform α} {synapse : Option (Synapse α)}
    (h : (⟨pre, post, t⟩ : Wire α).Hangs first) :
    Attaches first [] w (onNetwork (Network.connect pre post t synapse)) fun _ _ => True :=
  attaches_onNetwork fun _ _ he => ⟨_, (draws_networkConnect he).1, .wire h, trivial⟩

theorem attaches_connect {pre post : View} {t : Transform α} {flag : Option Bool}
    (h : (⟨pre, post, t⟩ : Wire α).Hangs first) :
    Attaches first [] w (connect pre post t flag) fun _ _ => True :=
  .get_bind (.lift_bind fun _ _ => (attaches_networkConnect h).bind fun _ _ _ _ =>
    (attaches_flag _ flag).bind fun _ _ _ _ => .pure trivial)

omit [Scalar α] in
/-- What feeds an input is older than what is being attached. -/
theorem ViewedBefore.tensorView (h : w.ViewedBefore first) {t : TensorId} {v : View}
    (hv : w.tensorView t = .ok v) : v.object.index < first.index := by
  obtain ⟨p, -, hv⟩ := bind_eq_ok.1 hv
  obtain ⟨views, hviews, hv⟩ := Option.bind_eq_some_iff.1 (orRefuse_eq_ok.1 hv)
  exact h _ (mem_of_lookup hviews) v (List.mem_of_getElem? hv)

theorem ViewedBefore.inputView (h : w.ViewedBefore first) {i : InvocationId} {input : Nat}
    {v : View} (hv : w.inputView i input = .ok v) : v.object.index < first.index := by
  obtain ⟨_, -, hv⟩ := bind_eq_ok.1 hv
  obtain ⟨_, -, hv⟩ := bind_eq_ok.1 hv
  obtain ⟨_, -, hv⟩ := bind_eq_ok.1 hv
  exact h.tensorView hv

omit [Scalar α] in
theorem ViewedBefore.framed {w' : Workspace α} (h : w.ViewedBefore first) (hw : w.Framed w') :
    w'.ViewedBefore first := by
  unfold ViewedBefore
  rw [hw.views]
  exact h

theorem attaches_wireInput {i : InvocationId} {post : View} {input : Nat} {trainable : Bool}
    {t : Transform α} (hw : w.ViewedBefore first) (hp : post.object = first) :
    Attaches first [] w (wireInput i post input trainable t) fun _ _ => True := by
  refine .get_bind (.lift_bind fun pre hpre =>
    attaches_connect ⟨(congrArg (·.index) hp).ge, ?_, .inl hp⟩)
  exact fun heq => absurd (hw.inputView hpre) (by rw [heq]; exact lt_irrefl _)

theorem attaches_attachBias {label : String} {bias : List α} (hw : first.index < w.next.index) :
    Attaches first [] w (attachBias label first bias) fun _ _ => True := by
  refine (attaches_node _ _).bind fun o w₁ _ ⟨ho, _⟩ => ?_
  have hne : o ≠ first := fun heq => absurd hw (by rw [← heq, ho]; exact lt_irrefl _)
  exact (attaches_networkConnect ⟨le_rfl, hne, .inl rfl⟩).bind fun _ _ _ _ => .pure trivial

/-! ### Targets -/

theorem attaches_scaleDown {factor : Option α} {n : Neuron α} :
    Attaches first [] w (scaleDown factor n) fun _ w' => w'.next = w.next := by
  cases factor with
  | none => exact .pure rfl
  | some k =>
    unfold scaleDown
    dsimp only
    split
    · exact (attaches_warn (warns_scaling n.name)).bind fun _ _ _ hn => .pure hn
    · exact .pure rfl

theorem attaches_addEnsemble {label : String} {size : Nat} {factor : Option α} {n : Neuron α}
    {biases : Option (List α)} : Attaches first [] w (addEnsemble label size factor n biases)
      fun o w' => o = w.next ∧ w.next.index < w'.next.index := by
  refine attaches_scaleDown.bind fun neuron w₁ _ hn => .lift_bind fun _ _ => ?_
  refine (attaches_object _ rfl).bind fun o w₂ _ ho => ?_
  rw [hn] at ho
  cases biases with
  | none => exact (attaches_flag _ _).bind fun _ _ hx _ => .pure ⟨ho.1, ho.2.trans_le hx.next⟩
  | some b => exact .pure ho

omit [Scalar α] in
/-- A tensor node for an activation comes with its warning. -/
theorem attaches_addActivation {i : InvocationId} {label : String} {shape : List Nat} {size : Nat}
    {a : Activation} : Attaches first [] w (addActivation i label shape size a)
      fun o w' => o = w.next ∧ w.next.index < w'.next.index := by
  refine .get_bind ?_
  split
  case isTrue hallowed =>
    refine Step.ensures_of_eq_ok fun o w' he => ?_
    obtain ⟨_, w₁, hwarn, he⟩ := Step.exec_bind_eq_ok.1 he
    have hd := draws_warn hwarn
    obtain ⟨-, rfl⟩ := Prod.mk.inj hwarn
    obtain ⟨ho, hd'⟩ := draws_addObject he
    obtain ⟨n, -, rfl⟩ := onNetwork_eq_ok.1 he
    obtain ⟨hlayer, hactivation⟩ := warns_activation a.name
    exact ⟨⟨_, [_], hd.trans hd', rfl, ⟨by simp [Sketch.append_def], rfl,
      by simp [Sketch.append_def, ObjectKind.isActivation, hactivation], by simpa using hlayer,
      by simp [hallowed]⟩⟩,
      ho, by simp [hd'.next, hd.next]⟩
  case isFalse =>
    exact .lift_bind fun _ _ => Step.ensures_lift (fun _ _ => trivial) (by simp [refuse])

omit [Scalar α] in
theorem attaches_addNode {i : InvocationId} {label : String} {shape : List Nat} {size : Nat}
    {a : Activation} : Attaches first [] w (addNode i label shape size a)
      fun o w' => o = w.next ∧ w.next.index < w'.next.index := by
  unfold addNode
  split
  · exact attaches_node _ _
  · exact attaches_addActivation

theorem attaches_addTarget {i : InvocationId} {label : String} {shape : List Nat} {size : Nat}
    {biases : Option (List α)} {n : Nonlinearity α} :
    Attaches w.next [] w (addTarget i label shape size biases n)
      fun o w' => o = w.next ∧ w.next.index < w'.next.index := by
  cases n with
  | neuron n => exact .get_bind attaches_addEnsemble
  | activation a =>
    refine attaches_addNode.bind fun o w₁ _ ⟨ho, hn⟩ => ?_
    cases biases with
    | none => exact .pure ⟨ho, hn⟩
    | some b =>
      subst ho
      exact (attaches_attachBias hn).bind fun _ _ hx _ => .pure ⟨rfl, hn.trans_le hx.next⟩

/-- The target of an invocation is the first object that is attached. -/
theorem attaches_buildTarget {i : InvocationId} {biases : Option (List α)}
    {n : Option (Nonlinearity α)} : Attaches w.next [] w (buildTarget i biases n)
      fun v w' => v.object = w.next ∧ w.next.index < w'.next.index :=
  .get_bind (.lift_bind fun _ _ => .lift_bind fun _ _ => .lift_bind fun _ _ => .lift_bind fun _ _ =>
    attaches_addTarget.bind fun _ _ _ h => .pure h)

end
end Workspace

/-! ## Rules -/

namespace Rule

open Workspace

variable [Scalar α] {w : Workspace α} {i : InvocationId}

theorem attaches_convertInput (hw : w.ViewedBefore w.next) :
    Attaches w.next [] w (convertInput i) fun v w' => v.object.index < w'.next.index := by
  refine .get_bind (.lift_bind fun _ _ => .lift_bind fun inv _ => ?_)
  split
  · exact .lift_bind fun _ _ => .lift_bind fun _ _ => .lift_bind fun _ _ =>
      (attaches_node _ _).bind fun o _ _ h => .pure (h.1 ▸ h.2)
  · exact Step.ensures_lift (fun _ _ => trivial) fun v hv =>
      ⟨⟨_, [], .refl, by simp, .nil⟩, hw.inputView hv⟩

theorem attaches_convertPassing (hw : w.ViewedBefore w.next) :
    Attaches w.next [] w (convertPassing i) fun v w' => v.object.index < w'.next.index :=
  .get_bind (Step.ensures_lift (fun _ _ => trivial) fun _ hv =>
    ⟨⟨_, [], .refl, by simp, .nil⟩, hw.inputView hv⟩)

/-- What is attached behind a target. -/
theorem attaches_target (hw : w.ViewedBefore w.next) {biases : Option (List α)}
    {n : Option (Nonlinearity α)} {f : View → Step (Workspace α) View}
    (hf : ∀ v w', w.Extends w' → w'.ViewedBefore w.next → v.object = w.next →
      w.next.index < w'.next.index → Attaches w.next [] w' (f v) fun v' _ => v'.object = w.next) :
    Attaches w.next [] w (buildTarget i biases n >>= f)
      fun v w' => v.object.index < w'.next.index := by
  refine attaches_buildTarget.bind fun v w₁ hx ⟨hv, hn⟩ => ?_
  exact (hf v w₁ hx (hw.framed hx.framed) hv hn).extending.imp fun v' w₂ ⟨hx', hv'⟩ =>
    hv' ▸ hn.trans_le hx'.next

omit [Scalar α] in
theorem object_slice {v v' : View} {places : List Nat} (h : v.slice places = .ok v') :
    v'.object = v.object := by
  unfold View.slice at h
  split at h
  · rw [← pure_eq_ok.1 h]
  · obtain ⟨_, -, h⟩ := bind_eq_ok.1 h
    rw [← pure_eq_ok.1 h]

theorem attaches_convertDense {d : Dense α} (hw : w.ViewedBefore w.next) :
    Attaches w.next [] w (convertDense d i) fun v w' => v.object.index < w'.next.index :=
  attaches_target hw fun _ _ _ hw' hv _ => (attaches_wireInput hw' hv).bind fun _ _ _ _ => .pure hv

theorem attaches_convertNonlinearity {n : Nonlinearity α} (hw : w.ViewedBefore w.next) :
    Attaches w.next [] w (convertNonlinearity n i) fun v w' => v.object.index < w'.next.index :=
  attaches_target hw fun _ _ _ hw' hv _ => (attaches_wireInput hw' hv).bind fun _ _ _ _ => .pure hv

theorem attaches_convertPool {p : Pool} (hw : w.ViewedBefore w.next) :
    Attaches w.next [] w (convertPool p i) fun v w' => v.object.index < w'.next.index :=
  .get_bind (.lift_bind fun _ _ => .lift_bind fun _ _ => attaches_target hw fun _ _ _ hw' hv _ =>
    (attaches_wireInput hw' hv).bind fun _ _ _ _ => .pure hv)

theorem attaches_convertZeroPadding {z : ZeroPadding} (hw : w.ViewedBefore w.next) :
    Attaches w.next [] w (convertZeroPadding z i) fun v w' => v.object.index < w'.next.index :=
  .get_bind (.lift_bind fun _ _ => .lift_bind fun _ _ => attaches_target hw fun _ _ _ hw' hv _ =>
    .lift_bind fun _ hs => (attaches_wireInput hw' ((object_slice hs).trans hv)).bind
      fun _ _ _ _ => .pure hv)

theorem attaches_convertUpSampling {u : UpSampling} (hw : w.ViewedBefore w.next) :
    Attaches w.next [] w (convertUpSampling u i) fun v w' => v.object.index < w'.next.index := by
  refine .get_bind (.lift_bind fun _ _ => .lift_bind fun _ _ =>
    attaches_target hw fun output w' _ hw' hv _ => .get_bind (.lift_bind fun pre hpre =>
    .lift_bind fun sliced hs => ?_))
  have hne : sliced.object ≠ w.next := fun heq => absurd (hw'.inputView hpre)
    (by rw [← object_slice hs, heq]; exact lt_irrefl _)
  exact (attaches_connect ⟨(congrArg (·.index) hv).ge, hne, .inl hv⟩).bind fun _ _ _ _ => .pure hv

theorem attaches_convertMerge {m : Merge} (hw : w.ViewedBefore w.next) :
    Attaches w.next [] w (convertMerge m i) fun v w' => v.object.index < w'.next.index :=
  .get_bind (.lift_bind fun _ _ => attaches_target hw fun _ _ _ hw' hv _ =>
    (Attaches.forIn fun _ _ _ _ hx => (attaches_wireInput (hw'.framed hx.framed) hv).bind
      fun _ _ _ _ => .pure trivial).bind fun _ _ _ _ => .pure hv)

theorem attaches_convertConcatenate {c : Concatenate} (hw : w.ViewedBefore w.next) :
    Attaches w.next [] w (convertConcatenate c i) fun v w' => v.object.index < w'.next.index :=
  .get_bind (.lift_bind fun _ _ => .lift_bind fun _ _ => attaches_target hw fun _ _ _ hw' hv _ =>
    .get_bind (.lift_bind fun _ _ => (Attaches.forIn fun _ _ _ _ hx => .lift_bind fun _ _ =>
      .lift_bind fun _ _ => .lift_bind fun _ hs =>
        (attaches_wireInput (hw'.framed hx.framed) ((object_slice hs).trans hv)).bind
          fun _ _ _ _ => .pure trivial).bind fun _ _ _ _ => .pure hv))

/-- The constant node of the offsets stands behind the target that reads it. -/
theorem attaches_convertBatchNorm {axes : List Int} {scale offset : List α}
    (hw : w.ViewedBefore w.next) : Attaches w.next [] w (convertBatchNorm axes scale offset i)
      fun v w' => v.object.index < w'.next.index := by
  refine .get_bind (.lift_bind fun _ _ => .lift_bind fun _ _ => .lift_bind fun _ _ =>
    .lift_bind fun _ _ => .lift_bind fun _ _ => .lift_bind fun _ _ =>
    attaches_target hw fun output w₁ _ hw₁ hv hn => .get_bind (.lift_bind fun _ _ =>
    (attaches_node _ _).bind fun o w₂ hx ⟨ho, _⟩ => ?_))
  have hne : o ≠ w.next := fun heq => absurd hn (by rw [← heq, ho]; exact lt_irrefl _)
  refine (attaches_connect ⟨(congrArg (·.index) hv).ge, hne, .inl hv⟩).bind fun _ w₃ hx' _ => ?_
  exact (attaches_wireInput (hw₁.framed (hx.trans hx').framed) hv).bind fun _ _ _ _ => .pure hv

/-- A relay stands behind the constant node that it reads, and both behind the
    target. -/
theorem attaches_wireBiases {first : ObjectId} {c : Conv α} {output : View} {bias : List α}
    (hv : output.object = first) (hn : first.index < w.next.index) :
    Attaches first [] w (wireBiases c i output bias) fun _ _ => True := by
  refine .get_bind (.lift_bind fun _ _ => .lift_bind fun _ _ => (attaches_node _ _).bind
    fun node w₁ hx ⟨hnode, hnext⟩ => (attaches_node _ _).bind fun relay w₂ hx' ⟨hrelay, _⟩ => ?_)
  subst hv hnode hrelay
  have hne : w.next ≠ output.object := fun heq => absurd hn (by rw [heq]; exact lt_irrefl _)
  have hne' : w₁.next ≠ output.object :=
    fun heq => absurd (hn.trans hnext) (by rw [heq]; exact lt_irrefl _)
  refine (attaches_connect ⟨(hn.trans hnext).le, hne, .inr hnext⟩).bind fun _ _ _ _ => ?_
  exact .lift_bind fun _ _ =>
    (attaches_connect ⟨le_rfl, hne', .inl rfl⟩).bind fun _ _ _ _ => .pure trivial

theorem attaches_convertConv {c : Conv α} (hw : w.ViewedBefore w.next) :
    Attaches w.next [] w (convertConv c i) fun v w' => v.object.index < w'.next.index := by
  refine attaches_target hw fun output w₁ _ hw₁ hv hn => ?_
  have hwire : ∀ w₂, w₁.Extends w₂ → Attaches w.next [] w₂ (do
      let dims ← (← get).inputDims i
      let _ ← wireInput i output 0 true (.convolution (← convTransform c dims))
      return output) fun v' _ => v'.object = w.next := fun w₂ hx =>
    .get_bind (.lift_bind fun _ _ => .lift_bind fun _ _ =>
      (attaches_wireInput (hw₁.framed hx.framed) hv).bind fun _ _ _ _ => .pure hv)
  cases c.bias with
  | none => exact hwire w₁ (.refl w₁)
  | some bias => exact (attaches_wireBiases hv hn).bind fun _ w₂ hx _ => hwire w₂ hx

omit [Scalar α] in
theorem object_inputParts {output part : View} {shapes : List (List Nat)} {parts : List View}
    (h : inputParts output shapes = .ok parts) (hp : part ∈ parts) :
    part.object = output.object := by
  have hparts : ∀ (shapes : List (List Nat)) (start : Nat) (parts : List View),
      inputParts.parts output start shapes = .ok parts → ∀ part ∈ parts,
        part.object = output.object := by
    intro shapes
    induction shapes with
    | nil =>
      intro start parts h part hp
      obtain rfl := Except.ok.inj h
      cases hp
    | cons shape rest ih =>
      intro start parts h part hp
      simp only [inputParts.parts, bind_eq_ok, pure_eq_ok] at h
      obtain ⟨_, -, first, hfirst, others, hothers, rfl⟩ := h
      rcases List.mem_cons.1 hp with rfl | hp
      · exact object_slice hfirst
      · exact ih _ _ hothers _ hp
  unfold inputParts at h
  split at h
  · obtain rfl := Except.ok.inj h
    rw [List.mem_singleton.1 hp]
  · exact hparts _ _ _ h _ hp

/-- The layers that a conversion of a layer wraps. -/
inductive Wraps (layer : Layer α) (p : Primitive α) : Bool → List (WrappedLayer α) → Prop where
  | native : Wraps layer p false []
  | wrapped (inputShapes : List (List Nat)) :
    Wraps layer p true [⟨layer.name, p, layer.trainable, inputShapes⟩]

/-- What a conversion of an invocation comes to: a part of the network, and a
    view of an object that there is. -/
structure Attachment (w : Workspace α) (layer : Layer α) (p : Primitive α) (wrapped : Bool)
    (part : Sketch α) (v : View) (w' : Workspace α) : Prop where
  draws : w.Draws part w'
  view : v.object.index < w'.next.index
  attached : ∃ layers warnings, Wraps layer p wrapped layers ∧
    w'.warnings = w.warnings ++ warnings ∧
    part.Attached w.next layers w.settings.allowFallback warnings

/-- A wrapped layer is the only one that is wrapped. -/
theorem ensures_convertWrapped {p : Primitive α} {layer : Layer α}
    (hl : w.graph.layer i.layer = .ok layer) (hw : w.ViewedBefore w.next) :
    (convertWrapped p i).Ensures w (fun _ => True) fun v w' =>
      ∃ part, Attachment w layer p true part v w' := by
  have hok : ∀ {γ : Type} {o : Outcome γ} (e : Failure), o = .error e → True := fun _ _ => trivial
  refine Step.ensures_get_bind (Step.ensures_lift_bind hok fun layer' hl' =>
    Step.ensures_lift_bind hok fun _ _ => Step.ensures_lift_bind hok fun _ _ =>
    Step.ensures_lift_bind hok fun shapes _ => Step.ensures_lift_bind hok fun _ _ =>
    Step.ensures_lift_bind hok fun shapeIn _ => Step.ensures_lift_bind hok fun size _ =>
    Step.ensures_lift_bind hok fun label _ => ?_)
  obtain rfl := Except.ok.inj (hl.symm.trans hl')
  refine Step.Ensures.imp (?_ : Attaches w.next [⟨layer.name, p, layer.trainable, shapes⟩] w _
    fun v w' => v.object.index < w'.next.index) ?_
  · refine (attaches_object label rfl).add fun o w₁ hx ho => .lift_bind fun parts hparts => ?_
    refine (Attaches.forIn fun x hmem _ w₂ hx' => ?_).bind fun _ w₂ hx' _ =>
      .pure (ho.1 ▸ ho.2.trans_le hx'.next)
    have hobject := (object_inputParts hparts (List.fst_mem_of_mem_zipIdx hmem)).trans ho.1
    exact (attaches_wireInput (hw.framed (hx.trans hx').framed) hobject).bind
      fun _ _ _ _ => .pure trivial
  · rintro v w' ⟨⟨part, warnings, hd, hwarn, ha⟩, hv⟩
    exact ⟨part, hd, hv, _, warnings, .wrapped shapes, hwarn, ha⟩

/-- **What a conversion of an invocation attaches.** -/
theorem Conversion.attaches {wrapped : Bool} {p : Primitive α}
    {c : InvocationId → Step (Workspace α) View} (h : Conversion wrapped p c) {layer : Layer α}
    (hl : w.graph.layer i.layer = .ok layer) (hw : w.ViewedBefore w.next) :
    (c i).Ensures w (fun _ => True) fun v w' => ∃ part, Attachment w layer p wrapped part v w' := by
  have native : ∀ {s : Step (Workspace α) View},
      Attaches w.next [] w s (fun v w' => v.object.index < w'.next.index) →
      s.Ensures w (fun _ => True) fun v w' => ∃ part, Attachment w layer p false part v w' :=
    fun hs => Step.Ensures.imp hs fun v w' ⟨⟨part, warnings, hd, hwarn, ha⟩, hv⟩ =>
      ⟨part, hd, hv, [], warnings, .native, hwarn, ha⟩
  cases h with
  | wrapped p => exact ensures_convertWrapped hl hw
  | input => exact native (attaches_convertInput hw)
  | dense => exact native (attaches_convertDense hw)
  | conv => exact native (attaches_convertConv hw)
  | pool => exact native (attaches_convertPool hw)
  | activation => exact native (attaches_convertNonlinearity hw)
  | merge => exact native (attaches_convertMerge hw)
  | batchNorm => exact native (attaches_convertBatchNorm hw)
  | concatenate => exact native (attaches_convertConcatenate hw)
  | flatten => exact native (attaches_convertPassing hw)
  | reshape => exact native (attaches_convertPassing hw)
  | relu => exact native (attaches_convertNonlinearity hw)
  | leakyRelu => exact native (attaches_convertNonlinearity hw)
  | upSampling => exact native (attaches_convertUpSampling hw)
  | zeroPadding => exact native (attaches_convertZeroPadding hw)

end Rule
end Neuroform

/-
  Neuroform — what the operations of conversion rules do.

  A rule builds objects for one invocation: it extends the network by a part
  and adds warnings, and the graph, the settings and the views stay as they are
  (`Workspace.Framed`).  It looks up the views of the inputs of its invocation
  only, so it lacks none if those have theirs (`Workspace.Fed`).  `Builds` says
  this of a step, and how many parameters are trained in what it adds; so
  parameters are counted where they are added.
-/
import Neuroform.Proofs.Conversion.Sighted
import Neuroform.Proofs.Graph.Content
import Neuroform.Proofs.Network.Parts

namespace Neuroform

variable {α : Type} {β γ δ : Type}

/-! ## Steps on networks -/

/-- A step that lacks no view, whatever state it starts in. -/
def SightedStep {σ : Type} (s : Step σ β) : Prop := ∀ x, Sighted (s.exec x).1

namespace SightedStep
variable {σ : Type} {s : Step σ β} {f : β → Step σ γ}

theorem pure {b : β} : SightedStep (Pure.pure b : Step σ β) := fun _ => sighted_ok

theorem lift {o : Outcome β} (h : Sighted o) : SightedStep (liftM o : Step σ β) := fun _ => h

theorem set {x : σ} : SightedStep (MonadStateOf.set x : Step σ PUnit) := fun _ => sighted_ok

theorem bind (hs : SightedStep s) (hf : ∀ b, SightedStep (f b)) : SightedStep (s >>= f) := by
  intro x
  rw [Step.exec_bind]
  have h := hs x
  revert h
  rcases s.exec x with ⟨e | b, y⟩
  · intro h e' he; exact h e' (by cases he; rfl)
  · exact fun _ => hf b y

theorem get_bind {f : σ → Step σ γ} (h : ∀ x, SightedStep (f x)) : SightedStep (get >>= f) :=
  fun x => by rw [Step.exec_get_bind]; exact h x x

/-- What is known of an atomic step, and that it lacks no view. -/
theorem ensures (hs : SightedStep s) {x : σ} {Q : β → σ → Prop} (h : s.Atomic x Q)
    {E : Failure → Prop} (hE : ∀ e, e.lacksView = false → E e) : s.Ensures x E Q := by
  rcases he : s.exec x with ⟨e | b, y⟩
  · rw [Step.Ensures, he]
    exact hE e (hs x e (congrArg Prod.fst he))
  · rw [Step.Ensures, he]
    exact h.of_ok he

end SightedStep

namespace Network

theorem sightedStep_connect [Scalar α] {pre post : View} {t : Transform α}
    {synapse : Option (Synapse α)} : SightedStep (connect pre post t synapse) := by
  refine .get_bind fun n => .bind (.lift sighted_viewSizeOut) fun _ =>
    .bind (.lift sighted_viewSizeIn) fun _ => .bind (.lift sighted_object) fun _ =>
    .bind (.lift sighted_object) fun _ => .bind (.lift (sighted_within sighted_check)) fun _ => ?_
  cases synapse with
  | none => exact .bind .set fun _ => .pure
  | some s => exact .bind (.lift sighted_validateSynapse) fun _ => .bind .set fun _ => .pure

theorem sightedStep_addProbe {v : View} {synapse : Option (Synapse α)} :
    SightedStep (addProbe v synapse) :=
  .get_bind fun _ => .bind (.lift sighted_viewSizeOut) fun _ => .bind .set fun _ => .pure

end Network

/-! ## Steps on workspaces -/

namespace Workspace

/-- A workspace differs from another one in its network and warnings only. -/
structure Framed (w w' : Workspace α) : Prop where
  graph : w'.graph = w.graph
  settings : w'.settings = w.settings
  views : w'.views = w.views

/-- The inputs of an invocation have their views. -/
def Fed (w : Workspace α) (i : InvocationId) : Prop :=
  ∀ inv, w.graph.record? i = some inv → ∀ t ∈ inv.inputs, Sighted (w.tensorView t)

theorem Framed.refl (w : Workspace α) : w.Framed w := ⟨rfl, rfl, rfl⟩

theorem Framed.trans {w w' w'' : Workspace α} (h : w.Framed w') (h' : w'.Framed w'') :
    w.Framed w'' :=
  ⟨h'.graph.trans h.graph, h'.settings.trans h.settings, h'.views.trans h.views⟩

theorem Framed.tensorView {w w' : Workspace α} (h : w.Framed w') (t : TensorId) :
    w'.tensorView t = w.tensorView t := by
  simp only [Workspace.tensorView, h.graph, h.views]

theorem Framed.fed {w w' : Workspace α} (h : w.Framed w') {i : InvocationId} (hf : w.Fed i) :
    w'.Fed i := by
  intro inv hr t ht
  rw [h.tensorView]
  exact hf inv (h.graph ▸ hr) t ht

section
variable {i : InvocationId} {w : Workspace α}

theorem sighted_allInputDims : Sighted (w.allInputDims i) :=
  sighted_bind sighted_invocationShapes fun _ _ => sighted_mapM fun _ _ => sighted_resolved

theorem sighted_label : Sighted (w.label i) :=
  sighted_bind sighted_layer fun _ _ => sighted_pure

theorem sighted_synapseOf {v : View} : Sighted (w.synapseOf v) :=
  sighted_bind sighted_object fun _ _ => sighted_pure

theorem onNetwork_eq_ok {w' : Workspace α} {s : Step (Network α) β} {b : β} :
    (onNetwork s).exec w = (.ok b, w') ↔
      ∃ n, s.exec w.network = (.ok b, n) ∧ w' = { w with network := n } :=
  Step.exec_on_eq_ok

theorem exec_onNetwork {s : Step (Network α) β} {b : β} {n : Network α}
    (h : s.exec w.network = (.ok b, n)) :
    (onNetwork s).exec w = (.ok b, { w with network := n }) := by
  change ((s.exec w.network).1, { w with network := (s.exec w.network).2 }) = _
  rw [h]

variable [Scalar α]

theorem Fed.inputView (h : w.Fed i) {input : Nat} : Sighted (w.inputView i input) := by
  refine sighted_bind sighted_layer fun layer hl => sighted_bind sighted_layerInvocation
    fun inv hinv => sighted_bind ?_ fun t ht => ?_
  · exact sighted_orRefuse rfl
  · exact h inv ((Graph.layer_invocation hl).1 hinv) t (List.mem_of_getElem? (orRefuse_eq_ok.1 ht))

theorem sighted_inputDims : Sighted (w.inputDims i) :=
  sighted_bind sighted_invocationShape fun _ _ => sighted_resolved

theorem sighted_outputDims : Sighted (w.outputDims i) :=
  sighted_bind sighted_invocationShape fun _ _ => sighted_resolved

end

variable [Scalar α]

/-- A step extends the network by a part with `n` trained parameters, and lacks
    no view if the inputs of an invocation have theirs. -/
def Builds (i : InvocationId) (n : Nat) (w : Workspace α) (s : Step (Workspace α) β) : Prop :=
  s.Ensures w (fun e => w.Fed i → e.lacksView = false) fun _ w' =>
    w.Framed w' ∧ ∃ p, w'.network = w.network.extend p ∧ p.trained = n

namespace Builds
variable {i : InvocationId} {m n : Nat} {w : Workspace α} {s : Step (Workspace α) β}
  {f : β → Step (Workspace α) γ}

theorem pure {b : β} : Builds i 0 w (Pure.pure b) :=
  ⟨.refl w, .empty, by simp, Part.trained_empty⟩

theorem lift {o : Outcome β} (h : w.Fed i → Sighted o) : Builds i 0 w (liftM o) :=
  Step.ensures_lift (fun e he hf => h hf e he) fun _ _ =>
    ⟨.refl w, .empty, by simp, Part.trained_empty⟩

theorem of_eq (h : Builds i m w s) (hn : m = n) : Builds i n w s := hn ▸ h

/-- Parameters that are added one after the other are added up. -/
theorem add (hs : Builds i m w s) (hf : ∀ b w', w.Framed w' → Builds i n w' (f b)) :
    Builds i (m + n) w (s >>= f) := by
  refine Step.Ensures.bind hs fun b w' ⟨hw, p, hp, hm⟩ => ?_
  refine Step.Ensures.mono (hf b w' hw) (fun e he hfed => he (hw.fed hfed)) ?_
  rintro c w'' ⟨hw', q, hq, hn⟩
  exact ⟨hw.trans hw', p ++ q, by rw [hq, hp, Network.extend_extend],
    by rw [Part.trained_append, hm, hn]⟩

/-- A step without parameters, and what follows it. -/
theorem bind (hs : Builds i 0 w s) (hf : ∀ b w', w.Framed w' → Builds i n w' (f b)) :
    Builds i n w (s >>= f) := (hs.add hf).of_eq n.zero_add

/-- A step, and what follows it without parameters. -/
theorem only (hs : Builds i n w s) (hf : ∀ b w', w.Framed w' → Builds i 0 w' (f b)) :
    Builds i n w (s >>= f) := hs.add hf

theorem get_bind {f : Workspace α → Step (Workspace α) γ} (h : Builds i n w (f w)) :
    Builds i n w (get >>= f) := Step.ensures_get_bind h

theorem lift_bind {o : Outcome β} (ho : w.Fed i → Sighted o)
    (hf : ∀ b, o = .ok b → Builds i n w (f b)) : Builds i n w (liftM o >>= f) :=
  Step.ensures_lift_bind (fun e he hfed => ho hfed e he) hf

theorem warn {text : String} : Builds i 0 w (Workspace.warn text) :=
  ⟨⟨rfl, rfl, rfl⟩, .empty, by simp, Part.trained_empty⟩

theorem forIn {f : δ → γ → Step (Workspace α) (ForInStep γ)} : ∀ {xs : List δ} {c : γ}
    {w : Workspace α}, (∀ x c w, Builds i 0 w (f x c)) → Builds i 0 w (forIn xs c f)
  | [], _, _, _ => .pure
  | x :: xs, c, w, h => by
    rw [List.forIn_cons]
    refine (h x c w).bind fun r w' _ => ?_
    cases r with
    | done c => exact .pure
    | yield c => exact .forIn h

end Builds

/-! ### What is added -/

variable {i : InvocationId} {w : Workspace α}

/-- A connection that is not flagged is trained. -/
theorem builds_connection {pre post : View} {t : Transform α} {synapse : Option (Synapse α)} :
    Builds i t.parameterCount w (onNetwork (Network.connect pre post t synapse)) := by
  refine Step.ensures_on ((Network.sightedStep_connect.ensures
    (Network.atomic_connect pre post t synapse) fun _ he _ => he).imp ?_)
  rintro _ _ ⟨-, -, rfl⟩
  exact ⟨⟨rfl, rfl, rfl⟩, .connection ⟨pre, post, t, synapse, none⟩,
    by simp [Network.extend, Part.connection], by simp [Part.trained_connection]⟩

/-- A connection asks for the synapse of what it reads. -/
theorem ensures_connect {pre post : View} {t : Transform α} {flag : Option Bool} :
    (connect pre post t flag).Ensures w (fun e => e.lacksView = false) fun _ w' => ∃ synapse,
      w.synapseOf pre = .ok synapse ∧
      w' = { w with network := w.network.extend (.connection ⟨pre, post, t, synapse, flag⟩) } := by
  refine Step.ensures_get_bind (Step.ensures_lift_bind (fun e he => sighted_synapseOf e he)
    fun synapse hs => ?_)
  refine Step.Ensures.bind (P := fun c w' => c = ⟨w.network.connections.size⟩ ∧
    w' = { w with network := w.network.extend (.connection ⟨pre, post, t, synapse, none⟩) })
    (Step.ensures_on ((Network.sightedStep_connect.ensures
      (Network.atomic_connect pre post t synapse) fun _ he => he).imp ?_)) ?_
  · rintro _ _ ⟨-, rfl, rfl⟩
    exact ⟨rfl, by simp [Network.extend, Part.connection]⟩
  · rintro _ _ ⟨rfl, rfl⟩
    -- the connection is flagged right after it has been made
    exact Step.ensures_exec_bind (exec_onNetwork (Network.exec_flagConnection_extend _ flag))
      ⟨synapse, hs, rfl⟩

theorem builds_connect {pre post : View} {t : Transform α} {flag : Option Bool} :
    Builds i (if flag.getD true then t.parameterCount else 0) w (connect pre post t flag) := by
  refine ensures_connect.mono (fun _ he _ => he) ?_
  rintro _ _ ⟨_, -, rfl⟩
  exact ⟨⟨rfl, rfl, rfl⟩, _, rfl, Part.trained_connection _⟩

theorem builds_connect_frozen {pre post : View} {t : Transform α} :
    Builds i 0 w (connect pre post t (some false)) := builds_connect

theorem builds_wireInput {post : View} {input : Nat} {trainable : Bool} {t : Transform α} :
    Builds i (if trainable then t.parameterCount else 0) w (wireInput i post input trainable t) :=
  .get_bind (.lift_bind (·.inputView) fun _ _ => builds_connect)

theorem builds_wireInput_frozen {post : View} {input : Nat} {t : Transform α} :
    Builds i 0 w (wireInput i post input false t) := builds_wireInput

theorem builds_object {kind : ObjectKind α} {label : String} :
    Builds i kind.parameterCount w (onNetwork (Network.addObject kind label)) :=
  Step.ensures_on (Step.ensures_of_exec (Network.exec_addObject kind label)
    ⟨⟨rfl, rfl, rfl⟩, _, rfl, Part.trained_object _⟩)

theorem builds_node {n : Node α} {label : String} :
    Builds i 0 w (onNetwork (Network.addObject (.node n) label)) := builds_object

/-- An object that is not trained. -/
theorem builds_object_frozen {kind : ObjectKind α} {label : String} :
    Builds i 0 w (do
      let o ← onNetwork (Network.addObject kind label)
      onNetwork (Network.setTrainable (.object o) (some false))
      return o) := by
  refine Step.ensures_exec_bind (exec_onNetwork (Network.exec_addObject kind label)) ?_
  refine Step.ensures_exec_bind (exec_onNetwork (Network.exec_flagObject_extend _ _)) ?_
  exact ⟨⟨rfl, rfl, rfl⟩, _, rfl, Part.trained_object _⟩

theorem builds_attachBias {label : String} {o : ObjectId} {bias : List α} :
    Builds i bias.length w (attachBias label o bias) :=
  builds_node.bind fun _ _ _ => (builds_connection.of_eq (by simp [Transform.parameterCount,
    Table.ofColumn])).only fun _ _ _ => .pure

/-- A factor divides the amplitude; the step may also warn. -/
theorem exec_scaleDown (factor : Option α) (n : Neuron α) (w : Workspace α) : ∃ warnings,
    (scaleDown factor n).exec w =
      (.ok (factor.elim n fun k => n.mapAmplitude (· / k)), { w with warnings }) := by
  cases factor with
  | none => exact ⟨_, rfl⟩
  | some k =>
    unfold scaleDown
    dsimp only
    split
    · exact ⟨_, rfl⟩
    · exact ⟨_, rfl⟩

theorem builds_scaleDown {factor : Option α} {n : Neuron α} :
    Builds i 0 w (scaleDown factor n) := by
  obtain ⟨warnings, he⟩ := exec_scaleDown factor n w
  exact Step.ensures_of_exec he ⟨⟨rfl, rfl, rfl⟩, .empty, by simp, Part.trained_empty⟩

/-- An ensemble is trained if it holds biases. -/
theorem builds_addEnsemble {label : String} {size : Nat} {factor : Option α} {n : Neuron α}
    {biases : Option (List α)} : Builds i (if biases.isSome then size else 0) w
      (addEnsemble label size factor n biases) := by
  refine builds_scaleDown.bind fun _ w _ => .lift_bind (fun _ => sighted_requireRoom) fun _ _ => ?_
  cases biases with
  | none => exact builds_object_frozen
  | some b => exact builds_object.only fun _ _ _ => .pure

theorem builds_addActivation {label : String} {shape : List Nat} {size : Nat} {a : Activation} :
    Builds i 0 w (addActivation i label shape size a) := by
  refine .get_bind ?_
  split
  · exact Builds.warn.bind fun _ _ _ => builds_object
  · exact .lift_bind (fun _ => sighted_layer) fun _ _ => .lift fun _ => sighted_refuse.2 rfl

theorem builds_addNode {label : String} {shape : List Nat} {size : Nat} {a : Activation} :
    Builds i 0 w (addNode i label shape size a) := by
  unfold addNode
  split
  · exact builds_node
  · exact builds_addActivation

/-- The number of biases that there may be. -/
def biasCount (biases : Option (List α)) : Nat := (biases.map List.length).getD 0

theorem builds_addTarget {label : String} {shape : List Nat} {size : Nat}
    {biases : Option (List α)} (hb : ∀ b ∈ biases, b.length = size) {n : Nonlinearity α} :
    Builds i (biasCount biases) w (addTarget i label shape size biases n) := by
  cases n with
  | neuron n =>
    refine .get_bind (builds_addEnsemble.of_eq ?_)
    cases biases with
    | none => rfl
    | some b => simp [biasCount, hb b rfl]
  | activation a =>
    refine builds_addNode.bind fun o w _ => ?_
    cases biases with
    | none => exact .pure
    | some b => exact builds_attachBias.only fun _ _ _ => .pure

/-- The target of an invocation has its biases as parameters, wherever it has
    them. -/
theorem builds_buildTarget {biases : Option (List α)} {n : Option (Nonlinearity α)} :
    Builds i (biasCount biases) w (buildTarget i biases n) := by
  refine .get_bind (.lift_bind (fun _ => sighted_label) fun label _ =>
    .lift_bind (fun _ => sighted_outputDims) fun shape _ =>
    .lift_bind (fun _ => sighted_product) fun size _ => .lift_bind (fun _ => ?_) fun _ hc =>
    (builds_addTarget ?_).only fun _ _ _ => .pure)
  · cases biases with
    | none => exact sighted_ok
    | some b => exact sighted_bind sighted_layer fun _ _ => sighted_require rfl
  · rintro b hb
    obtain rfl : biases = some b := hb
    obtain ⟨_, -, hc⟩ := bind_eq_ok.1 hc
    exact require_eq_ok.1 hc

theorem builds_bareTarget {n : Option (Nonlinearity α)} :
    Builds i 0 w (buildTarget i none n) := builds_buildTarget

end Workspace
end Neuroform

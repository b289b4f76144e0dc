/-
  Neuroform — what conversion rules draw.

  The building operations of a workspace only add to the end of the sketch of
  its network (`Workspace.Draws`).  Each lemma names the part that an operation
  adds when it succeeds.
-/
import Neuroform.Proofs.Conversion.Frame
import Neuroform.Proofs.Network.React

namespace Neuroform

variable {α : Type}

/-- Settings that leave nonlinearities and firing rates alone. -/
structure Settings.Plain (s : Settings α) : Prop where
  swaps : s.swaps = []
  scale : s.scale = .none

theorem Network.sketch_extend {n : Network α} {part : Part α} : (n.extend part).sketch =
    n.sketch ++ ⟨part.objects.map (·.kind), part.connections.map Connection.wire⟩ := by
  simp [extend, sketch, Sketch.append_def]

/-- One round of a loop over a numbered list. -/
theorem getElem?_of_zipIdx_eq {δ : Type} {xs : List δ} {done rest : List (δ × Nat)} {x : δ}
    {k : Nat} (h : xs.zipIdx = done ++ (x, k) :: rest) :
    xs[done.length]? = some x ∧ k = done.length := by
  have hround := congrArg (·[done.length]?) h
  rw [List.getElem?_append_right (le_refl _), Nat.sub_self, List.getElem?_cons_zero,
    List.getElem?_zipIdx] at hround
  obtain ⟨y, hy, hpair⟩ := Option.map_eq_some_iff.1 hround
  obtain ⟨rfl, rfl⟩ := Prod.mk.inj hpair
  exact ⟨hy, Nat.zero_add _⟩

namespace Workspace

/-- A workspace differs from another one in what was added to its network. -/
structure Draws (w : Workspace α) (part : Sketch α) (w' : Workspace α) : Prop where
  framed : w.Framed w'
  sketch : w'.network.sketch = w.network.sketch ++ part
  probes : w'.network.probes = w.network.probes
  checked : w.network.sketch.Checked → w'.network.sketch.Checked

/-- The place of the next object. -/
def next (w : Workspace α) : ObjectId := ⟨w.network.sketch.kinds.length⟩

section
variable {w w' w'' : Workspace α} {part part' : Sketch α}

theorem Draws.refl : w.Draws ⟨[], []⟩ w :=
  ⟨.refl w, by simp, rfl, id⟩

theorem Draws.trans (h : w.Draws part w') (h' : w'.Draws part' w'') :
    w.Draws (part ++ part') w'' :=
  ⟨h.framed.trans h'.framed, by rw [h'.sketch, h.sketch, Sketch.append_assoc],
    h'.probes.trans h.probes, fun hc => h'.checked (h.checked hc)⟩

theorem Draws.next (h : w.Draws part w') : w'.next = ⟨w.next.index + part.kinds.length⟩ := by
  simp [Workspace.next, h.sketch]

/-- Warnings do not show. -/
theorem draws_warn {text : String} {u : Unit} (h : (warn text).exec w = (.ok u, w')) :
    w.Draws ⟨[], []⟩ w' := by
  obtain ⟨-, rfl⟩ := Prod.mk.inj h
  exact ⟨⟨rfl, rfl, rfl⟩, by rw [Sketch.append_nil], rfl, id⟩

theorem draws_addObject {kind : ObjectKind α} {label : String} {o : ObjectId}
    (h : (onNetwork (Network.addObject kind label)).exec w = (.ok o, w')) :
    o = w.next ∧ w.Draws ⟨[kind], []⟩ w' := by
  obtain ⟨n, hn, rfl⟩ := onNetwork_eq_ok.1 h
  obtain ⟨ho, rfl⟩ := Prod.mk.inj hn
  obtain rfl := Except.ok.inj ho
  have hs : Network.sketch
      { w.network with objects := w.network.objects.push ⟨label, kind, none⟩ } =
      w.network.sketch ++ ⟨[kind], []⟩ := by
    simp [Network.sketch, Sketch.append_def]
  refine ⟨congrArg ObjectId.mk Network.length_kinds.symm, ⟨rfl, rfl, rfl⟩, hs, rfl, fun hc => ?_⟩
  exact hs ▸ hc.append (by simp)

theorem draws_setTrainable {key : TrainableKey} {flag : Option Bool} {u : Unit}
    (h : (onNetwork (Network.setTrainable key flag)).exec w = (.ok u, w')) :
    w.Draws ⟨[], []⟩ w' := by
  obtain ⟨n, hn, rfl⟩ := onNetwork_eq_ok.1 h
  have hsame : n.sketch = w.network.sketch ∧ n.probes = w.network.probes := by
    cases key with
    | object o =>
      obtain ⟨-, rfl⟩ := (Network.atomic_flagObject o flag).of_ok hn
      exact ⟨congrArg₂ Sketch.mk (Network.map_modify (by exact fun _ => rfl) _ _) rfl, rfl⟩
    | connection c =>
      obtain ⟨-, rfl⟩ := (Network.atomic_flagConnection c flag).of_ok hn
      exact ⟨congrArg₂ Sketch.mk rfl (Network.map_modify (by exact fun _ => rfl) _ _), rfl⟩
  obtain ⟨hs, hp⟩ := hsame
  exact ⟨⟨rfl, rfl, rfl⟩, hs.trans (Sketch.append_nil _).symm, hp, fun hc => hs ▸ hc⟩

/-- A loop of which every round adds a wire. -/
theorem draws_forIn {δ γ : Type} {f : δ → γ → Step (Workspace α) (ForInStep γ)} {xs : List δ}
    {c c' : γ} {I : List δ → γ → List (Wire α) → Prop} (hd : w.Draws part w') (hi : I [] c [])
    (round : ∀ done d rest c wires y r y', xs = done ++ d :: rest → I done c wires →
      w.Draws (part ++ ⟨[], wires⟩) y → (f d c).exec y = (.ok r, y') →
      ∃ c' e, r = .yield c' ∧ w.Draws (part ++ ⟨[], wires⟩ ++ ⟨[], [e]⟩) y' ∧
        I (done ++ [d]) c' (wires ++ [e]))
    (h : (forIn xs c f).exec w' = (.ok c', w'')) :
    ∃ wires, w.Draws (part ++ ⟨[], wires⟩) w'' ∧ I xs c' wires := by
  refine (Step.ensures_forIn (E := fun _ => True) (I := fun done c y => ∃ wires,
    w.Draws (part ++ ⟨[], wires⟩) y ∧ I done c wires) ?_ ?_).of_ok h
  · exact ⟨[], (Sketch.append_nil part).symm ▸ hd, hi⟩
  · rintro done d rest c y hx ⟨wires, hdraws, hI⟩
    rcases he : (f d c).exec y with ⟨e | r, y'⟩
    · rw [Step.Ensures, he]
      trivial
    · rw [Step.Ensures, he]
      obtain ⟨c', e, rfl, hdraws', hI'⟩ := round done d rest c wires y r y' hx hI hdraws he
      rw [Sketch.append_assoc] at hdraws'
      exact ⟨c', rfl, wires ++ [e], hdraws', hI'⟩

variable [Scalar α]

theorem draws_networkConnect {pre post : View} {t : Transform α} {synapse : Option (Synapse α)}
    {c : ConnectionId} (h : (onNetwork (Network.connect pre post t synapse)).exec w = (.ok c, w')) :
    w.Draws ⟨[], [⟨pre, post, t⟩]⟩ w' ∧ w.network.sketch.Joins ⟨pre, post, t⟩ := by
  obtain ⟨n, hn, rfl⟩ := onNetwork_eq_ok.1 h
  obtain ⟨hj, -, rfl⟩ := (Network.atomic_connect pre post t synapse).of_ok hn
  have hs : Network.sketch { w.network with
      connections := w.network.connections.push ⟨pre, post, t, synapse, none⟩ } =
      w.network.sketch ++ ⟨[], [⟨pre, post, t⟩]⟩ := by
    simp [Network.sketch, Connection.wire, Sketch.append_def]
  refine ⟨⟨⟨rfl, rfl, rfl⟩, hs, rfl, fun h => ?_⟩, hj⟩
  rw [hs]
  refine h.append fun v hv => ?_
  rw [List.mem_singleton.1 hv]
  exact hj.append

theorem draws_connect {pre post : View} {t : Transform α} {flag : Option Bool} {c : ConnectionId}
    (h : (connect pre post t flag).exec w = (.ok c, w')) :
    w.Draws ⟨[], [⟨pre, post, t⟩]⟩ w' ∧ w.network.sketch.Joins ⟨pre, post, t⟩ := by
  rw [connect, Step.exec_get_bind] at h
  obtain ⟨synapse, _, hs, h⟩ := Step.exec_bind_eq_ok.1 h
  obtain ⟨-, rfl⟩ := Step.exec_lift_eq_ok.1 hs
  obtain ⟨c', w₁, hc, h⟩ := Step.exec_bind_eq_ok.1 h
  obtain ⟨_, w₂, ht, h⟩ := Step.exec_bind_eq_ok.1 h
  obtain ⟨-, rfl⟩ := Step.exec_pure_eq_ok.1 h
  obtain ⟨hd, hj⟩ := draws_networkConnect hc
  have hboth := hd.trans (draws_setTrainable ht)
  rw [Sketch.append_nil] at hboth
  exact ⟨hboth, hj⟩

theorem draws_wireInput {i : InvocationId} {post : View} {input : Nat} {trainable : Bool}
    {t : Transform α} {c : ConnectionId}
    (h : (wireInput i post input trainable t).exec w = (.ok c, w')) :
    ∃ pre, w.inputView i input = .ok pre ∧ w.Draws ⟨[], [⟨pre, post, t⟩]⟩ w' ∧
      w.network.sketch.Joins ⟨pre, post, t⟩ := by
  rw [wireInput, Step.exec_get_bind] at h
  obtain ⟨pre, _, hp, h⟩ := Step.exec_bind_eq_ok.1 h
  obtain ⟨hview, rfl⟩ := Step.exec_lift_eq_ok.1 hp
  obtain ⟨hd, hj⟩ := draws_connect h
  exact ⟨pre, hview, hd, hj⟩

/-- A constant node and its wire. -/
def biasPart (first : ObjectId) (o : ObjectId) (bias : List α) : Sketch α :=
  ⟨[.node (.constant [1])], [⟨.full first, .full o, .dense (Table.ofColumn bias)⟩]⟩

theorem draws_attachBias {label : String} {o : ObjectId} {bias : List α} {u : Unit}
    (h : (attachBias label o bias).exec w = (.ok u, w')) : w.Draws (biasPart w.next o bias) w' := by
  obtain ⟨node, w₁, hn, h⟩ := Step.exec_bind_eq_ok.1 h
  obtain ⟨c, w₂, hc, h⟩ := Step.exec_bind_eq_ok.1 h
  obtain ⟨-, rfl⟩ := Step.exec_pure_eq_ok.1 h
  obtain ⟨rfl, hdn⟩ := draws_addObject hn
  exact hdn.trans (draws_networkConnect hc).1

/-! ## Targets -/

/-- The kind of the object for an activation. -/
def activationKind (dims : List Nat) (a : Activation) : ObjectKind α :=
  if a = .linear then .node (.passthrough (volume dims))
  else .tensorNode ⟨dims, volume dims, .activation a⟩

/-- What is drawn for a nonlinearity: an ensemble with the biases, or another
    object with a constant node for them. -/
def targetPart (first : ObjectId) (dims : List Nat) (biases : Option (List α)) :
    Nonlinearity α → Sketch α
  | .neuron n => ⟨[.neurons ⟨volume dims, n, List.replicate (volume dims) 1,
      biases.getD (List.replicate (volume dims) 0)⟩], []⟩
  | .activation a => ⟨[activationKind dims a], []⟩ ++
      biases.elim ⟨[], []⟩ (biasPart ⟨first.index + 1⟩ first)

theorem target_plain {s : Settings α} (h : s.swaps = []) (n : Nonlinearity α) :
    s.target n = n.native?.getD n := by
  have hswap : ∀ m, s.swap m = m := fun m => by simp [Settings.swap, h]
  simp only [Settings.target, hswap]
  cases n.native? <;> rfl

omit [Scalar α] in
theorem draws_addNode {i : InvocationId} {label : String} {dims : List Nat} {a : Activation}
    {o : ObjectId} (h : (addNode i label dims (volume dims) a).exec w = (.ok o, w')) :
    o = w.next ∧ w.Draws ⟨[activationKind dims a], []⟩ w' := by
  unfold addNode at h
  unfold activationKind
  split at h
  case isTrue ha =>
    rw [if_pos ha]
    exact draws_addObject h
  case isFalse ha =>
    rw [if_neg ha]
    rw [addActivation, Step.exec_get_bind] at h
    split at h
    · obtain ⟨_, w₁, hwarn, h⟩ := Step.exec_bind_eq_ok.1 h
      have hd := draws_warn hwarn
      obtain ⟨rfl, hd'⟩ := draws_addObject h
      refine ⟨hd.next, ?_⟩
      have hboth := hd.trans hd'
      exact hboth
    · rw [Step.exec_lift_bind] at h
      split at h
      · simp [Step.exec_lift, refuse] at h
      · simp at h

end
end Workspace
end Neuroform

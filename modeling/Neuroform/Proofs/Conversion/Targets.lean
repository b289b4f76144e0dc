/-
  Neuroform — the views that conversion rules give.

  Most rules make a new object for their invocation, which has a value for every
  place of its output (`Workspace.Makes`); it is what the settings make of the
  nonlinearity of the layer (`Settings.targetKind`).  Whatever rules add
  afterwards leaves it alone (`Workspace.Keeps`).  Flattening, reshaping and entries that were
  called with a tensor make none: they hand the view of their input on
  (`Rule.HandsOn`).
-/
import Neuroform.Proofs.Conversion.Drawing
import Neuroform.Proofs.Conversion.Rules

namespace Neuroform

variable {α : Type} {β γ δ : Type}

/-! ## Kinds of targets -/

/-- The object for a nonlinearity: an ensemble that holds the biases and is
    scaled by a factor, or a node. -/
def targetKind [Scalar α] (factor : Option α) (biases : Option (List α)) (dims : List Nat) :
    Nonlinearity α → ObjectKind α
  | .neuron n => .neurons ⟨volume dims, factor.elim n fun k => n.mapAmplitude (· / k),
      List.replicate (volume dims) (factor.getD 1),
      (biases.map fun b => factor.elim b fun k => b.map (· * k)).getD
        (List.replicate (volume dims) 0)⟩
  | .activation a => Workspace.activationKind dims a

/-- The object that settings make for an output of a layer.  Without a
    nonlinearity it is that of a linear activation. -/
def Settings.targetKind [Scalar α] (s : Settings α) (l : LayerId) (biases : Option (List α))
    (n : Option (Nonlinearity α)) (dims : List Nat) : ObjectKind α :=
  Neuroform.targetKind (s.scale.ofLayer? l) biases dims (s.target (n.getD (.activation .linear)))

theorem sizeOut_targetKind [Scalar α] {factor : Option α} {biases : Option (List α)}
    {dims : List Nat} (n : Nonlinearity α) :
    (targetKind factor biases dims n).sizeOut = volume dims := by
  cases n with
  | neuron n => rfl
  | activation a =>
    change (Workspace.activationKind dims a).sizeOut = volume dims
    unfold Workspace.activationKind
    split <;> rfl

theorem sizeIn_targetKind [Scalar α] {factor : Option α} {biases : Option (List α)}
    {dims : List Nat} (h : Word.product dims = .ok (volume dims)) (n : Nonlinearity α) :
    (targetKind factor biases dims n).sizeIn = .ok (volume dims) := by
  cases n with
  | neuron n => rfl
  | activation a =>
    change (Workspace.activationKind dims a).sizeIn = .ok (volume dims)
    unfold Workspace.activationKind
    split
    · rfl
    · exact h

/-! ## Views of the first new object -/

namespace Workspace

/-- The object that is added to a workspace first has a property. -/
def First (w : Workspace α) (K : ObjectKind α → Prop) (o : ObjectId) (w' : Workspace α) : Prop :=
  o = ⟨w.network.objects.size⟩ ∧
    ∃ x, w'.network.objects[w.network.objects.size]? = some x ∧ K x.kind

/-- A step that succeeds extends the network, and gives a view that was there
    before. -/
def Keeps (v : View) (w : Workspace α) (s : Step (Workspace α) View) : Prop :=
  s.Ensures w (fun _ => True) fun v' w' => v' = v ∧ ∃ p, w'.network = w.network.extend p

section
variable {w w' w'' : Workspace α} {K : ObjectKind α → Prop} {o : ObjectId} {v : View}

theorem First.extend (h : w.First K o w') {p : Part α}
    (hp : w''.network = w'.network.extend p) : w.First K o w'' := by
  obtain ⟨ho, x, hx, hK⟩ := h
  have hlt := (Array.getElem?_eq_some_iff.1 hx).1
  refine ⟨ho, x, ?_, hK⟩
  rw [hp, Network.extend, Array.getElem?_append_left hlt, hx]

theorem first_addObject {kind : ObjectKind α} {label : String} (hK : K kind) :
    (onNetwork (Network.addObject kind label)).Ensures w (fun _ => True) (w.First K) := by
  refine Step.ensures_of_exec (exec_onNetwork (Network.exec_addObject kind label)) ⟨rfl, ?_⟩
  exact ⟨_, Network.getElem?_extend_object _, hK⟩

theorem Keeps.pure : Keeps v w (Pure.pure v) := ⟨rfl, .empty, by simp⟩

theorem Keeps.get_bind {f : Workspace α → Step (Workspace α) View} (h : Keeps v w (f w)) :
    Keeps v w (get >>= f) := Step.ensures_get_bind h

theorem Keeps.lift_bind {x : Outcome β} {f : β → Step (Workspace α) View}
    (hf : ∀ b, x = .ok b → Keeps v w (f b)) : Keeps v w (liftM x >>= f) :=
  Step.ensures_lift_bind (fun _ _ => trivial) hf

end

variable [Scalar α]

/-- A view is all of the first object that is added to a workspace, which is as
    the dimensions of the output of an invocation ask for. -/
def Target (w : Workspace α) (K : List Nat → ObjectKind α → Prop) (i : InvocationId) (v : View)
    (w' : Workspace α) : Prop :=
  ∃ dims o, w.outputDims i = .ok dims ∧ v = .full o ∧ w.First (K dims) o w'

/-- A step that succeeds makes the object for an invocation. -/
def Makes (K : List Nat → ObjectKind α → Prop) (i : InvocationId) (w : Workspace α)
    (s : Step (Workspace α) View) : Prop :=
  s.Ensures w (fun _ => True) (w.Target K i)

/-- A step that succeeds makes the target that the settings ask for. -/
def MakesTarget (biases : Option (List α)) (n : Option (Nonlinearity α)) (i : InvocationId)
    (w : Workspace α) (s : Step (Workspace α) View) : Prop :=
  Makes (fun dims kind => kind = w.settings.targetKind i.layer biases n dims) i w s

section
variable {K : List Nat → ObjectKind α → Prop} {i : InvocationId} {n : Nat} {v : View}
  {w : Workspace α} {biases : Option (List α)} {nonlinearity : Option (Nonlinearity α)}

/-- A step that builds a part, and what keeps a view behind it. -/
theorem Builds.keeps {s : Step (Workspace α) β} {f : β → Step (Workspace α) View}
    (hs : Builds i n w s) (hf : ∀ b w', Keeps v w' (f b)) : Keeps v w (s >>= f) := by
  refine Step.Ensures.bind (Step.Ensures.mono hs (fun _ _ => trivial) fun _ _ h => h) ?_
  rintro b w' ⟨-, p, hp, -⟩
  refine (hf b w').imp ?_
  rintro v' w'' ⟨hv, q, hq⟩
  exact ⟨hv, p ++ q, by rw [hq, hp, Network.extend_extend]⟩

theorem Makes.get_bind {f : Workspace α → Step (Workspace α) View} (h : Makes K i w (f w)) :
    Makes K i w (get >>= f) := Step.ensures_get_bind h

theorem Makes.lift_bind {x : Outcome β} {f : β → Step (Workspace α) View}
    (hf : ∀ b, x = .ok b → Makes K i w (f b)) : Makes K i w (liftM x >>= f) :=
  Step.ensures_lift_bind (fun _ _ => trivial) hf

/-- A target is not changed by what is added to the network afterwards. -/
theorem Makes.bind {s : Step (Workspace α) View} {f : View → Step (Workspace α) View}
    (hs : Makes K i w s) (hf : ∀ v w', Keeps v w' (f v)) : Makes K i w (s >>= f) := by
  refine Step.Ensures.bind hs ?_
  rintro v w' ⟨dims, o, hdims, rfl, hfirst⟩
  refine (hf _ w').imp ?_
  rintro _ w'' ⟨rfl, p, hp⟩
  exact ⟨dims, o, hdims, rfl, hfirst.extend hp⟩

/-- A step that adds the object first, and what keeps all of it. -/
theorem makes_of_first {s : Step (Workspace α) ObjectId} {f : ObjectId → Step (Workspace α) View}
    {dims : List Nat} (hdims : w.outputDims i = .ok dims)
    (hs : s.Ensures w (fun _ => True) (w.First (K dims)))
    (hf : ∀ o w', Keeps (.full o) w' (f o)) : Makes K i w (s >>= f) := by
  refine hs.bind fun o w' hfirst => (hf o w').imp ?_
  rintro _ w'' ⟨rfl, p, hp⟩
  exact ⟨dims, o, hdims, rfl, hfirst.extend hp⟩

theorem MakesTarget.get_bind {f : Workspace α → Step (Workspace α) View}
    (h : MakesTarget biases nonlinearity i w (f w)) :
    MakesTarget biases nonlinearity i w (get >>= f) := Makes.get_bind h

theorem MakesTarget.lift_bind {x : Outcome β} {f : β → Step (Workspace α) View}
    (hf : ∀ b, x = .ok b → MakesTarget biases nonlinearity i w (f b)) :
    MakesTarget biases nonlinearity i w (liftM x >>= f) := Makes.lift_bind hf

theorem MakesTarget.bind {s : Step (Workspace α) View} {f : View → Step (Workspace α) View}
    (hs : MakesTarget biases nonlinearity i w s) (hf : ∀ v w', Keeps v w' (f v)) :
    MakesTarget biases nonlinearity i w (s >>= f) := Makes.bind hs hf

end

/-! ## Targets -/

section
variable {i : InvocationId} {w : Workspace α} {label : String} {dims : List Nat}
  {biases : Option (List α)}

/-- An ensemble is the first object, whether or not it is trained. -/
theorem first_addEnsemble {factor : Option α} {n : Neuron α} :
    (addEnsemble label (volume dims) factor n biases).Ensures w (fun _ => True)
      (w.First (· = targetKind factor biases dims (.neuron n))) := by
  obtain ⟨warnings, hscale⟩ := exec_scaleDown factor n w
  refine Step.ensures_exec_bind hscale (Step.ensures_lift_bind (fun _ _ => trivial) fun _ _ => ?_)
  cases biases with
  | some b =>
    exact (first_addObject (K := (· = targetKind factor (some b) dims (.neuron n))) rfl).bind
      fun o w' hfirst => hfirst
  | none =>
    refine Step.ensures_exec_bind (exec_onNetwork (Network.exec_addObject _ label)) ?_
    refine Step.ensures_exec_bind (exec_onNetwork (Network.exec_flagObject_extend _ _)) ?_
    exact ⟨rfl, _, Network.getElem?_extend_object _, rfl⟩

omit [Scalar α] in
theorem first_addActivation {a : Activation} :
    (addActivation i label dims (volume dims) a).Ensures w (fun _ => True)
      (w.First (· = .tensorNode ⟨dims, volume dims, .activation a⟩)) := by
  refine Step.ensures_get_bind ?_
  split
  · exact Step.Ensures.bind (P := fun _ w' => ∃ warnings, w' = { w with warnings })
      ⟨_, rfl⟩ fun _ w' ⟨_, hw⟩ => hw ▸
        first_addObject (K := (· = .tensorNode ⟨dims, volume dims, .activation a⟩)) rfl
  · exact Step.ensures_lift_bind (fun _ _ => trivial) fun _ _ =>
      Step.ensures_lift (fun _ _ => trivial) (by simp)

omit [Scalar α] in
theorem first_addNode {a : Activation} :
    (addNode i label dims (volume dims) a).Ensures w (fun _ => True)
      (w.First (· = activationKind dims a)) := by
  unfold addNode activationKind
  split
  · exact first_addObject rfl
  · exact first_addActivation

theorem first_addTarget {n : Nonlinearity α} :
    (addTarget i label dims (volume dims) biases n).Ensures w (fun _ => True)
      (w.First (· = targetKind (w.settings.scale.ofLayer? i.layer) biases dims n)) := by
  cases n with
  | neuron n => exact Step.ensures_get_bind first_addEnsemble
  | activation a =>
    refine first_addNode.bind fun o w' hfirst => ?_
    cases biases with
    | none => exact hfirst
    | some b =>
      -- the biases come behind the object
      refine Step.Ensures.bind (Step.Ensures.mono (builds_attachBias (i := i)) (fun _ _ => trivial)
        fun _ _ h => h) ?_
      rintro _ w'' ⟨-, p, hp, -⟩
      exact hfirst.extend hp

/-- **Targets** are what the settings make of a nonlinearity. -/
theorem makes_buildTarget {n : Option (Nonlinearity α)} :
    MakesTarget biases n i w (buildTarget i biases n) := by
  refine .get_bind (.lift_bind fun label _ => .lift_bind fun dims hdims =>
    .lift_bind fun size hsize => .lift_bind fun _ _ => ?_)
  obtain rfl := product_eq_ok hsize
  exact makes_of_first hdims first_addTarget fun _ _ => .pure

/-- What is drawn behind an object for biases that it does not hold itself: only
    ensembles do. -/
def biasWiring (first o : ObjectId) (biases : Option (List α)) : Nonlinearity α → Sketch α
  | .neuron _ => ⟨[], []⟩
  | .activation _ => biases.elim ⟨[], []⟩ (biasPart first o)

theorem biasWiring_none {first o : ObjectId} (n : Nonlinearity α) :
    biasWiring first o none n = ⟨[], []⟩ := by
  cases n <;> rfl

/-- An ensemble is all that is drawn for it. -/
theorem draws_scaledEnsemble {w' : Workspace α} {factor : Option α} {n : Neuron α} {o : ObjectId}
    (h : (addEnsemble label (volume dims) factor n biases).exec w = (.ok o, w')) :
    o = w.next ∧ w.Draws ⟨[targetKind factor biases dims (.neuron n)], []⟩ w' := by
  obtain ⟨warnings, hscale⟩ := exec_scaleDown factor n w
  rw [addEnsemble, Step.exec_bind_ok hscale] at h
  obtain ⟨_, -, h⟩ := Step.exec_lift_bind_eq_ok.1 h
  obtain ⟨o', w₁, hadd, h⟩ := Step.exec_bind_eq_ok.1 h
  obtain ⟨rfl, hd⟩ := draws_addObject hadd
  have hwarn : w.Draws ⟨[], []⟩ { w with warnings } :=
    ⟨⟨rfl, rfl, rfl⟩, (Sketch.append_nil _).symm, rfl, id⟩
  cases biases with
  | none =>
    obtain ⟨_, w₂, hflag, h⟩ := Step.exec_bind_eq_ok.1 h
    obtain ⟨rfl, rfl⟩ := Step.exec_pure_eq_ok.1 h
    exact ⟨rfl, hwarn.trans (hd.trans (draws_setTrainable hflag))⟩
  | some b =>
    obtain ⟨rfl, rfl⟩ := Step.exec_pure_eq_ok.1 h
    exact ⟨rfl, hwarn.trans hd⟩

/-- A target and its biases are all that is drawn for an output. -/
theorem draws_target {w' : Workspace α} {n : Option (Nonlinearity α)} {v : View}
    (h : (buildTarget i biases n).exec w = (.ok v, w')) :
    ∃ dims, w.outputDims i = .ok dims ∧ Word.product dims = .ok (volume dims) ∧
      (∀ b ∈ biases, b.length = volume dims) ∧ v = .full w.next ∧
      w.Draws (⟨[w.settings.targetKind i.layer biases n dims], []⟩ ++
        biasWiring ⟨w.next.index + 1⟩ w.next biases
          (w.settings.target (n.getD (.activation .linear)))) w' := by
  rw [buildTarget, Step.exec_get_bind] at h
  obtain ⟨label, -, h⟩ := Step.exec_lift_bind_eq_ok.1 h
  obtain ⟨dims, hdims, h⟩ := Step.exec_lift_bind_eq_ok.1 h
  obtain ⟨size, hsize, h⟩ := Step.exec_lift_bind_eq_ok.1 h
  obtain ⟨_, hbiases, h⟩ := Step.exec_lift_bind_eq_ok.1 h
  obtain ⟨o, w₁, ho, h⟩ := Step.exec_bind_eq_ok.1 h
  obtain ⟨rfl, rfl⟩ := Step.exec_pure_eq_ok.1 h
  obtain rfl := product_eq_ok hsize
  refine ⟨dims, hdims, hsize, fun b hb => ?_, ?_⟩
  · obtain rfl := Option.mem_def.1 hb
    obtain ⟨_, -, hlength⟩ := bind_eq_ok.1 hbiases
    exact require_eq_ok.1 hlength
  unfold Settings.targetKind
  cases hn : w.settings.target (n.getD (.activation .linear)) with
  | activation a =>
    rw [hn] at ho
    obtain ⟨o', w₂, hnode, ho⟩ := Step.exec_bind_eq_ok.1 ho
    obtain ⟨rfl, hd⟩ := draws_addNode hnode
    obtain ⟨_, w₃, hbias, ho⟩ := Step.exec_bind_eq_ok.1 ho
    obtain ⟨rfl, rfl⟩ := Step.exec_pure_eq_ok.1 ho
    refine ⟨rfl, hd.trans ?_⟩
    cases biases with
    | none =>
      obtain ⟨-, rfl⟩ := Step.exec_pure_eq_ok.1 hbias
      exact .refl
    | some b => exact hd.next ▸ draws_attachBias hbias
  | neuron neuron =>
    rw [hn, addTarget, Step.exec_get_bind] at ho
    obtain ⟨rfl, hd⟩ := draws_scaledEnsemble ho
    exact ⟨rfl, hd.trans .refl⟩

/-- A target without biases is all that is drawn for it. -/
theorem draws_bareTarget {w' : Workspace α} {n : Option (Nonlinearity α)} {v : View}
    (h : (buildTarget i none n).exec w = (.ok v, w')) :
    ∃ dims, w.outputDims i = .ok dims ∧ Word.product dims = .ok (volume dims) ∧
      v = .full w.next ∧ w.Draws ⟨[w.settings.targetKind i.layer none n dims], []⟩ w' := by
  obtain ⟨dims, hdims, hsize, -, hv, hd⟩ := draws_target h
  rw [biasWiring_none, Sketch.append_nil] at hd
  exact ⟨dims, hdims, hsize, hv, hd⟩

theorem targetPart_eq {first : ObjectId} (n : Nonlinearity α) :
    targetPart first dims biases n = ⟨[targetKind none biases dims n], []⟩ ++
      biasWiring ⟨first.index + 1⟩ first biases n := by
  cases n <;> cases biases <;> rfl

/-- The target of plain settings, and its biases. -/
theorem draws_plainTarget {w' : Workspace α} {n : Option (Nonlinearity α)} {v : View}
    (hp : w.settings.Plain) (h : (buildTarget i biases n).exec w = (.ok v, w')) :
    ∃ dims, w.outputDims i = .ok dims ∧ (∀ b ∈ biases, b.length = volume dims) ∧
      v = .full w.next ∧ w.Draws (targetPart w.next dims biases
        (((n.getD (.activation .linear)).native?).getD (n.getD (.activation .linear)))) w' := by
  obtain ⟨dims, hdims, -, hbiases, hv, hd⟩ := draws_target h
  refine ⟨dims, hdims, hbiases, hv, ?_⟩
  rwa [Settings.targetKind, hp.scale, RateScale.ofLayer?, target_plain hp.swaps,
    ← targetPart_eq] at hd

end

end Workspace

/-! ## Rules -/

namespace Rule

open Workspace

variable [Scalar α] {i : InvocationId} {w : Workspace α}

/-- An invocation that hands its first input on: it is converted natively, and
    flattens or reshapes or belongs to an entry that was called with a
    tensor. -/
inductive HandsOn (g : Graph α) (i : InvocationId) : Bool → Primitive α → Prop where
  | flatten : HandsOn g i false .flatten
  | reshape (r : Reshape) : HandsOn g i false (.reshape r)
  | entry (d : InputLayer) {inv : Invocation} (record : g.record? i = some inv)
    (fed : inv.inputs ≠ []) : HandsOn g i false (.input d)

theorem makes_convertDense {d : Dense α} :
    MakesTarget d.bias (some (.activation d.activation)) i w (convertDense d i) :=
  makes_buildTarget.bind fun _ _ => builds_wireInput.keeps fun _ _ => .pure

theorem makes_convertBatchNorm {axes : List Int} {scale offset : List α} :
    MakesTarget none none i w (convertBatchNorm axes scale offset i) :=
  .get_bind (.lift_bind fun _ _ => .lift_bind fun _ _ => .lift_bind fun _ _ => .lift_bind fun _ _ =>
    .lift_bind fun _ _ => .lift_bind fun _ _ => makes_buildTarget.bind fun _ _ =>
    .get_bind (.lift_bind fun _ _ => (builds_node (i := i)).keeps fun _ _ =>
      (builds_connect (i := i)).keeps fun _ _ => builds_wireInput.keeps fun _ _ => .pure))

theorem makes_convertNonlinearity {n : Nonlinearity α} :
    MakesTarget none (some n) i w (convertNonlinearity n i) :=
  makes_buildTarget.bind fun _ _ => builds_wireInput.keeps fun _ _ => .pure

theorem makes_convertMerge {m : Merge} :
    MakesTarget none none i w (convertMerge m i : Step (Workspace α) View) :=
  .get_bind (.lift_bind fun _ _ => makes_buildTarget.bind fun _ _ =>
    (Builds.forIn (i := i) fun _ _ _ => builds_wireInput_frozen.bind fun _ _ _ => .pure).keeps
      fun _ _ => .pure)

theorem makes_convertConcatenate {c : Concatenate} :
    MakesTarget none none i w (convertConcatenate c i : Step (Workspace α) View) :=
  .get_bind (.lift_bind fun _ _ => .lift_bind fun _ _ => makes_buildTarget.bind fun _ _ =>
    .get_bind (.lift_bind fun _ _ => (Builds.forIn (i := i) fun _ _ _ =>
      .lift_bind (fun _ => sighted_orFault) fun _ _ =>
      .lift_bind (fun _ => sighted_selectBox) fun _ _ =>
      .lift_bind (fun _ => sighted_slice) fun _ _ =>
        builds_wireInput_frozen.bind fun _ _ _ => .pure).keeps fun _ _ => .pure))

theorem makes_convertUpSampling {u : UpSampling} :
    MakesTarget none none i w (convertUpSampling u i : Step (Workspace α) View) :=
  .get_bind (.lift_bind fun _ _ => .lift_bind fun _ _ => makes_buildTarget.bind fun _ _ =>
    .get_bind (.lift_bind fun _ _ => .lift_bind fun _ _ =>
      (builds_connect (i := i)).keeps fun _ _ => .pure))

theorem makes_convertZeroPadding {z : ZeroPadding} :
    MakesTarget none none i w (convertZeroPadding z i : Step (Workspace α) View) :=
  .get_bind (.lift_bind fun _ _ => .lift_bind fun _ _ => makes_buildTarget.bind fun _ _ =>
    .lift_bind fun _ _ => builds_wireInput.keeps fun _ _ => .pure)

theorem makes_convertConv {c : Conv α} :
    MakesTarget none (some (.activation c.activation)) i w (convertConv c i) := by
  have hwire : ∀ {output : View} {w : Workspace α}, Keeps output w (do
      let dims ← (← get).inputDims i
      let _ ← wireInput i output 0 true (.convolution (← convTransform c dims))
      return output) := .get_bind (.lift_bind fun _ _ => .lift_bind fun _ _ =>
        builds_wireInput.keeps fun _ _ => .pure)
  refine makes_buildTarget.bind fun output w => ?_
  cases c.bias with
  | none => exact hwire
  | some bias => exact builds_wireBiases.keeps fun _ _ => hwire

theorem makes_convertPool {p : Pool} :
    MakesTarget none none i w (convertPool p i : Step (Workspace α) View) :=
  .get_bind (.lift_bind fun _ _ => .lift_bind fun _ _ => makes_buildTarget.bind fun _ _ =>
    builds_wireInput.keeps fun _ _ => .pure)

/-- The tensor node of a wrapped layer has the values of its output. -/
theorem makes_convertWrapped {p : Primitive α} :
    Makes (fun dims kind => kind.sizeOut = volume dims) i w (convertWrapped p i) := by
  refine .get_bind (.lift_bind fun _ _ => .lift_bind fun _ _ => .lift_bind fun _ _ =>
    .lift_bind fun _ _ => .lift_bind fun dims hdims => .lift_bind fun _ _ =>
    .lift_bind fun size hsize => .lift_bind fun _ _ => ?_)
  obtain rfl := product_eq_ok hsize
  exact makes_of_first hdims (first_addObject rfl) fun o _ => .lift_bind fun _ _ =>
    (Builds.forIn (i := i) fun _ _ _ => builds_wireInput_frozen.bind fun _ _ _ => .pure).keeps
      fun _ _ => .pure

/-- An entry without inputs becomes a constant node, with a zero for every
    place of its shape. -/
theorem ensures_convertInput :
    (convertInput i).Ensures w (fun _ => True) fun v w' => ∃ inv, w.graph.record? i = some inv ∧
      ((inv.inputs = [] ∧ ∃ dims o, w.outputDims i = .ok dims ∧ v = .full o ∧
          w.First (· = .node (.constant (List.replicate (volume dims) 0))) o w') ∨
        (inv.inputs ≠ [] ∧ w.inputView i 0 = .ok v ∧ w' = w)) := by
  refine Step.ensures_get_bind (Step.ensures_lift_bind (fun _ _ => trivial) fun layer hl =>
    Step.ensures_lift_bind (fun _ _ => trivial) fun inv hinv => ?_)
  have hr : w.graph.record? i = some inv := (Graph.layer_invocation hl).1 hinv
  split
  case isTrue hempty =>
    refine Step.ensures_lift_bind (fun _ _ => trivial) fun dims hdims =>
      Step.ensures_lift_bind (fun _ _ => trivial) fun size hsize =>
      Step.ensures_lift_bind (fun _ _ => trivial) fun _ _ => ?_
    obtain rfl := product_eq_ok hsize
    refine (first_addObject (K := (· = .node (.constant (List.replicate (volume dims) 0))))
      rfl).bind fun o w' hfirst => ?_
    exact ⟨inv, hr, .inl ⟨List.isEmpty_iff.1 hempty, dims, o, hdims, rfl, hfirst⟩⟩
  case isFalse hempty =>
    refine Step.ensures_lift (fun _ _ => trivial) fun v hv => ?_
    exact ⟨inv, hr, .inr ⟨fun h => hempty (List.isEmpty_iff.2 h), hv, rfl⟩⟩

/-- The biases that a native conversion gives to the target of a layer, and its
    nonlinearity; most layers have none. -/
def target? : Primitive α → Option (Option (List α) × Option (Nonlinearity α))
  | .dense d => some (d.bias, some (.activation d.activation))
  | .conv c => some (none, some (.activation c.activation))
  | .activation a => some (none, some (.activation a.activation))
  | .relu r => some (none, some (rectifier r.negativeSlope))
  | .leakyRelu r => some (none, some (.neuron (.leaky r.alpha 1)))
  | .merge _ | .pool _ | .batchNorm _ | .concatenate _ | .upSampling _ | .zeroPadding _ =>
    some (none, none)
  | .input _ | .flatten | .reshape _ | .custom _ => none

/-- The kinds of objects that are made for an output of the given dimensions:
    they have a value for each of its places.  Those of entries hold zeros, and
    those of other layers are what the settings make of their nonlinearities. -/
structure Fills (s : Settings α) (l : LayerId) (wrapped : Bool) (p : Primitive α)
    (dims : List Nat) (kind : ObjectKind α) : Prop where
  size : kind.sizeOut = volume dims
  entry : wrapped = false → ∀ d, p = .input d →
    kind = .node (.constant (List.replicate (volume dims) 0))
  target : wrapped = false → ∀ biases n, target? p = some (biases, n) →
    kind = s.targetKind l biases n dims

/-- What a way of conversion gives for an invocation: all of the first object
    that it adds, or what it hands on. -/
def Result (wrapped : Bool) (p : Primitive α) (i : InvocationId) (w : Workspace α) (v : View)
    (w' : Workspace α) : Prop :=
  (¬HandsOn w.graph i wrapped p ∧ ∃ dims o, w.outputDims i = .ok dims ∧ v = .full o ∧
    w.First (Fills w.settings i.layer wrapped p dims) o w') ∨
  (HandsOn w.graph i wrapped p ∧ w.inputView i 0 = .ok v ∧ w' = w)

theorem result_of_target {p : Primitive α} {s : Step (Workspace α) View}
    {biases : Option (List α)} {n : Option (Nonlinearity α)} (h : MakesTarget biases n i w s)
    (hn : ¬HandsOn w.graph i false p) (hp : target? p = some (biases, n)) :
    s.Ensures w (fun _ => True) (Result false p i w) := by
  refine Step.Ensures.imp h ?_
  rintro v w' ⟨dims, o, hdims, hv, ho, x, hx, hk⟩
  refine .inl ⟨hn, dims, o, hdims, hv, ho, x, hx, ?_, ?_, ?_⟩
  · rw [hk]
    exact sizeOut_targetKind _
  · rintro - d rfl
    cases hp
  · rintro - biases' n' hp'
    obtain ⟨rfl, rfl⟩ := Prod.mk.inj (Option.some.inj (hp.symm.trans hp'))
    exact hk

theorem result_convertWrapped {p : Primitive α} :
    (convertWrapped p i).Ensures w (fun _ => True) (Result true p i w) := by
  refine Step.Ensures.imp makes_convertWrapped ?_
  rintro v w' ⟨dims, o, hdims, hv, ho, x, hx, hsize⟩
  exact .inl ⟨nofun, dims, o, hdims, hv, ho, x, hx, hsize, nofun, nofun⟩

theorem result_convertPassing {p : Primitive α} (hp : HandsOn w.graph i false p) :
    (convertPassing i).Ensures w (fun _ => True) (Result false p i w) :=
  Step.ensures_get_bind (Step.ensures_lift (fun _ _ => trivial) fun _ hv => .inr ⟨hp, hv, rfl⟩)

theorem result_convertInput {d : InputLayer} :
    (convertInput i).Ensures w (fun _ => True) (Result false (.input d) i w) := by
  refine ensures_convertInput.imp ?_
  rintro v w' ⟨inv, hr, ⟨hempty, dims, o, hdims, hv, ho, x, hx, hk⟩ | ⟨hfed, hv, hw⟩⟩
  · refine .inl ⟨?_, dims, o, hdims, hv, ho, x, hx, ?_, fun _ _ _ => hk, nofun⟩
    · rintro ⟨⟩
      obtain rfl := Option.some.inj (hr.symm.trans ‹_›)
      exact absurd hempty ‹_›
    · simp [hk, ObjectKind.sizeOut, Node.sizeOut]
  · exact .inr ⟨.entry d hr hfed, hv, hw⟩

/-- **The view of an invocation** is all of an object that is made for it, or
    that of its first input. -/
theorem Conversion.result {wrapped : Bool} {p : Primitive α}
    {c : InvocationId → Step (Workspace α) View} (h : Conversion wrapped p c) :
    (c i).Ensures w (fun _ => True) (Result wrapped p i w) := by
  cases h with
  | wrapped => exact result_convertWrapped
  | input d => exact result_convertInput
  | dense => exact result_of_target makes_convertDense nofun rfl
  | conv => exact result_of_target makes_convertConv nofun rfl
  | pool => exact result_of_target makes_convertPool nofun rfl
  | activation => exact result_of_target makes_convertNonlinearity nofun rfl
  | merge => exact result_of_target makes_convertMerge nofun rfl
  | batchNorm => exact result_of_target makes_convertBatchNorm nofun rfl
  | concatenate => exact result_of_target makes_convertConcatenate nofun rfl
  | flatten => exact result_convertPassing .flatten
  | reshape r => exact result_convertPassing (.reshape r)
  | relu => exact result_of_target makes_convertNonlinearity nofun rfl
  | leakyRelu => exact result_of_target makes_convertNonlinearity nofun rfl
  | upSampling => exact result_of_target makes_convertUpSampling nofun rfl
  | zeroPadding => exact result_of_target makes_convertZeroPadding nofun rfl

end Rule
end Neuroform

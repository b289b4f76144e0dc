/-
  Neuroform — networks whose firing rates are scaled.

  The gain and the biases of a scaled ensemble are larger by a factor that its
  amplitude is smaller by (`Ensemble.Scaled`).  Networks that differ in this
  only (`Network.Scaled`) grow and are read alike.  The rates of rectifiers are
  homogeneous, so in exact arithmetic networks of them settle on the same
  values (`Network.Scaled.predict`).
-/
import Neuroform.Network.Simulate
import Neuroform.Proofs.Agreement
import Neuroform.Proofs.Network.Parts
import Neuroform.Proofs.Rational

namespace Neuroform

variable {α β : Type} [Scalar α]

/-! ## Scaled objects -/

/-- An ensemble without gain, and what becomes of it if its firing rates are
    scaled.  The biases of an ensemble without any stay zero. -/
inductive Ensemble.Scaled (k : α) : Ensemble α → Ensemble α → Prop where
  | biased (size : Nat) (n : Neuron α) (bias : List α) : Scaled k
    ⟨size, n, List.replicate size 1, bias⟩
    ⟨size, n.mapAmplitude (· / k), List.replicate size k, bias.map (· * k)⟩
  | plain (size : Nat) (n : Neuron α) : Scaled k
    ⟨size, n, List.replicate size 1, List.replicate size 0⟩
    ⟨size, n.mapAmplitude (· / k), List.replicate size k, List.replicate size 0⟩

/-- Objects that are equal but for a scaling of ensembles, by one of some
    factors. -/
inductive ObjectKind.Scaled (P : α → Prop) : ObjectKind α → ObjectKind α → Prop where
  | same (k : ObjectKind α) : Scaled P k k
  | neurons {k : α} {e e' : Ensemble α} (factor : P k) (scaled : e.Scaled k e') :
    Scaled P (.neurons e) (.neurons e')

structure Object.Scaled (P : α → Prop) (o o' : Object α) : Prop where
  label : o'.label = o.label
  kind : o.kind.Scaled P o'.kind
  trainable : o'.trainable = o.trainable

/-- Networks that are equal but for a scaling of their ensembles. -/
structure Network.Scaled (P : α → Prop) (n n' : Network α) : Prop where
  label : n'.label = n.label
  inferenceOnly : n'.inferenceOnly = n.inferenceOnly
  objects : List.Forall₂ (Object.Scaled P) n.objects.toList n'.objects.toList
  connections : n'.connections = n.connections
  probes : n'.probes = n.probes

variable {P : α → Prop}

namespace ObjectKind.Scaled
variable {k k' : ObjectKind α}

theorem sizeIn (h : k.Scaled P k') : k'.sizeIn = k.sizeIn := by
  rcases h with _ | ⟨-, _ | _⟩ <;> rfl

theorem sizeOut (h : k.Scaled P k') : k'.sizeOut = k.sizeOut := by
  rcases h with _ | ⟨-, _ | _⟩ <;> rfl

theorem isNeurons (h : k.Scaled P k') : k'.isNeurons = k.isNeurons := by
  rcases h with _ | ⟨-, _ | _⟩ <;> rfl

theorem isConstant (h : k.Scaled P k') : k'.isConstant = k.isConstant := by
  rcases h with _ | ⟨-, _ | _⟩ <;> rfl

theorem typeName (h : k.Scaled P k') : k'.typeName = k.typeName := by
  rcases h with _ | ⟨-, _ | _⟩ <;> rfl

theorem imp {P' : α → Prop} (h : k.Scaled P k') (hp : ∀ k, P k → P' k) : k.Scaled P' k' := by
  rcases h with _ | ⟨hk, hs⟩
  · exact .same _
  · exact .neurons (hp _ hk) hs

end ObjectKind.Scaled

theorem Object.Scaled.text {o o' : Object α} (h : o.Scaled P o') : o'.text = o.text := by
  rw [Object.text, Object.text, h.label, h.kind.typeName]

omit [Scalar α] in
theorem forall₂_modify {R : β → β → Prop} {f : β → β} (hf : ∀ b c, R b c → R (f b) (f c))
    {xs ys : List β} (h : List.Forall₂ R xs ys) (i : Nat) :
    List.Forall₂ R (xs.modify i f) (ys.modify i f) := by
  induction h generalizing i with
  | nil => simp
  | cons hbc h ih =>
    cases i with
    | zero => simpa using ⟨hf _ _ hbc, h⟩
    | succ i => simpa using ⟨hbc, ih i⟩

omit [Scalar α] in
/-- A loop over related entries, if they are not told apart. -/
theorem forM_congr {R : β → β → Prop} {f : β → Outcome PUnit} {xs ys : List β}
    (h : List.Forall₂ R xs ys) (hf : ∀ b c, R b c → f c = f b) : ys.forM f = xs.forM f := by
  induction h with
  | nil => rfl
  | cons hbc _ ih =>
    change (f _ >>= fun _ => List.forM _ f) = (f _ >>= fun _ => List.forM _ f)
    rw [hf _ _ hbc, ih]

namespace Network
variable {n n' : Network α} {γ : Type}

/-! ## Scaled networks are read alike -/

namespace Scaled

theorem imp {P' : α → Prop} (h : n.Scaled P n') (hp : ∀ k, P k → P' k) : n.Scaled P' n' :=
  { h with objects := h.objects.imp fun _ _ ho => { ho with kind := ho.kind.imp hp } }

theorem refl : n.Scaled P n where
  label := rfl
  inferenceOnly := rfl
  objects := List.forall₂_same.2 fun _ _ => ⟨rfl, .same _, rfl⟩
  connections := rfl
  probes := rfl

variable (h : n.Scaled P n')
include h

theorem size_objects : n'.objects.size = n.objects.size := by simpa using h.objects.length_eq.symm

theorem object (o : ObjectId) : (∃ e, n.object o = .error e ∧ n'.object o = .error e) ∨
    ∃ x x', n.object o = .ok x ∧ n'.object o = .ok x' ∧ x.Scaled P x' := by
  simp only [Network.object]
  cases hx : n.objects[o.index]? with
  | none =>
    have hx' : n'.objects[o.index]? = none := by
      rw [Array.getElem?_eq_none_iff, h.size_objects]
      exact Array.getElem?_eq_none_iff.1 hx
    exact .inl ⟨_, rfl, by rw [hx', h.label]; rfl⟩
  | some x =>
    rw [← Array.getElem?_toList] at hx
    obtain ⟨x', hx', hr⟩ := forall₂_getElem? h.objects hx
    rw [Array.getElem?_toList] at hx'
    exact .inr ⟨x, x', rfl, by rw [hx']; rfl, hr⟩

/-- What is done with an object does not depend on its scaling. -/
theorem object_bind {o : ObjectId} {f f' : Object α → Outcome γ}
    (hf : ∀ x x', n.object o = .ok x → x.Scaled P x' → f' x' = f x) :
    (n'.object o >>= f') = (n.object o >>= f) := by
  obtain ⟨e, he, he'⟩ | ⟨x, x', hx, hx', hr⟩ := h.object o
  · rw [he, he']
    rfl
  · rw [hx, hx']
    exact hf x x' hx hr

theorem viewSize {v : View} {size : Nat} : n'.viewSize v size = n.viewSize v size := by
  unfold Network.viewSize
  split
  · rfl
  · split
    · exact h.object_bind fun x x' _ hx => by rw [hx.text]
    · rfl

theorem viewSizeOut {v : View} : n'.viewSizeOut v = n.viewSizeOut v :=
  h.object_bind fun x x' _ hx => by rw [hx.kind.sizeOut, h.viewSize]

theorem viewSizeIn {v : View} : n'.viewSizeIn v = n.viewSizeIn v :=
  h.object_bind fun x x' _ hx => by simp only [hx.kind.sizeIn, h.viewSize]

/-! ## Scaled networks grow alike -/

theorem pushObject {x x' : Object α} (hx : x.Scaled P x') :
    (n.extend (.object x)).Scaled P (n'.extend (.object x')) where
  label := h.label
  inferenceOnly := h.inferenceOnly
  objects := by simpa [extend, Part.object] using List.rel_append h.objects (.cons hx .nil)
  connections := by simp [extend, Part.object, h.connections]
  probes := h.probes

end Scaled

theorem agrees_addObject {kind kind' : ObjectKind α} {label : String} (h : n.Scaled P n')
    (hk : kind.Scaled P kind') :
    Step.Agrees (Scaled P) (fun _ => True) (addObject kind label) (addObject kind' label) n n' := by
  have he' : (addObject kind' label).exec n' =
      (.ok ⟨n.objects.size⟩, n'.extend (.object ⟨label, kind', none⟩)) := by
    rw [exec_addObject, h.size_objects]
  exact .of_exec (exec_addObject kind label) he' (h.pushObject ⟨rfl, hk, rfl⟩) fun _ _ => trivial

theorem respects_addObject {kind : ObjectKind α} {label : String} :
    Step.Respects (Scaled P) (addObject kind label) := fun _ _ h => agrees_addObject h (.same kind)

theorem respects_connect {pre post : View} {t : Transform α} {synapse : Option (Synapse α)} :
    Step.Respects (Scaled P) (connect pre post t synapse) := by
  intro n n' h
  refine .get_bind ?_
  rw [h.viewSizeOut, h.viewSizeIn]
  refine .lift_bind h fun _ _ => .lift_bind h fun _ _ =>
    .lift_bind₂ h (h.object _) fun x x' hx => .lift_bind₂ h (h.object _) fun y y' hy => ?_
  rw [hx.text, hy.text, h.connections]
  refine .lift_bind h fun _ _ => ?_
  cases synapse with
  | none => exact .of_exec rfl rfl { h with connections := rfl } fun _ _ => trivial
  | some s =>
    exact .lift_bind h fun _ _ => .of_exec rfl rfl { h with connections := rfl } fun _ _ => trivial

theorem respects_setTrainable {key : TrainableKey} {flag : Option Bool} :
    Step.Respects (Scaled P) (setTrainable key flag) := by
  intro n n' h
  refine .get_bind ?_
  cases key with
  | object o =>
    refine .lift_bind₂ h (h.object o) fun _ _ _ =>
      .of_exec rfl rfl { h with objects := ?_ } fun _ _ => trivial
    have hflag : ∀ x x' : Object α, x.Scaled P x' →
        Object.Scaled P { x with trainable := flag } { x' with trainable := flag } :=
      fun _ _ hx => ⟨hx.label, hx.kind, rfl⟩
    simpa using forall₂_modify hflag h.objects o.index
  | connection c =>
    have hc : n'.connection c = n.connection c := by
      simp only [connection, h.connections, h.label]
    dsimp only
    rw [hc]
    exact .lift_bind h fun _ _ => .of_exec rfl rfl { h with connections := by rw [h.connections] }
      fun _ _ => trivial

theorem respects_addProbe {v : View} {synapse : Option (Synapse α)} :
    Step.Respects (Scaled P) (addProbe v synapse) := by
  intro n n' h
  refine .get_bind ?_
  rw [h.viewSizeOut, h.probes]
  exact .lift_bind h fun _ _ => .of_exec rfl rfl { h with probes := rfl } fun _ _ => trivial

end Network

/-! ## Rates -/

/-- Types whose rates are in proportion to their input on each side of zero. -/
def Neuron.isRectifier : Neuron α → Bool
  | rectified _ | spikingRectified _ | leaky _ _ | spikingLeaky _ _ => true
  | _ => false

/-- Whether the neurons of an object, if it has any, are rectifiers. -/
def ObjectKind.rectifies : ObjectKind α → Bool
  | .neurons e => e.neuron.isRectifier
  | _ => true

/-- Rectifiers are homogeneous. -/
theorem Neuron.rate_scaled (hα : Exact α) {n : Neuron α} (hn : n.isRectifier) {k : α} (hk : 0 < k)
    (x : α) : (n.mapAmplitude (· / k)).rate (x * k) = n.rate x := by
  have hrectified : ∀ a, a / k * larger (x * k) 0 = a * larger x 0 := fun a => by
    rw [hα.larger_mul x hk, hα.div_mul_mul a _ hk]
  have hleaky : ∀ slope a, (a / k * if 0 < x * k then x * k else slope * (x * k)) =
      a * if 0 < x then x else slope * x := fun slope a => by
    by_cases hx : 0 < x
    · rw [if_pos hx, if_pos ((hα.mul_pos_iff x k hk).2 hx), hα.div_mul_mul a x hk]
    · rw [if_neg hx, if_neg (mt (hα.mul_pos_iff x k hk).1 hx), ← hα.mul_assoc slope,
        hα.div_mul_mul a _ hk]
  cases n with
  | rectified a => exact hrectified a
  | spikingRectified a => exact hrectified a
  | leaky slope a => exact hleaky slope a
  | spikingLeaky slope a => exact hleaky slope a
  | _ => cases hn

namespace Grid
variable {f g : α → α}

omit [Scalar α] in
theorem map_ofFn (shape : List Nat) (v : List Nat → α) :
    (ofFn shape v).map f = ofFn shape fun p => f (v p) := by
  simp [ofFn, map, Function.comp_def]

omit [Scalar α] in
theorem map_id (x : Grid α) : x.map id = x := by simp [map]

omit [Scalar α] in
theorem map_map (x : Grid α) : (x.map f).map g = x.map (g ∘ f) := by simp [map]

omit [Scalar α] in
theorem ofList_map (xs : List α) : ofList (xs.map f) = (ofList xs).map f := by
  simp [ofList, map]

theorem value_map_of_zero (hf : f 0 = 0) (x : Grid α) (p : List Nat) :
    (x.map f).value p = f (x.value p) := by
  simp only [value, map, Array.getD_eq_getD_getElem?, Array.getElem?_map]
  cases x.cells[offset x.shape p]? <;> simp [hf]

/-- A change of values may be made after grids are combined. -/
theorem combine_map {op : α → α → α} (hf : f 0 = 0) (hg : g 0 = 0)
    (hop : ∀ a b, op (f a) (g b) = g (op a b)) (x y : Grid α) :
    (x.map f).combine op (y.map g) = map g <$> x.combine op y := by
  unfold combine
  change (orFault (commonShape? x.shape y.shape) >>= _) = _
  cases commonShape? x.shape y.shape with
  | none => rfl
  | some shape =>
    have hx : ∀ p, (x.map f).stretchedValue p = f (x.stretchedValue p) :=
      fun p => value_map_of_zero hf x _
    have hy : ∀ p, (y.map g).stretchedValue p = g (y.stretchedValue p) :=
      fun p => value_map_of_zero hg y _
    refine congrArg Except.ok ((congrArg _ (funext fun p => ?_)).trans (map_ofFn shape _).symm)
    rw [hx, hy, hop]

end Grid

/-- The rates of a scaled rectifier are those of the rectifier. -/
theorem Ensemble.Scaled.rates (hα : Exact α) {k : α} (hk : 0 < k) {e e' : Ensemble α}
    (h : e.Scaled k e') (hn : e.neuron.isRectifier) (input : Table α) :
    e'.rates input = e.rates input := by
  have hform : e' = ⟨e.size, e.neuron.mapAmplitude (· / k), e.gain.map (· * k),
      e.bias.map (· * k)⟩ := by
    cases h <;> simp [hα.one_mul, hα.zero_mul]
  have hgain : input.toGrid.combine (· * ·) ((Grid.ofList e.gain).map (· * k)) =
      Grid.map (· * k) <$> input.toGrid.combine (· * ·) (Grid.ofList e.gain) := by
    have h := Grid.combine_map (f := id) rfl (hα.zero_mul k)
      (fun a b => (hα.mul_assoc a b k).symm) input.toGrid (Grid.ofList e.gain)
    rwa [Grid.map_id] at h
  have hbias : ∀ driven : Grid α,
      (driven.map (· * k)).combine (· + ·) ((Grid.ofList e.bias).map (· * k)) =
        Grid.map (· * k) <$> driven.combine (· + ·) (Grid.ofList e.bias) :=
    fun driven => Grid.combine_map (hα.zero_mul k) (hα.zero_mul k)
      (fun a b => (hα.add_mul a b k).symm) driven _
  have hrate : ∀ current : Grid α, (current.map (· * k)).map
      (e.neuron.mapAmplitude (· / k)).rate = current.map e.neuron.rate := by
    intro current
    rw [Grid.map_map]
    exact congrArg (Grid.map · current) (funext fun x => Neuron.rate_scaled hα hn hk x)
  rw [hform, Ensemble.rates, Ensemble.rates]
  simp only [Grid.ofList_map, hgain, hbias, bind_map_left, hrate]

namespace Network
variable {n n' : Network α}

theorem react_scaled (hα : Exact α) {o o' : Object α} (h : o.Scaled (0 < ·) o')
    (hn : ∀ e, o.kind = .neurons e → e.neuron.isRectifier) (fed : Option (Table α)) (batch : Nat)
    (input : Table α) : react o' fed batch input = react o fed batch input := by
  have htext := h.text
  obtain ⟨label, kind, flag⟩ := o
  obtain ⟨label', kind', flag'⟩ := o'
  obtain ⟨rfl, hkind, rfl⟩ := h
  cases hkind with
  | same k => rfl
  | neurons hk hs =>
    simp only [react, hs.rates hα hk (hn _ rfl)]

namespace Scaled

theorem connectionsInto (h : n.Scaled P n') : n'.connectionsInto = n.connectionsInto := by
  funext o
  simp only [Network.connectionsInto, allConnections, h.connections]

theorem advance (h : n.Scaled P n') : ∀ {steps : Nat} {s : Schedule},
    n'.advance steps s = n.advance steps s
  | 0, _ => rfl
  | steps + 1, s => by
    have hsuccessors : n'.successors = n.successors := by
      funext o
      simp only [successors, connectionsFrom, allConnections, h.connections]
    simp only [Network.advance, hsuccessors, h.advance]

theorem order (h : n.Scaled P n') : n'.order = n.order := by
  have hstart : n'.initialSchedule = n.initialSchedule := by
    rw [initialSchedule, initialSchedule, h.connectionsInto, h.size_objects]
  simp only [Network.order, hstart, h.advance, h.size_objects, h.label]
  split
  · rfl
  · refine congrArg _ (funext fun stuck => ?_)
    exact h.object_bind fun x x' _ hx => by rw [hx.text]

theorem requireSpace (h : n.Scaled P n') {batch : Nat} :
    n'.requireSpace batch = n.requireSpace batch := by
  refine forM_congr h.objects fun x x' hx => ?_
  simp only [hx.kind.sizeIn, hx.kind.sizeOut, hx.kind.isConstant]

variable (h : n.Scaled (0 < ·) n') (hα : Exact α)
  (hn : ∀ o ∈ n.objects, ∀ e, o.kind = .neurons e → e.neuron.isRectifier)
include h

theorem checkFed {batch : Nat} : n'.checkFed batch = n.checkFed batch := by
  funext fed
  exact h.object_bind fun x x' _ hx => by
    simp only [hx.text, hx.kind.isConstant, hx.kind.sizeOut]

include hα hn

theorem evaluate {fed : States α} {batch : Nat} : n'.evaluate fed batch = n.evaluate fed batch := by
  funext states o
  have hinput : n'.inputOf = n.inputOf := by
    funext states batch o size
    rw [inputOf, inputOf, h.connectionsInto]
  refine h.object_bind fun x x' hx hs => ?_
  have hx := Array.mem_of_getElem? (orRefuse_eq_ok.1 hx)
  simp only [hs.kind.sizeIn, hinput, react_scaled hα hs (hn x hx)]

/-- **Scaled rectifiers settle on the same values.** -/
theorem predict (fed : States α) (batch : Nat) : n'.predict fed batch = n.predict fed batch := by
  simp only [Network.predict, simulate, settle, h.order, h.checkFed, h.requireSpace,
    h.evaluate hα hn, h.probes]

end Scaled
end Network
end Neuroform

/-
  Neuroform — networks that can be built.

  A network is reachable if calls of its operations build it from one without
  parts, whether or not each of them succeeds (`Network.Reachable`).  A call
  that fails changes nothing; one that succeeds names a new part by its place or
  sets a flag (`Network.Does`), so that names keep their parts
  (`Network.Before`).
-/
import Neuroform.Proofs.Network.Convolving
import Neuroform.Proofs.Network.Sketch

namespace Neuroform

variable {α : Type}

/-! ## Steps that change nothing when they fail -/

namespace Step
variable {σ β γ : Type} {s : Step σ β} {f : β → Step σ γ} {x : σ} {Q : β → σ → Prop}
  {R : γ → σ → Prop}

/-- A step fails and leaves the state as it is, or it succeeds with a result and
    a state that have a property. -/
def Atomic (s : Step σ β) (x : σ) (Q : β → σ → Prop) : Prop :=
  match s.exec x with
  | (.error _, y) => y = x
  | (.ok b, y) => Q b y

theorem Atomic.of_ok {b : β} {y : σ} (h : s.Atomic x Q) (he : s.exec x = (.ok b, y)) : Q b y := by
  rwa [Atomic, he] at h

theorem Atomic.of_error {e : Failure} {y : σ} (h : s.Atomic x Q) (he : s.exec x = (.error e, y)) :
    y = x := by
  rwa [Atomic, he] at h

theorem atomic_get_bind {f : σ → Step σ γ} (h : (f x).Atomic x R) : (get >>= f).Atomic x R := by
  rwa [Atomic, exec_get_bind]

/-- What is read before anything is changed. -/
theorem atomic_lift_bind {o : Outcome β} (h : ∀ b, o = .ok b → (f b).Atomic x R) :
    (liftM o >>= f).Atomic x R := by
  rw [Atomic, exec_lift_bind]
  cases o with
  | error e => rfl
  | ok b => exact h b rfl

theorem Atomic.map (h : s.Atomic x Q) {g : β → γ} (hg : ∀ b y, Q b y → R (g b) y) :
    (do return g (← s)).Atomic x R := by
  rw [Atomic, exec_bind]
  rcases he : s.exec x with ⟨e | b, y⟩
  · exact h.of_error he
  · exact hg b y (h.of_ok he)

end Step

/-! ## What may be added -/

/-- The gain and bias of an ensemble have an entry per neuron. -/
def ObjectKind.WellFormed : ObjectKind α → Prop
  | neurons e => e.gain.length = e.size ∧ e.bias.length = e.size
  | _ => True

/-- A convolution is one that `make` gives, with windows that have taps and
    move. -/
def Transform.WellFormed : Transform α → Prop
  | convolution c => c.WellFormed
  | _ => True

/-- An object without its trainability flag. -/
def Object.unflagged (o : Object α) : Object α := { o with trainable := none }

/-- A connection without its trainability flag. -/
def Connection.unflagged (c : Connection α) : Connection α := { c with trainable := none }

namespace Network

/-! ## Operations -/

section
variable {n : Network α}

theorem atomic_connect [Scalar α] (pre post : View) (t : Transform α)
    (synapse : Option (Synapse α)) :
    (connect pre post t synapse).Atomic n fun c m => n.sketch.Joins ⟨pre, post, t⟩ ∧
      c = ⟨n.connections.size⟩ ∧
      m = { n with connections := n.connections.push ⟨pre, post, t, synapse, none⟩ } := by
  refine Step.atomic_get_bind (Step.atomic_lift_bind fun a ha => Step.atomic_lift_bind fun b hb =>
    Step.atomic_lift_bind fun _ _ => Step.atomic_lift_bind fun _ _ =>
      Step.atomic_lift_bind fun _ hc => ?_)
  obtain ⟨kin, hin, ha⟩ := viewSizeOut_eq_ok.1 ha
  obtain ⟨kout, size, hout, hsize, hb⟩ := viewSizeIn_eq_ok.1 hb
  have joins : n.sketch.Joins ⟨pre, post, t⟩ :=
    ⟨kin, kout, size, a, b, hin, ha, hout, hsize, hb, within_eq_ok.1 hc⟩
  cases synapse with
  | none => exact ⟨joins, rfl, rfl⟩
  | some s => exact Step.atomic_lift_bind fun _ _ => ⟨joins, rfl, rfl⟩

theorem atomic_addProbe (target : View) (synapse : Option (Synapse α)) :
    (addProbe target synapse).Atomic n fun p m => (∃ size, n.viewSizeOut target = .ok size) ∧
      p = ⟨n.probes.size⟩ ∧ m = { n with probes := n.probes.push ⟨target, synapse⟩ } :=
  Step.atomic_get_bind (Step.atomic_lift_bind fun size hs => ⟨⟨size, hs⟩, rfl, rfl⟩)

theorem atomic_flagObject (o : ObjectId) (flag : Option Bool) :
    (setTrainable (.object o) flag).Atomic n fun _ m => (∃ x, n.object o = .ok x) ∧
      m = { n with objects := n.objects.modify o.index ({ · with trainable := flag }) } :=
  Step.atomic_get_bind (Step.atomic_lift_bind fun x hx => ⟨⟨x, hx⟩, rfl⟩)

theorem atomic_flagConnection (c : ConnectionId) (flag : Option Bool) :
    (setTrainable (.connection c) flag).Atomic n fun _ m => (∃ x, n.connection c = .ok x) ∧
      m = { n with connections := n.connections.modify c.index ({ · with trainable := flag }) } :=
  Step.atomic_get_bind (Step.atomic_lift_bind fun x hx => ⟨⟨x, hx⟩, rfl⟩)

end

/-! ## Calls -/

/-- A call of an operation on a network. -/
inductive Call (α : Type) where
  | add (kind : ObjectKind α) (label : String)
  | connect (pre post : View) (transform : Transform α) (synapse : Option (Synapse α))
  | probe (target : View) (synapse : Option (Synapse α))
  | setTrainable (key : TrainableKey) (trainable : Option Bool)

/-- The name of a part of a network. -/
inductive Name where
  | object (o : ObjectId)
  | connection (c : ConnectionId)
  | probe (p : ProbeId)

/-- What is added is well-formed. -/
def Call.WellFormed : Call α → Prop
  | add kind _ => kind.WellFormed
  | connect _ _ transform _ => transform.WellFormed
  | _ => True

/-- Runs a call; it gives the name of the part that it adds. -/
def Call.step [Scalar α] : Call α → Step (Network α) (Option Name)
  | add kind label => do return some (.object (← addObject kind label))
  | connect pre post transform synapse => do
    return some (.connection (← Network.connect pre post transform synapse))
  | probe target synapse => do return some (.probe (← addProbe target synapse))
  | setTrainable key trainable => do
    Network.setTrainable key trainable
    return none

/-- The result of a call that succeeds, and the network behind it. -/
inductive Does (n : Network α) : Call α → Option Name → Network α → Prop where
  | add (kind : ObjectKind α) (label : String) :
    Does n (.add kind label) (some (.object ⟨n.objects.size⟩))
      { n with objects := n.objects.push ⟨label, kind, none⟩ }
  | connect {pre post : View} {t : Transform α} {synapse : Option (Synapse α)}
      (joins : n.sketch.Joins ⟨pre, post, t⟩) :
    Does n (.connect pre post t synapse) (some (.connection ⟨n.connections.size⟩))
      { n with connections := n.connections.push ⟨pre, post, t, synapse, none⟩ }
  | probe {target : View} {synapse : Option (Synapse α)} {size : Nat}
      (shows : n.viewSizeOut target = .ok size) :
    Does n (.probe target synapse) (some (.probe ⟨n.probes.size⟩))
      { n with probes := n.probes.push ⟨target, synapse⟩ }
  | flagObject {o : ObjectId} {x : Object α} (found : n.object o = .ok x) (flag : Option Bool) :
    Does n (.setTrainable (.object o) flag) none
      { n with objects := n.objects.modify o.index ({ · with trainable := flag }) }
  | flagConnection {c : ConnectionId} {x : Connection α} (found : n.connection c = .ok x)
      (flag : Option Bool) :
    Does n (.setTrainable (.connection c) flag) none
      { n with connections := n.connections.modify c.index ({ · with trainable := flag }) }

/-- A call that fails changes nothing, and one that succeeds does what it is
    for. -/
theorem atomic_step [Scalar α] (n : Network α) (c : Call α) : c.step.Atomic n (n.Does c) := by
  cases c with
  | add kind label => exact .add kind label
  | connect pre post t synapse =>
    refine (atomic_connect pre post t synapse).map ?_
    rintro _ _ ⟨joins, rfl, rfl⟩
    exact .connect joins
  | probe target synapse =>
    refine (atomic_addProbe target synapse).map ?_
    rintro _ _ ⟨⟨size, shows⟩, rfl, rfl⟩
    exact .probe shows
  | setTrainable key flag =>
    cases key with
    | object o =>
      refine (atomic_flagObject o flag).map ?_
      rintro _ _ ⟨⟨x, found⟩, rfl⟩
      exact .flagObject found flag
    | connection c =>
      refine (atomic_flagConnection c flag).map ?_
      rintro _ _ ⟨⟨x, found⟩, rfl⟩
      exact .flagConnection found flag

/-! ## Names -/

/-- The parts of a network are the first ones of a later network, up to their
    trainability flags. -/
structure Before (n m : Network α) : Prop where
  objects : n.objects.toList.map Object.unflagged <+: m.objects.toList.map Object.unflagged
  connections : n.connections.toList.map Connection.unflagged <+:
    m.connections.toList.map Connection.unflagged
  probes : n.probes.toList <+: m.probes.toList

theorem Before.refl (n : Network α) : n.Before n :=
  ⟨List.prefix_rfl, List.prefix_rfl, List.prefix_rfl⟩

theorem Before.trans {n m k : Network α} (h : n.Before m) (h' : m.Before k) : n.Before k :=
  ⟨h.objects.trans h'.objects, h.connections.trans h'.connections, h.probes.trans h'.probes⟩

theorem map_modify {β γ : Type} {f : β → β} {g : β → γ} (h : ∀ x, g (f x) = g x) (xs : Array β)
    (j : Nat) : (xs.modify j f).toList.map g = xs.toList.map g := by
  refine List.ext_getElem? fun k => ?_
  simp only [List.getElem?_map, Array.getElem?_toList, Array.getElem?_modify]
  split
  · rw [Option.map_map]
    exact congrArg (Option.map · _) (funext h)
  · rfl

theorem Does.before {n m : Network α} {c : Call α} {name : Option Name} (h : n.Does c name m) :
    n.Before m := by
  cases h with
  | add => exact ⟨by simp, List.prefix_rfl, List.prefix_rfl⟩
  | connect => exact ⟨List.prefix_rfl, by simp, List.prefix_rfl⟩
  | probe => exact ⟨List.prefix_rfl, List.prefix_rfl, by simp⟩
  | flagObject =>
    refine ⟨?_, List.prefix_rfl, List.prefix_rfl⟩
    rw [map_modify]
    · exact fun _ => rfl
  | flagConnection =>
    refine ⟨List.prefix_rfl, ?_, List.prefix_rfl⟩
    rw [map_modify]
    · exact fun _ => rfl

/-! ## Reachable networks -/

section
variable [Scalar α] {n m : Network α}

/-- A network is built from another one by calls, those that fail included. -/
inductive Reaches (n : Network α) : Network α → Prop where
  | refl : Reaches n n
  | call {m : Network α} (h : Reaches n m) (c : Call α) (hc : c.WellFormed) :
    Reaches n (c.step.exec m).2

/-- A network is built from one without parts. -/
def Reachable (n : Network α) : Prop :=
  ∃ label inferenceOnly, (empty label inferenceOnly).Reaches n

theorem Reaches.before (h : n.Reaches m) : n.Before m := by
  induction h with
  | refl => exact .refl n
  | @call m _ c _ ih =>
    rcases he : c.step.exec m with ⟨_ | name, m'⟩
    · exact (atomic_step m c).of_error he ▸ ih
    · exact ih.trans ((atomic_step m c).of_ok he).before

/-- What holds of networks without parts and is kept by what calls do holds of
    reachable networks. -/
theorem Reachable.induction {P : Network α → Prop}
    (empty : ∀ label inferenceOnly, P (Network.empty label inferenceOnly))
    (does : ∀ {n c name m}, c.WellFormed → n.Does c name m → P n → P m) (h : n.Reachable) : P n := by
  obtain ⟨label, inferenceOnly, h⟩ := h
  induction h with
  | refl => exact empty label inferenceOnly
  | @call m _ c hc ih =>
    rcases he : c.step.exec m with ⟨_ | name, m'⟩
    · exact (atomic_step m c).of_error he ▸ ih
    · exact does hc ((atomic_step m c).of_ok he) ih

/-! ## What is checked stays checked -/

/-- All that is added has been checked. -/
structure Sound (n : Network α) : Prop where
  kinds : ∀ k ∈ n.sketch.kinds, k.WellFormed
  transforms : ∀ w ∈ n.sketch.wires, w.transform.WellFormed
  checked : n.sketch.Checked
  probes : ∀ p ∈ n.probes, ∃ k size, n.sketch.kind? p.target.object = some k ∧
    p.target.Shows k.sizeOut size

omit [Scalar α] in
theorem Sound.of_sketch {s : Sketch α} (h : n.Sound) (hs : m.sketch = n.sketch ++ s)
    (hp : m.probes = n.probes) (kinds : ∀ k ∈ s.kinds, k.WellFormed)
    (wires : ∀ w ∈ s.wires, w.transform.WellFormed ∧ (n.sketch ++ s).Joins w) : m.Sound where
  kinds k hk := by
    rw [hs] at hk
    exact (List.mem_append.1 hk).elim (h.kinds k) (kinds k)
  transforms w hw := by
    rw [hs] at hw
    exact (List.mem_append.1 hw).elim (h.transforms w) fun hw => (wires w hw).1
  checked := hs ▸ h.checked.append fun w hw => (wires w hw).2
  probes p hmem := by
    obtain ⟨k, size, hk, hshows⟩ := h.probes p (hp ▸ hmem)
    exact ⟨k, size, hs ▸ Sketch.kind?_append hk, hshows⟩

omit [Scalar α] in
theorem Does.sound {c : Call α} {name : Option Name} (hc : c.WellFormed) (h : n.Does c name m)
    (hn : n.Sound) : m.Sound := by
  cases h with
  | add kind label =>
    refine hn.of_sketch (s := ⟨[kind], []⟩) ?_ rfl ?_ (by simp)
    · simp [sketch, Sketch.append_def]
    · rintro k hk
      obtain rfl := List.mem_singleton.1 hk
      exact hc
  | @connect pre post t synapse joins =>
    refine hn.of_sketch (s := ⟨[], [⟨pre, post, t⟩]⟩) ?_ rfl (by simp) ?_
    · simp [sketch, Sketch.append_def, Connection.wire]
    · rintro w hw
      obtain rfl := List.mem_singleton.1 hw
      exact ⟨hc, joins.append⟩
  | probe shows =>
    refine ⟨hn.kinds, hn.transforms, hn.checked, fun p hp => ?_⟩
    rcases Array.mem_push.1 hp with hp | rfl
    · exact hn.probes p hp
    · obtain ⟨k, hk, hsize⟩ := viewSizeOut_eq_ok.1 shows
      exact ⟨k, _, hk, hsize⟩
  | flagObject =>
    refine hn.of_sketch (s := ⟨[], []⟩) ?_ rfl (by simp) (by simp)
    rw [Sketch.append_nil]
    exact congrArg₂ Sketch.mk (map_modify (by exact fun _ => rfl) _ _) rfl
  | flagConnection =>
    refine hn.of_sketch (s := ⟨[], []⟩) ?_ rfl (by simp) (by simp)
    rw [Sketch.append_nil]
    exact congrArg₂ Sketch.mk rfl (map_modify (by exact fun _ => rfl) _ _)

theorem Reachable.sound (h : n.Reachable) : n.Sound :=
  h.induction (fun _ _ => ⟨by simp [sketch, empty], by simp [sketch, empty],
    by simp [Sketch.Checked, sketch, empty], by simp [empty]⟩) Does.sound

/-! ## Lists of calls -/

/-- The network behind some calls on one without parts. -/
def build (label : String) (calls : List (Call α)) : Network α :=
  calls.foldl (fun n c => (c.step.exec n).2) (empty label false)

theorem reachable_build {label : String} {calls : List (Call α)} (h : ∀ c ∈ calls, c.WellFormed) :
    (build label calls).Reachable := by
  refine ⟨label, false, ?_⟩
  suffices hrun : ∀ calls : List (Call α), (∀ c ∈ calls, c.WellFormed) → ∀ n,
      (empty label false).Reaches n →
      (empty label false).Reaches (calls.foldl (fun n c => (c.step.exec n).2) n) from
    hrun calls h _ .refl
  intro calls
  induction calls with
  | nil => exact fun _ n hn => hn
  | cons c calls ih =>
    exact fun h n hn => ih (fun c' hc' => h c' (List.mem_cons_of_mem _ hc')) _
      (.call hn c (h c (by simp)))

end
end Network
end Neuroform

/-
  Neuroform — synapses in converted networks.

  What leaves neurons passes the synapse of the settings, and what leaves any
  other object passes none (`Network.Filtered`).  Rules make connections in two
  ways: `connect` asks for the object that the view shows, whatever the view is
  and wherever it comes from; a bias comes from a constant node, and has no
  synapse.  So each step of a rule keeps the connections filtered
  (`Workspace.Composed.filters`), and so does a conversion.
-/
import Neuroform.Proofs.Conversion.Composed
import Neuroform.Proofs.Conversion.Drawing
import Neuroform.Proofs.Conversion.Ends

namespace Neuroform

variable {α : Type} {synapse filter : Option (Synapse α)} {v : View}

/-! ## Filtered networks -/

namespace Network
variable {n m : Network α}

/-- What leaves a view has the synapse `filter` if the view is one of neurons,
    and none otherwise. -/
def Filters (n : Network α) (filter : Option (Synapse α)) (v : View)
    (synapse : Option (Synapse α)) : Prop :=
  ∃ x, n.object v.object = .ok x ∧ synapse = if x.kind.isNeurons then filter else none

/-- All that leaves an object of a network is filtered as its kind asks for. -/
structure Filtered (n : Network α) (filter : Option (Synapse α)) : Prop where
  connections : ∀ c ∈ n.connections, n.Filters filter c.pre c.synapse
  probes : ∀ p ∈ n.probes, n.Filters filter p.target p.synapse

/-- Filters depend on the kinds of objects only. -/
theorem Filters.mono (h : n.Filters filter v synapse)
    (hk : ∀ o k, n.sketch.kind? o = some k → m.sketch.kind? o = some k) :
    m.Filters filter v synapse := by
  obtain ⟨x, hx, hs⟩ := h
  obtain ⟨x', hx', hkind⟩ := kind?_sketch.1 (hk _ _ (kind?_sketch.2 ⟨x, hx, rfl⟩))
  exact ⟨x', hx', hkind ▸ hs⟩

theorem Filters.extend (h : n.Filters filter v synapse) (p : Part α) :
    (n.extend p).Filters filter v synapse :=
  h.mono fun _ _ hk => sketch_extend ▸ Sketch.kind?_append hk

/-- A new node is not filtered. -/
theorem filters_node (label : String) (node : Node α) :
    (n.extend (.object ⟨label, .node node, none⟩)).Filters filter (.full ⟨n.objects.size⟩) none :=
  ⟨_, object_eq_ok.2 (getElem?_extend_object _), rfl⟩

end Network

/-! ## Steps -/

namespace Workspace
variable {w w' : Workspace α}

/-- All connections of a workspace are filtered with the synapse of its
    settings. -/
structure Filtered (w : Workspace α) (filter : Option (Synapse α)) : Prop where
  synapse : w.settings.synapse = filter
  connections : ∀ c ∈ w.network.connections, w.network.Filters filter c.pre c.synapse

theorem synapseOf_eq_ok : w.synapseOf v = .ok synapse ↔
    w.network.Filters w.settings.synapse v synapse := by
  rw [synapseOf, bind_eq_ok]
  simp only [Network.Filters, pure_eq_ok, eq_comm (a := synapse)]

/-- A workspace stays filtered if what it is extended by is. -/
theorem Filtered.extend (h : w.Filtered filter) (p : Part α)
    (hp : ∀ c ∈ p.connections, (w.network.extend p).Filters filter c.pre c.synapse) :
    { w with network := w.network.extend p }.Filtered filter := by
  refine ⟨h.synapse, fun c hc => ?_⟩
  rcases Array.mem_append.1 hc with hc | hc
  · exact (h.connections c hc).extend p
  · exact hp c (List.mem_toArray.1 hc)

theorem Filtered.flag (h : w.Filtered filter) (o : ObjectId) (flag : Option Bool) :
    { w with network := { w.network with
      objects := w.network.objects.modify o.index ({ · with trainable := flag }) } }.Filtered
        filter := by
  refine ⟨h.synapse, fun c hc => (h.connections c hc).mono fun o' k hk => ?_⟩
  rw [Sketch.kind?, Network.sketch, Network.map_modify]
  · exact hk
  · exact fun _ => rfl

variable [Scalar α]

/-- A bias comes from a constant node, and passes no synapse. -/
theorem ensures_attachBias {label : String} {o : ObjectId} {bias : List α} :
    (attachBias label o bias).Ensures w (fun _ => True) fun _ w' =>
      w' = { w with
        network := (w.network.extend
          (.object ⟨s!"{label}.bias", .node (.constant [1]), none⟩)).extend
          (.connection ⟨.full ⟨w.network.objects.size⟩, .full o, .dense (Table.ofColumn bias), none,
            none⟩) } := by
  refine Step.ensures_exec_bind (exec_onNetwork (Network.exec_addObject _ _)) ?_
  refine Step.ensures_of_eq_ok fun _ w' he => ?_
  obtain ⟨c, w₁, hc, he⟩ := Step.exec_bind_eq_ok.1 he
  obtain ⟨n, hn, rfl⟩ := onNetwork_eq_ok.1 hc
  obtain ⟨-, -, rfl⟩ := (Network.atomic_connect _ _ _ _).of_ok hn
  rw [← (Step.exec_pure_eq_ok.1 he).2]
  simp [Network.extend, Part.connection]

/-- **The steps of rules** keep connections filtered. -/
theorem Composed.filters {β : Type} {s : Step (Workspace α) β} (h : Composed s) :
    ∀ {w : Workspace α}, w.Filtered filter →
      s.Ensures w (fun _ => True) fun _ w' => w'.Filtered filter := by
  induction h with
  | pure b => exact fun hw => hw
  | get => exact fun hw => hw
  | lift o => exact fun hw => Step.ensures_lift (fun _ _ => trivial) fun _ _ => hw
  | warn text => exact fun hw => ⟨hw.synapse, hw.connections⟩
  | object kind label =>
    exact fun hw => Step.ensures_of_exec (exec_onNetwork (Network.exec_addObject kind label))
      (hw.extend _ (by simp [Part.object]))
  | flag o flag =>
    refine fun hw => Step.ensures_of_eq_ok fun _ w' he => ?_
    obtain ⟨n, hn, rfl⟩ := onNetwork_eq_ok.1 he
    obtain ⟨-, rfl⟩ := (Network.atomic_flagObject o flag).of_ok hn
    exact hw.flag o flag
  | connect pre post t flag =>
    intro w hw
    refine ensures_connect.mono (fun _ _ => trivial) ?_
    rintro _ _ ⟨synapse, hs, rfl⟩
    have hpre : w.network.Filters filter pre synapse := hw.synapse ▸ synapseOf_eq_ok.1 hs
    refine hw.extend _ fun c hc => ?_
    obtain rfl := List.mem_singleton.1 hc
    exact hpre.extend _
  | attachBias label o bias =>
    intro w hw
    refine ensures_attachBias.imp ?_
    rintro _ _ rfl
    refine (hw.extend _ (by simp [Part.object])).extend _ fun c hc => ?_
    obtain rfl := List.mem_singleton.1 hc
    exact (Network.filters_node _ _).extend _
  | bind first rest ihFirst ihRest => exact fun hw => (ihFirst hw).bind fun b w' hw' => ihRest b hw'

end Workspace

/-! ## Conversions -/

namespace Session

variable [Scalar α] {g : Graph α} {settings : Settings α} {entries : List (Entry α)}
  {w : Workspace α} {l : LayerId} {s : Session α}

/-- Whatever has been converted, all connections are filtered. -/
theorem Run.filtered (h : Run g settings entries w) : w.Filtered settings.synapse := by
  induction h with
  | start => exact ⟨rfl, by simp [Network.empty]⟩
  | note _ _ _ ih => exact ⟨ih.synapse, ih.connections⟩
  | convert _ chosen ran _ ih =>
    obtain ⟨hsynapse, hconnections⟩ := (chosen.conversion.composed.filters ih).of_ok ran
    exact ⟨hsynapse, hconnections⟩

/-- **Synapses leave neurons only, and always.**  In a network that has been
    converted with the standard registry, every connection carries the synapse
    of the settings if the object that it reads is an ensemble, and none
    otherwise; and so does every probe. -/
theorem synapses_leave_neurons (h : g.Reachable)
    (hc : convert g l settings Registry.standard = .ok s) :
    s.network.Filtered settings.synapse := by
  obtain ⟨m, hm⟩ := exists_model hc
  obtain ⟨order, entries, s₁, -, -, hwalked, -, hends⟩ := convert_eq_ok h.sound hm hc
  refine ⟨(hends.run hwalked).filtered.connections, fun p hp => ?_⟩
  have hsynapse := Workspace.synapseOf_eq_ok.1 (hends.synapses p hp)
  rw [hwalked.run.settings_eq] at hsynapse
  obtain ⟨probes, hw⟩ := hends.workspace
  rw [network, hw]
  exact hsynapse

/-- Rectified neurons are flattened, and read by an output and by a layer with a
    bias, which is another output. -/
def flattenedNeurons : List (Graph.BuildStep ℚ) :=
  [.input "x" [1], .wire "d" (.dense ⟨.ofColumn [4], some [3], .relu, default⟩) [⟨0⟩],
    .wire "f" .flatten [⟨1⟩],
    .wire "e" (.dense ⟨.ofColumn [2], some [5], .linear, default⟩) [⟨2⟩],
    .model "m" [⟨0⟩] [⟨2⟩, ⟨3⟩]]

/-- What leaves neurons passes a low-pass filter. -/
def lowpassed : Settings ℚ := { Settings.standard with synapse := some (.lowpass 1) }

/-- Of the connections from the input, from the bias and from the neurons, only
    the last one is filtered, and so is the probe of the neurons. -/
theorem synapses_leave_neurons_flattened : ∃ s,
    convert (Graph.build flattenedNeurons) ⟨4⟩ lowpassed Registry.standard = .ok s ∧
      s.network.Filtered (some (.lowpass 1)) ∧
      s.network.connections.toList.map (fun c => (c.pre.object.index, c.synapse.map Synapse.tau)) =
        [(0, none), (3, none), (1, some 1)] ∧
      s.network.probes.toList.map (fun p => (p.target.object.index, p.synapse.map Synapse.tau)) =
        [(1, some 1), (2, none)] := by
  have hok : (do
      let s ← convert (Graph.build flattenedNeurons) ⟨4⟩ lowpassed Registry.standard
      pure (s.network.connections.toList.map
          (fun c => (c.pre.object.index, c.synapse.map Synapse.tau)),
        s.network.probes.toList.map (fun p => (p.target.object.index, p.synapse.map Synapse.tau))) :
      Outcome _).toOption =
      some ([(0, none), (3, none), (1, some 1)], [(1, some 1), (2, none)]) := by decide +kernel
  obtain ⟨s, hs, hfilters⟩ := bind_eq_ok.1 (toOption_eq_some.1 hok)
  obtain ⟨hconnections, hprobes⟩ := Prod.mk.inj (pure_eq_ok.1 hfilters)
  exact ⟨s, hs, synapses_leave_neurons (Graph.reachable_build flattenedNeurons) hs, hconnections,
    hprobes⟩

end Session
end Neuroform

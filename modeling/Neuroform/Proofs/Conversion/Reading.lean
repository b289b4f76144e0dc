/-
  Neuroform — reading the outputs of a converted model.

  There is a probe for every output that a model lists, and a simulation has a
  value for each of them.  A run looks up the probes of the outputs and takes
  the value of each of them only once; so it delivers all outputs if none is
  listed twice, and fails at the first one that is listed again
  (`outputs_delivered_of_nodup`).
-/
import Neuroform.Conversion.Runner
import Neuroform.Proofs.Conversion.Ends
import Neuroform.Proofs.Conversion.Parameters

namespace Neuroform

variable {α : Type}

/-! ## Repetitions -/

/-- A list that repeats something has a first place where it does. -/
theorem exists_first_repeat {β : Type} {l : List β} (h : ¬l.Nodup) :
    ∃ before b after, l = before ++ b :: after ∧ before.Nodup ∧ b ∈ before := by
  induction l using List.reverseRecOn with
  | nil => exact absurd List.nodup_nil h
  | append_singleton l b ih =>
    by_cases hl : l.Nodup
    case pos =>
      refine ⟨l, b, [], rfl, hl, ?_⟩
      by_contra hb
      exact h (List.nodup_append.2 ⟨hl, List.nodup_singleton b, by
        intro c hc d hd
        rw [List.mem_singleton.1 hd]
        rintro rfl
        exact hb hc⟩)
    case neg =>
      obtain ⟨before, c, after, rfl, hbefore, hc⟩ := ih hl
      exact ⟨before, c, after ++ [b], by simp, hbefore, hc⟩

/-! ## Probes -/

namespace Network

section
variable {table : List (ProbeId × Table α)} {ps : List ProbeId} {ys : List (Table α)}

/-- The value of a probe among those of all probes. -/
theorem lookup_probe {p : ProbeId} {y : Table α} (h : ys[p.index]? = some y) :
    (ys.zipIdx.map fun (y, i) => ((⟨i⟩ : ProbeId), y)).lookup p = some y := by
  refine lookup_of_mem ?_ ?_
  · exact List.mem_map.2 ⟨(y, p.index), List.mem_zipIdx_iff_getElem?.2 h, rfl⟩
  · intro z hz
    obtain ⟨⟨z', k⟩, hmem, heq⟩ := List.mem_map.1 hz
    obtain ⟨rfl, rfl⟩ := Prod.mk.inj heq
    exact Option.some.inj ((List.mem_zipIdx_iff_getElem?.1 hmem).symm.trans h)

/-- Different probes are all read. -/
theorem takeOutputs_of_nodup (hn : ps.Nodup)
    (h : List.Forall₂ (fun p y => table.lookup p = some y) ps ys) :
    takeOutputs table ps = .ok (ys.map Table.toGrid) := by
  induction ps generalizing table ys with
  | nil =>
    cases h
    rfl
  | cons p ps ih =>
    obtain ⟨y, ys', hy, hys, rfl⟩ := List.forall₂_cons_left_iff.1 h
    obtain ⟨hp, hn⟩ := List.nodup_cons.1 hn
    have hkept : List.Forall₂ (fun q z => (table.filter (·.1 ≠ p)).lookup q = some z) ps ys' := by
      refine ((List.forall₂_and_left _ _).2 ⟨?_, hys⟩).imp (R := fun q z => q ≠ p ∧ _) ?_
      · intro q hq hqp
        exact hp (hqp ▸ hq)
      · rintro q z ⟨hq, hz⟩
        exact (lookup_filter_ne hq).trans hz
    rw [takeOutputs, bind_eq_ok]
    refine ⟨y, orRefuse_eq_ok.2 hy, bind_eq_ok.2 ⟨_, ih hn hkept, rfl⟩⟩

/-- A probe that has been read is not read again. -/
theorem takeOutputs_of_repeat {before after : List ProbeId} {p : ProbeId} (hn : before.Nodup)
    (h : ∀ q ∈ before, ∃ y, table.lookup q = some y) (hp : table.lookup p = none ∨ p ∈ before) :
    takeOutputs table (before ++ p :: after) = refuse (RunnerCause.noProbeOutput p) := by
  induction before generalizing table with
  | nil =>
    have hnone : table.lookup p = none := hp.resolve_right (by simp)
    rw [List.nil_append, takeOutputs, hnone]
    rfl
  | cons q before ih =>
    obtain ⟨y, hy⟩ := h q (by simp)
    obtain ⟨hq, hn⟩ := List.nodup_cons.1 hn
    have hkept : ∀ r ∈ before, ∃ z, (table.filter (·.1 ≠ q)).lookup r = some z := by
      intro r hr
      have hrq : r ≠ q := fun hrq => hq (hrq ▸ hr)
      obtain ⟨z, hz⟩ := h r (by simp [hr])
      exact ⟨z, (lookup_filter_ne hrq).trans hz⟩
    have hnext : (table.filter (·.1 ≠ q)).lookup p = none ∨ p ∈ before := by
      by_cases hpq : p = q
      · exact .inl (hpq ▸ lookup_filter_self)
      · rcases hp with hnone | hp
        · exact .inl ((lookup_filter_ne hpq).trans hnone)
        · exact .inr ((List.mem_cons.1 hp).resolve_left hpq)
    rw [List.cons_append, takeOutputs, hy]
    change (do return y.toGrid :: (← takeOutputs _ (before ++ p :: after))) = _
    rw [ih hn hkept hnext]
    rfl

end

variable [Scalar α] {n : Network α} {fed : States α} {batch : Nat}

/-- What a view shows of the steady state of a network. -/
def Shows (n : Network α) (fed : States α) (batch : Nat) (v : View) (y : Table α) : Prop :=
  ∃ order states x, n.order = .ok order ∧ n.settle order fed batch = .ok states ∧
    states.lookup v.object = some x ∧ v.select x = .ok y

/-- A simulation gives what the targets of all probes show. -/
theorem predict_eq_ok {ys : List (Table α)} (h : n.predict fed batch = .ok ys) :
    ∃ order, n.order = .ok order ∧ n.simulate order fed batch = .ok ys ∧
      List.Forall₂ (fun p y => n.Shows fed batch p.target y) n.probes.toList ys := by
  obtain ⟨order, horder, h⟩ := bind_eq_ok.1 h
  obtain ⟨_, -, hread⟩ := bind_eq_ok.1 h
  obtain ⟨_, -, hread⟩ := bind_eq_ok.1 hread
  obtain ⟨states, hstates, hread⟩ := bind_eq_ok.1 hread
  refine ⟨order, horder, h, (mapM_forall₂.1 hread).imp ?_⟩
  intro p y hy
  obtain ⟨x, hx, hy⟩ := bind_eq_ok.1 hy
  exact ⟨order, states, x, horder, hstates, orRefuse_eq_ok.1 hx, hy⟩

/-- A run reads the probes of a simulation. -/
theorem run_of_simulate {order inputs : List ObjectId} {probes : List ProbeId}
    {arrays : List (Grid α)} {ys : List (Table α)} (harity : arrays.length = inputs.length)
    (hfold : (inputs.zip arrays).foldlM
      (addFed ((arrays.head?.bind (·.shape.head?)).getD 1)) [] = .ok fed)
    (hrun : n.simulate order fed ((arrays.head?.bind (·.shape.head?)).getD 1) = .ok ys) :
    n.run order inputs probes arrays =
      takeOutputs (ys.zipIdx.map fun (y, i) => (⟨i⟩, y)) probes := by
  have hcount : require (arrays.length = inputs.length)
      (RunnerCause.inputCount inputs.length arrays.length) = .ok () := require_eq_ok.2 harity
  simp only [run, hcount, hfold, hrun, bind, Except.bind]

end Network

namespace Session

open Neuroform.Graph

variable [Scalar α] {g : Graph α} {settings : Settings α} {s : Session α} {l : LayerId}
  {m : ModelDef}

/-- Arrays for the inputs of a converted model become data for a simulation of
    its network. -/
def Feeds (s : Session α) (m : ModelDef) (arrays : List (Grid α)) (batch : Nat)
    (fed : States α) : Prop :=
  arrays.length = m.inputs.length ∧ batch = (arrays.head?.bind (·.shape.head?)).getD 1 ∧
    ∃ objects, List.Forall₂ (fun t o => ∃ v, s.inputs.lookup t = some v ∧ v.object = o)
      m.inputs objects ∧ (objects.zip arrays).foldlM (Network.addFed batch) [] = .ok fed

/-- A run of a converted model feeds its arrays, simulates the network and reads
    the probes of the outputs. -/
theorem runner_eq_ok {σ : Type} (hm : s.workspace.graph.model? s.model = some m)
    {arrays : List (Grid α)} {batch : Nat} {fed : States α} (hfed : s.Feeds m arrays batch fed)
    {order : List ObjectId} {ys : List (Table α)} (horder : s.network.order = .ok order)
    (hrun : s.network.simulate order fed batch = .ok ys) {ps : List ProbeId}
    (hps : List.Forall₂ (fun t p => s.outputs.lookup t = some p) m.outputs ps) :
    ∃ runner : Runner σ α, s.runner = .ok runner ∧ ∀ x, (runner.predict arrays).exec x =
      (Network.takeOutputs (ys.zipIdx.map fun (y, i) => (⟨i⟩, y)) ps, x) := by
  obtain ⟨hlength, rfl, objects, hobjects, hfold⟩ := hfed
  have hinputs : (m.inputs.mapM fun t => do
      return (← s.inputs.get s.workspace.graph (.tensor t)).object) = .ok objects := by
    refine mapM_forall₂.2 (hobjects.imp ?_)
    rintro t o ⟨v, hv, rfl⟩
    exact bind_eq_ok.2 ⟨v, orRefuse_eq_ok.2 hv, rfl⟩
  have hprobes : (m.outputs.mapM fun t => s.outputs.get s.workspace.graph (.tensor t)) = .ok ps :=
    mapM_forall₂.2 (hps.imp fun t p hp => orRefuse_eq_ok.2 hp)
  have harity : arrays.length = objects.length := hlength.trans hobjects.length_eq
  refine ⟨{
    predict := fun arrays => s.network.run order objects ps arrays
    fit := cannotTrain
    parameterCount := s.network.trainableParameterCount }, ?_, ?_⟩
  · refine bind_eq_ok.2 ⟨m, modelDef_eq_ok.2 hm, bind_eq_ok.2 ⟨objects, hinputs, ?_⟩⟩
    exact bind_eq_ok.2 ⟨ps, hprobes, bind_eq_ok.2 ⟨order, horder, rfl⟩⟩
  · intro x
    refine Prod.ext ?_ rfl
    exact Network.run_of_simulate harity hfold hrun

omit [Scalar α] in
/-- The probes that the outputs of a converted model are looked up as: that of
    the last place where an output is listed. -/
theorem Ends.exists_probes {s₁ : Session α} (he : Ends m s₁ s) : ∃ f : TensorId → ProbeId,
    ∀ t ∈ m.outputs, s.outputs.lookup t = some (f t) ∧ m.outputs[(f t).index]? = some t := by
  refine ⟨fun t => (s.outputs.lookup t).getD ⟨0⟩, ?_⟩
  intro t ht
  obtain ⟨k, ⟨hk, -⟩, hlook⟩ := he.outputs t ht
  have hprobe : (s.outputs.lookup t).getD ⟨0⟩ = ⟨k⟩ := by rw [hlook, Option.getD_some]
  exact ⟨hlook.trans (congrArg some hprobe.symm), (congrArg (m.outputs[·.index]?) hprobe).trans hk⟩

/-- Every output of a converted model shows in a simulation what its tensor is
    held by. -/
theorem Ends.shown {s₁ : Session α} (he : Ends m s₁ s) {fed : States α} {batch : Nat}
    {ys : List (Table α)}
    (hys : List.Forall₂ (fun p y => s.network.Shows fed batch p.target y)
      s.network.probes.toList ys) :
    List.Forall₂ (fun t y => ∃ v, s.workspace.tensorView t = .ok v ∧
      s.network.Shows fed batch v y) m.outputs ys := by
  obtain ⟨probes, hw⟩ := he.workspace
  refine forall₂_comp (fun t p y ht hy => ⟨p.target, ?_, hy⟩) he.probes hys
  rw [hw]
  exact ht

/-- **All outputs are delivered if none is listed twice**: a run of a converted
    model on arrays that a simulation succeeds for gives what every output
    shows, in their order.  If a model lists an output again, the run fails at
    the first such place, as the probe of that tensor has been read before. -/
theorem outputs_delivered_of_nodup (h : g.Reachable) (hm : g.model? l = some m)
    (hc : convert g l settings Registry.standard = .ok s) {arrays : List (Grid α)} {batch : Nat}
    {fed : States α} (hfed : s.Feeds m arrays batch fed) {ys : List (Table α)}
    (hrun : s.network.predict fed batch = .ok ys) {σ : Type} :
    List.Forall₂ (fun t y => ∃ v, s.workspace.tensorView t = .ok v ∧
        s.network.Shows fed batch v y) m.outputs ys ∧
      ∃ runner : Runner σ α, s.runner = .ok runner ∧
        (m.outputs.Nodup → ∀ x, (runner.predict arrays).exec x = (.ok (ys.map Table.toGrid), x)) ∧
        (¬m.outputs.Nodup → ∃ before t after p, m.outputs = before ++ t :: after ∧
          before.Nodup ∧ t ∈ before ∧ s.outputs.lookup t = some p ∧
          ∀ x, (runner.predict arrays).exec x = (refuse (RunnerCause.noProbeOutput p), x)) := by
  obtain ⟨order, entries, s₁, -, -, hs, hmodel, hends⟩ := convert_eq_ok h.sound hm hc
  have hmodel' : s.workspace.graph.model? s.model = some m := by
    rw [(hends.run hs).graph_eq, hends.model, hmodel, hm]
  obtain ⟨order, horder, hsimulate, hys⟩ := Network.predict_eq_ok hrun
  have hshown := hends.shown hys
  obtain ⟨f, hf⟩ := hends.exists_probes
  have hps : List.Forall₂ (fun t p => s.outputs.lookup t = some p) m.outputs (m.outputs.map f) := by
    rw [List.forall₂_map_right_iff, List.forall₂_same]
    exact fun t ht => (hf t ht).1
  obtain ⟨runner, hrunner, hpredict⟩ := runner_eq_ok (σ := σ) hmodel' hfed horder hsimulate hps
  -- different outputs have different probes
  have hinj : ∀ t ∈ m.outputs, ∀ u ∈ m.outputs, f t = f u → t = u := by
    intro t ht u hu heq
    have hplace := (hf t ht).2
    rw [heq, (hf u hu).2] at hplace
    exact (Option.some.inj hplace).symm
  refine ⟨hshown, runner, hrunner, ?_, ?_⟩
  · intro hnodup x
    rw [hpredict, Network.takeOutputs_of_nodup (hnodup.map_on hinj)]
    rw [List.forall₂_map_left_iff]
    refine forall₂_of_getElem? hshown.length_eq ?_
    intro k t y ht hy
    have hmem := List.mem_of_getElem? ht
    have hlt := (List.getElem?_eq_some_iff.1 ht).1
    have hk : k = (f t).index :=
      (List.getElem?_inj hlt hnodup).1 (ht.trans (hf t hmem).2.symm)
    exact Network.lookup_probe (hk ▸ hy)
  · intro hrepeat
    obtain ⟨before, t, after, hsplit, hnodup, ht⟩ := exists_first_repeat hrepeat
    refine ⟨before, t, after, f t, hsplit, hnodup, ht, (hf t (by simp [hsplit])).1, ?_⟩
    intro x
    rw [hpredict, hsplit, List.map_append, List.map_cons]
    refine Prod.ext (Network.takeOutputs_of_repeat ?_ ?_ ?_) rfl
    · refine hnodup.map_on fun u hu u' hu' => hinj u ?_ u' ?_
      · simp [hsplit, hu]
      · simp [hsplit, hu']
    · intro q hq
      obtain ⟨u, hu, rfl⟩ := List.mem_map.1 hq
      have hplace := (hf u (by simp [hsplit, hu])).2
      obtain ⟨y, hy, -⟩ := forall₂_getElem? hshown hplace
      exact ⟨y, Network.lookup_probe hy⟩
    · exact .inr (List.mem_map_of_mem ht)

/-- A model that lists its input as an output twice. -/
def listedTwice : List (BuildStep ℚ) := [.input "x" [1], .model "m" [⟨0⟩] [⟨0⟩, ⟨0⟩]]

/-- A batch of one sample. -/
def three : Grid ℚ := ⟨[1, 1], #[3], rfl⟩

/-- Both probes of the input show what is fed, and the second output is not
    delivered. -/
theorem outputs_delivered_of_nodup_listedTwice : ∃ s fed ys, ∃ runner : Runner Unit ℚ,
    convert (build listedTwice) ⟨1⟩ Settings.standard Registry.standard = .ok s ∧
    s.network.predict fed 1 = .ok ys ∧ ys.map (·.cells) = [#[3], #[3]] ∧
    s.runner = .ok runner ∧
    (runner.predict [three]).exec () = (refuse (RunnerCause.noProbeOutput ⟨1⟩), ()) := by
  have hmodel : (build listedTwice).model? ⟨1⟩ = some ⟨[⟨0⟩], [⟨0⟩, ⟨0⟩], [⟨0⟩], false⟩ := by cbv
  have hrun : (do
      let s ← convert (build listedTwice) ⟨1⟩ Settings.standard Registry.standard
      let v ← orFault (s.inputs.lookup (⟨0⟩ : TensorId))
      let p ← orFault (s.outputs.lookup (⟨0⟩ : TensorId))
      let fed ← [(v.object, three)].foldlM (Network.addFed 1) []
      let ys ← s.network.predict fed 1
      return (p, ys.map (·.cells)) : Outcome _).toOption = some (⟨1⟩, [#[3], #[3]]) := by
    decide +kernel
  obtain ⟨s, hs, hrun⟩ := bind_eq_ok.1 (toOption_eq_some.1 hrun)
  obtain ⟨v, hv, hrun⟩ := bind_eq_ok.1 hrun
  obtain ⟨p, hp, hrun⟩ := bind_eq_ok.1 hrun
  obtain ⟨fed, hfed, hrun⟩ := bind_eq_ok.1 hrun
  obtain ⟨ys, hys, hrun⟩ := bind_eq_ok.1 hrun
  obtain ⟨rfl, hvalues⟩ := Prod.mk.inj (pure_eq_ok.1 hrun)
  have hfeeds : s.Feeds ⟨[⟨0⟩], [⟨0⟩, ⟨0⟩], [⟨0⟩], false⟩ [three] 1 fed :=
    ⟨rfl, rfl, [v.object], .cons ⟨v, orFault_eq_ok.1 hv, rfl⟩ .nil, hfed⟩
  obtain ⟨-, runner, hrunner, -, hrepeat⟩ := outputs_delivered_of_nodup
    (reachable_build listedTwice) hmodel hs hfeeds hys (σ := Unit)
  obtain ⟨before, t, after, q, hsplit, -, -, hq, hfails⟩ := hrepeat (by decide)
  obtain rfl : t = ⟨0⟩ := by
    have ht : t ∈ before ++ t :: after := by simp
    rw [← hsplit] at ht
    simpa using ht
  obtain rfl := Option.some.inj (hq.symm.trans (orFault_eq_ok.1 hp))
  exact ⟨s, fed, ys, runner, hs, hys, hvalues, hrunner, hfails ()⟩

end Session
end Neuroform

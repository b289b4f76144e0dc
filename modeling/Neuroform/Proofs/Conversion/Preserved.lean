/-
  Neuroform — conversion preserves the function of a model.

  A conversion without changes of nonlinearities and rates makes a network that
  simulates its model.  Run on batches on which the model predicts, it gives
  the predictions with the places of a sample in one row
  (`predictions_preserved`), if every layer is applied to samples as they are
  meant to be and memory can hold the inputs of all objects.  Both conditions
  are needed (`predictions_lost`).
-/
import Neuroform.Proofs.Conversion.Feeding
import Neuroform.Proofs.Conversion.Simulated
import Neuroform.Proofs.Network.Simulate

namespace Neuroform

open Neuroform.Graph

namespace Network

variable {α : Type} {n : Network α} {fed fed' : States α} {batch : Nat}

/-- Data is fed to the given objects only. -/
theorem foldlM_addFed_keys : ∀ {xs : List (ObjectId × Grid α)} {fed fed' : States α},
    xs.foldlM (addFed batch) fed = .ok fed' →
    ∀ e ∈ fed', e.1 ∈ xs.map Prod.fst ∨ e.1 ∈ fed.map Prod.fst
  | [], _, _, h, e, he => by
    obtain rfl := foldlM_nil_eq_ok.1 h
    exact .inr (List.mem_map_of_mem he)
  | (o, x) :: xs, fed, _, h, e, he => by
    obtain ⟨next, hnext, h⟩ := foldlM_cons_eq_ok.1 h
    obtain ⟨_, -, hnext⟩ := bind_eq_ok.1 hnext
    obtain ⟨t, -, hnext⟩ := bind_eq_ok.1 hnext
    obtain rfl := pure_eq_ok.1 hnext
    rcases foldlM_addFed_keys h e he with hx | hx
    · exact .inl (List.mem_cons_of_mem _ hx)
    · obtain ⟨e', he', heq⟩ := List.mem_map.1 hx
      rcases List.mem_append.1 he' with he' | he'
      · exact .inr (heq ▸ List.mem_map_of_mem (List.mem_filter.1 he').1)
      · exact .inl (heq ▸ List.mem_singleton.1 he' ▸ by simp)

/-- Memory that holds the inputs and constants of a network holds those of its
    sketch. -/
theorem fits_of_requireSpace (h : n.requireSpace batch = .ok ()) : n.sketch.Fits batch := by
  intro k hk
  obtain ⟨o, ho, rfl⟩ := List.mem_map.1 hk
  obtain ⟨size, hs, h⟩ := bind_eq_ok.1 (forM_eq_ok.1 h o ho)
  obtain ⟨_, hroom, -⟩ := bind_eq_ok.1 h
  exact ⟨size, hs, hroom⟩

end Network

namespace Session

section
variable {α : Type} [Field α] [LinearOrder α] [Elementary α] [Printed α] {g : Graph α}
  {settings : Settings α} {values : Valuation α} {b : Nat} {entries : List (Entry α)}
  {s s₁ : Session α} {l : LayerId} {m : ModelDef} {arrays ys : List (Grid α)} {fed : States α}

omit [Field α] [LinearOrder α] [Elementary α] [Printed α] in
/-- What is fed to a model has the shapes of its inputs. -/
theorem shapes_of_feeds : ∀ {xs : List (TensorId × Grid α)} {values values' : Valuation α},
    xs.foldlM g.feed values = .ok values' →
    ∀ e ∈ xs, ∃ s, g.shape? e.1 = some s ∧ s.matchesDims e.2.shape
  | [], _, _, _, _, he => by simp at he
  | x :: xs, _, _, h, e, he => by
    obtain ⟨next, hnext, h⟩ := foldlM_cons_eq_ok.1 h
    obtain ⟨y, hy, hnext⟩ := bind_eq_ok.1 hnext
    obtain ⟨_, hmatches, -⟩ := bind_eq_ok.1 hnext
    rcases List.mem_cons.1 he with rfl | he
    · exact ⟨y.shape, shape?_eq_some.2 ⟨y, hy, rfl⟩, require_eq_ok.1 hmatches⟩
    · exact shapes_of_feeds h e he

/-- Arrays with a batch of samples each, for the inputs of a model. -/
def Batches (g : Graph α) (m : ModelDef) (b : Nat) (arrays : List (Grid α)) : Prop :=
  List.Forall₂ (fun x a => ∃ dims, g.Samples x dims ∧ a.Batch b dims) m.inputs arrays

/-- Arrays that a model predicts on are batches of samples of its inputs. -/
theorem batches_of_predict (hm : g.model? l = some m)
    (hknown : ∀ x ∈ m.inputs, ∃ dims, g.Dims x dims)
    (hbatch : ∀ a ∈ arrays, a.shape.head? = some b ∧ addressable a.shape = true)
    (hp : g.predict l arrays = .ok ys) : Batches g m b arrays := by
  simp only [predict, bind_eq_ok, modelDef_eq_ok, require_eq_ok] at hp
  obtain ⟨m', hm', _, -, _, hlen, fed, hfeed, -⟩ := hp
  obtain rfl := Option.some.inj (hm.symm.trans hm')
  refine List.forall₂_iff_zip.2 ⟨hlen, fun {x a} hxa => ?_⟩
  obtain ⟨hx, ha⟩ := List.of_mem_zip hxa
  obtain ⟨hhead, haddressable⟩ := hbatch a ha
  obtain ⟨rest, hrest⟩ := List.head?_eq_some_iff.1 hhead
  obtain ⟨s, hs, hmatches⟩ := shapes_of_feeds hfeed (x, a) hxa
  obtain ⟨dims, s', hs', hdims⟩ := hknown x hx
  obtain rfl := Option.some.inj (hs.symm.trans hs')
  rw [hrest] at hmatches
  exact ⟨rest, ⟨s, hs, Shape.samples_of_matchesDims hmatches hdims⟩, hrest, haddressable⟩

section
variable (hg : g.Sound) (hm : g.model? l = some m) (hroots : g.Rooted m)
include hg hm hroots

/-- The inputs of a model come from sources. -/
theorem source_of_input {x : TensorId} (hx : x ∈ m.inputs) :
    ∃ q, g.Resolves x q ∧ g.IsSource q.source := by
  obtain ⟨q, inv, hq, -, hentry, -, -, hresolves⟩ := input_of_entry hg hm hx
  obtain ⟨q', inv', hq', hr, hin⟩ := hroots x hx
  obtain rfl := Option.some.inj (hq.symm.trans hq')
  exact ⟨q, hresolves, hentry, inv', hr, hin⟩

/-- The trace of a model has values, if the model predicts on batches and every
    layer is applied to samples as they are meant to be. -/
theorem plays_of_predict (hb : 0 < b) (hbatches : Batches g m b arrays)
    (hys : List.Forall₂ (g.Evaluates (m.inputs.zip arrays).reverse) m.outputs ys)
    {order : List Provenance} (horder : g.trace (m.outputs ++ m.inputs) = .ok order)
    (hregular : ∀ i, g.Behind (m.outputs ++ m.inputs) i → g.RegularAt b i) :
    Plays g (m.inputs.zip arrays).reverse b order := by
  obtain ⟨htraced, hbehind, -, -⟩ := trace_eq_ok hg horder
  have hfed := rootsFed hg hm hroots arrays
  refine ⟨hb, hfed, fun t v ht => ?_, htraced, fun i hi => ?_,
    fun i hi => hregular i ((hbehind i).1 hi)⟩
  · have hmem := List.mem_reverse.1 (mem_of_lookup ht)
    exact (List.forall₂_iff_zip.1 hbatches).2 hmem
  · refine ((hbehind i).1 hi).gives hfed fun t ht => ?_
    rcases List.mem_append.1 ht with ht | ht
    · obtain ⟨y, -, hy⟩ := forall₂_mem_left hys t ht
      exact ⟨y, hy⟩
    · obtain ⟨a, ha⟩ := exists_lookup_zip hbatches.length_eq ht
      exact ⟨a, .fed ha⟩

/-- A run feeds the objects of the sources with what their tensors are fed with,
    and no other objects. -/
theorem Simulates.lookup_fed {s₁ : Session α} {fed' : States α}
    (h : Simulates g (m.inputs.zip arrays).reverse b entries s.workspace fed')
    (hd : Completed g settings entries s.workspace) (hends : Ends m s₁ s)
    (hfeeds : s.Feeds m arrays b fed)
    (hrows : ∀ x a, (m.inputs.zip arrays).reverse.lookup x = some a →
      ∃ v t, s.inputs.lookup x = some v ∧ fed.lookup v.object = some t ∧ Network.Rows b a t)
    (o : ObjectId) : fed.lookup o = fed'.lookup o := by
  cases hx : fed'.lookup o with
  | some x =>
    obtain ⟨-, t, dims, y, hy, hview, hholds⟩ := h.fedValues o x hx
    obtain ⟨v, table, hv, htable, hr, -, hc, hcells⟩ := hrows t y hy
    have ht := (List.of_mem_zip (List.mem_reverse.1 (mem_of_lookup hy))).1
    obtain ⟨v', hv', hview'⟩ := hends.view_of_input ht
    obtain rfl := Option.some.inj (hv.symm.trans hv')
    obtain rfl := Except.ok.inj (hview.symm.trans hview')
    have htable' : table.Holds b dims y :=
      ⟨hholds.shape, hr, by rw [hc, hholds.shape, List.tail_cons], hcells⟩
    rw [hholds.unique htable']
    exact htable
  | none =>
    -- whatever is fed is for the object of an input, which is that of a source
    cases hy : fed.lookup o with
    | none => rfl
    | some y =>
      obtain ⟨-, -, objects, hobjects, hfold⟩ := hfeeds
      have hkey := (Network.foldlM_addFed_keys hfold _ (mem_of_lookup hy)).resolve_right (by simp)
      obtain ⟨⟨o', a⟩, hmem, rfl⟩ := List.mem_map.1 hkey
      obtain ⟨x, hx', v, hv, rfl⟩ := forall₂_mem_left hobjects.flip o' (List.of_mem_zip hmem).1
      obtain ⟨v', hv', hview⟩ := hends.view_of_input hx'
      obtain rfl := Option.some.inj (hv.symm.trans hv')
      obtain ⟨⟨o, _, _, rfl, -⟩, -⟩ := constant_of_root hg hd hm hx' (hroots x hx') hview
      obtain ⟨q, hq, hsource⟩ := source_of_input hg hm hroots hx'
      obtain ⟨q', hq', -, hlook⟩ := (hd.run.tensorView_eq_ok hg).1 hview
      obtain rfl := hq.unique hq'
      obtain ⟨e, he, heq⟩ := hd.run.exists_entry hlook
      obtain ⟨z, hz⟩ := h.sourcesFed e he (heq ▸ hsource) o (heq ▸ hlook)
      exact absurd (hx.symm.trans hz) (by simp)

end

/-! ## Running the network -/

/-- An array has the places of each sample of a batch in one row. -/
def Flattens (b : Nat) (y z : Grid α) : Prop :=
  ∃ dims, y.shape = b :: dims ∧ z.shape = [b, volume dims] ∧ z.cells = y.cells

/-- A network that simulates a model is read as the values of its outputs. -/
theorem Simulates.simulate {s₁ : Session α} {values : Valuation α} {order : List Provenance}
    (h : Simulates g values b entries s.workspace fed) (hg : g.Sound) (hf : g.FedAtEntries values)
    (hrun : Run g settings entries s.workspace) (hends : Ends m s₁ s)
    (hdone : converted entries = sources order) (hfound : ∀ t ∈ m.outputs, g.Found order t)
    (hys : List.Forall₂ (g.Evaluates values) m.outputs ys)
    (hcheck : fed.forM (s.network.checkFed b) = .ok ())
    (hspace : s.network.requireSpace b = .ok ()) :
    ∃ nodes tables, s.network.order = .ok nodes ∧ s.network.simulate nodes fed b = .ok tables ∧
      List.Forall₂ (fun y t => ∃ dims, Table.Holds t b dims y) ys tables := by
  have hsteady : s.network.Steady fed b := fun o ho =>
    h.settles o (lt_of_lt_of_eq ho Network.length_kinds.symm)
  obtain ⟨nodes, hnodes⟩ := hsteady.exists_order h.checked
  obtain ⟨tables, htables⟩ := exists_forall₂ (R := fun t x => ∃ dims o y, g.Evaluates values t y ∧
      s.workspace.tensorView t = .ok (.full o) ∧ s.network.sketch.Settles fed b o x ∧
      x.Holds b dims y) (l := m.outputs) fun t ht => by
    obtain ⟨y, -, hy⟩ := forall₂_mem_left hys t ht
    obtain ⟨q, hq, hi⟩ := hfound t ht
    obtain ⟨dims, o, -, -, hview, x, hx, hholds⟩ := h.tensor hg hf hrun hq (hdone ▸ hi) hy
    exact ⟨x, dims, o, y, hy, hview, hx, hholds⟩
  obtain ⟨probes, hw⟩ := hends.workspace
  refine ⟨nodes, tables, hnodes, Network.simulate_eq_ok hsteady h.checked hnodes
    (forM_eq_ok.1 hcheck) hspace (forall₂_comp ?_ hends.probes.flip htables),
    forall₂_comp ?_ hys.flip htables⟩
  · rintro p t x hview ⟨dims, o, y, -, hview', hx, -⟩
    rw [hw] at hview'
    obtain heq : View.full o = p.target := Except.ok.inj (hview'.symm.trans hview)
    exact heq ▸ ⟨x, hx, rfl⟩
  · rintro y t x hy ⟨dims, o, y', hy', -, -, hholds⟩
    obtain rfl := Evaluates.unique hy hy'
    exact ⟨dims, hholds⟩

/-- A run delivers what a simulation reads, if no output is listed twice. -/
theorem Ends.delivers {s₁ : Session α} (he : Ends m s₁ s)
    (hm : s.workspace.graph.model? s.model = some m) (hnodup : m.outputs.Nodup)
    (hfeeds : s.Feeds m arrays b fed) {nodes : List ObjectId} {tables : List (Table α)}
    (hnodes : s.network.order = .ok nodes) (hrun : s.network.simulate nodes fed b = .ok tables)
    (hlength : m.outputs.length = tables.length) {σ : Type} :
    ∃ runner : Runner σ α, s.runner = .ok runner ∧
      ∀ x, (runner.predict arrays).exec x = (.ok (tables.map Table.toGrid), x) := by
  obtain ⟨f, hf⟩ := he.exists_probes
  have hps : List.Forall₂ (fun t p => s.outputs.lookup t = some p) m.outputs (m.outputs.map f) := by
    rw [List.forall₂_map_right_iff, List.forall₂_same]
    exact fun t ht => (hf t ht).1
  obtain ⟨runner, hrunner, hpredict⟩ := runner_eq_ok (σ := σ) hm hfeeds hnodes hrun hps
  -- the probe of an output has the place of the output
  have hplace : ∀ k t, m.outputs[k]? = some t → (f t).index = k := fun k t ht =>
    (List.getElem?_inj (List.getElem?_eq_some_iff.1 ht).1 hnodup).1
      (ht.trans (hf t (List.mem_of_getElem? ht)).2.symm) |>.symm
  have hread : List.Forall₂ (fun p y =>
      (tables.zipIdx.map fun e => ((⟨e.2⟩ : ProbeId), e.1)).lookup p = some y)
      (m.outputs.map f) tables := by
    rw [List.forall₂_map_left_iff]
    exact forall₂_of_getElem? hlength fun k t y ht hy =>
      Network.lookup_probe ((hplace k t ht).symm ▸ hy)
  have hdifferent : (m.outputs.map f).Nodup := hnodup.map_on fun t ht u hu heq =>
    Option.some.inj ((hf t ht).2.symm.trans (heq ▸ (hf u hu).2))
  exact ⟨runner, hrunner, fun x => by rw [hpredict, Network.takeOutputs_of_nodup hdifferent hread]⟩

/-- A simulation is one for all data with the same values. -/
theorem Simulates.congr_fed {values : Valuation α} {w : Workspace α} {fed' : States α}
    (h : Simulates g values b entries w fed) (hfed : ∀ o, fed'.lookup o = fed.lookup o) :
    Simulates g values b entries w fed' := by
  have hsettles : ∀ {o x}, w.network.sketch.Settles fed b o x →
      (w.network.sketch ++ ⟨[], []⟩).Settles fed' b o x := fun hx =>
    hx.append (by simp) fun o _ => hfed o
  simp only [Sketch.append_nil] at hsettles
  refine ⟨h.checked, fun o ho => (h.settles o ho).imp fun _ => hsettles, fun e he => ?_,
    fun o x hx => h.fedValues o x (hfed o ▸ hx), fun e he hs o ho => ?_⟩
  · obtain ⟨t, dims, x, o, hc⟩ := h.carried e he
    obtain ⟨y, hy, hholds⟩ := hc.carries
    exact ⟨t, dims, x, o, hc.record, hc.samples, hc.evaluates, hc.batch, hc.view, y, hsettles hy,
      hholds⟩
  · rw [hfed o]
    exact h.sourcesFed e he hs o ho

/-- **Conversion preserves the function of a model.**  If a model with different
    outputs and with inputs that nothing feeds is converted without changes of
    nonlinearities and rates, the network can be run on the batches that the model
    predicts on, and gives the predictions with each sample in one row. -/
theorem predictions_preserved (h : g.Reachable) (hm : g.model? l = some m)
    (hnodup : m.outputs.Nodup) (hroots : g.Rooted m)
    (hplain : settings.Plain) (hmax : settings.maxToAverage = false)
    (hc : convert g l settings Registry.standard = .ok s) (hb : 0 < b)
    (hregular : ∀ i, g.Behind (m.outputs ++ m.inputs) i → g.RegularAt b i)
    (hbatch : b = (arrays.head?.bind (·.shape.head?)).getD 1)
    (harrays : ∀ a ∈ arrays, a.shape.head? = some b ∧ addressable a.shape = true)
    (hp : g.predict l arrays = .ok ys) (hspace : s.network.requireSpace b = .ok ()) {σ : Type} :
    ∃ runner : Runner σ α, s.runner = .ok runner ∧ ∃ zs, List.Forall₂ (Flattens b) ys zs ∧
      ∀ x, (runner.predict arrays).exec x = (.ok zs, x) := by
  have hg := h.sound
  obtain ⟨m', hm', -, hys⟩ := predict_sound hg hp
  obtain rfl := Option.some.inj (hm.symm.trans hm')
  obtain ⟨order, entries, s₁, horder, hdone, hs, hmodel, hends⟩ := convert_eq_ok hg hm hc
  obtain ⟨htraced, -, hfound, -⟩ := trace_eq_ok hg horder
  have hrun := hends.run hs
  have hd := hends.completed hs (hdone ▸ htraced.nodup)
  -- all inputs are constant nodes of their own
  have hconstant : ∀ x ∈ m.inputs, ∃ v, s.inputs.lookup x = some v ∧
      s.workspace.tensorView x = .ok v ∧ IsConstant g s.network x v := fun x hx => by
    obtain ⟨v, hlook, hv⟩ := hends.view_of_input hx
    exact ⟨v, hlook, hv, (constant_of_root hg hd hm hx (hroots x hx) hv).1⟩
  have hbatches := batches_of_predict hm
    (fun x hx => let ⟨_, _, _, _, dims, _, _, hdims, _⟩ := hconstant x hx; ⟨dims, hdims⟩) harrays hp
  have hplays := plays_of_predict hg hm hroots hb hbatches hys horder hregular
  obtain ⟨fed', hsim⟩ := hrun.simulates hg hplain hmax hplays
    (fun e he => let ⟨r, _, hr⟩ := hs.used e he; ⟨r, hr⟩) (hdone ▸ List.prefix_refl _)
    (Network.fits_of_requireSpace hspace)
  obtain ⟨fed, hfeeds, hcheck, hrows⟩ := feeds_of_constants
    (fun x hx => let ⟨v, hlook, _, hv⟩ := hconstant x hx; ⟨v, hlook, hv⟩)
    (fun x hx y hy hne v v' hv hv' => by
      obtain ⟨_, hlook, hview, -⟩ := hconstant x hx
      obtain ⟨_, hlook', hview', -⟩ := hconstant y hy
      obtain rfl := Option.some.inj (hv.symm.trans hlook)
      obtain rfl := Option.some.inj (hv'.symm.trans hlook')
      exact object_ne_of_roots hg hd hm hx hy (hroots x hx) (hroots y hy) hne hview hview')
    hb hbatch (hbatches.imp fun x a ⟨dims, hdims, ha⟩ => ⟨dims, hdims.known, ha.shape⟩)
  obtain ⟨nodes, tables, hnodes, hsimulate, htables⟩ :=
    (hsim.congr_fed (hsim.lookup_fed hg hm hroots hd hends hfeeds hrows)).simulate hg
      hplays.roots.fedAtEntries hrun hends hdone
      (fun t ht => hfound t (List.mem_append_left _ ht)) hys hcheck hspace
  have hmodel' : s.workspace.graph.model? s.model = some m := by
    rw [hrun.graph_eq, hends.model, hmodel, hm]
  obtain ⟨runner, hrunner, hpredict⟩ := hends.delivers (σ := σ) hmodel' hnodup hfeeds hnodes
    hsimulate (hys.length_eq.trans htables.length_eq)
  refine ⟨runner, hrunner, tables.map Table.toGrid, ?_, hpredict⟩
  rw [List.forall₂_map_right_iff]
  exact htables.imp fun y t ⟨dims, ht⟩ =>
    ⟨dims, ht.shape, by simp [Table.toGrid, ht.rows, ht.columns], ht.cells⟩

end

/-! ## Examples -/

/-- The model around a call of a dense layer, on two samples. -/
theorem predictions_preserved_nested : ∃ s z, ∃ runner : Runner Unit ℚ,
    convert (build nestedDense) ⟨4⟩ Settings.standard Registry.standard = .ok s ∧
    (build nestedDense).predict ⟨4⟩ [⟨[2, 1], #[-3, 5], rfl⟩] = .ok [⟨[2, 1], #[-3, 13], rfl⟩] ∧
    s.runner = .ok runner ∧
    (runner.predict [⟨[2, 1], #[-3, 5], rfl⟩]).exec () = (.ok [z], ()) ∧
    Flattens 2 ⟨[2, 1], #[-3, 13], rfl⟩ z := by
  have hm : (build nestedDense).model? ⟨4⟩ = some ⟨[⟨2⟩], [⟨5⟩], [⟨3⟩, ⟨2⟩], false⟩ := rfl
  have hp : (build nestedDense).predict ⟨4⟩ [⟨[2, 1], #[-3, 5], rfl⟩] =
      .ok [⟨[2, 1], #[-3, 13], rfl⟩] := by cbv
  have hspace : (do
      let s ← convert (build nestedDense) ⟨4⟩ Settings.standard Registry.standard
      s.network.requireSpace 2 : Outcome Unit).toOption = some () := by decide +kernel
  obtain ⟨s, hs, hspace⟩ := bind_eq_ok.1 (toOption_eq_some.1 hspace)
  have htrace : (build nestedDense).trace [⟨5⟩, ⟨2⟩] =
      .ok [⟨⟨3⟩, 0, 0⟩, ⟨⟨0⟩, 1, 0⟩, ⟨⟨1⟩, 1, 0⟩] := by rfl
  have hregular : ∀ i, (build nestedDense).Behind [⟨5⟩, ⟨2⟩] i →
      (build nestedDense).RegularAt 2 i := by
    intro i hi inv shapes p hr hk hs
    obtain ⟨-, hbehind, -⟩ := trace_eq_ok (reachable_build nestedDense).sound htrace
    have hi : i ∈ [(⟨⟨3⟩, 0⟩ : InvocationId), ⟨⟨0⟩, 1⟩, ⟨⟨1⟩, 1⟩] := (hbehind i).2 hi
    -- all tensors have one value for each sample
    have hshapes : ∀ u ∈ inv.inputs, (build nestedDense).shape? u = some (.batched [1]) := by
      fin_cases hi
      · obtain rfl : (⟨[], [⟨2⟩]⟩ : Invocation) = inv := Option.some.inj hr
        simp
      · obtain rfl : (⟨[⟨2⟩], [⟨3⟩]⟩ : Invocation) = inv := Option.some.inj hr
        exact fun u hu => List.mem_singleton.1 hu ▸ rfl
      · obtain rfl : (⟨[⟨3⟩], [⟨4⟩]⟩ : Invocation) = inv := Option.some.inj hr
        exact fun u hu => List.mem_singleton.1 hu ▸ rfl
    have hone : ∀ s ∈ shapes, s = .batched [1] := fun s hmem => by
      obtain ⟨u, hu, hus⟩ := forall₂_mem_left hs.flip s hmem
      exact Option.some.inj (hus.symm.trans (hshapes u hu))
    fin_cases hi
    · obtain rfl : .input ⟨.batched [1]⟩ = p := LayerKind.primitive.inj (Option.some.inj hk)
      exact fun s hmem => hone s hmem ▸ rfl
    · obtain rfl : .input ⟨.batched [1]⟩ = p := LayerKind.primitive.inj (Option.some.inj hk)
      exact fun s hmem => hone s hmem ▸ rfl
    · obtain rfl : .dense ⟨⟨1, 1, #[2], rfl⟩, some [3], .linear, default⟩ = p :=
        LayerKind.primitive.inj (Option.some.inj hk)
      exact fun s hmem h => absurd h (hone s hmem ▸ by decide)
  obtain ⟨runner, hrunner, zs, hzs, hrun⟩ := predictions_preserved (σ := Unit)
    (reachable_build nestedDense) hm (by simp) (fun x hx => by
      obtain rfl := List.mem_singleton.1 hx
      exact ⟨⟨⟨3⟩, 0, 0⟩, ⟨[], [⟨2⟩]⟩, rfl, rfl, rfl⟩) ⟨rfl, rfl⟩ rfl hs (by decide) hregular
    rfl (by decide) hp hspace
  obtain ⟨z, _, hz, hnil, rfl⟩ := List.forall₂_cons_left_iff.1 hzs
  obtain rfl := List.forall₂_nil_left_iff.1 hnil
  exact ⟨s, z, runner, hs, hp, hrunner, hrun (), hz⟩

/-! ## Where predictions are lost -/

/-- A model that predicts on batches, while its network cannot be run on them. -/
def Lost (g : Graph ℚ) (l : LayerId) (b : Nat) (arrays : List (Grid ℚ)) : Prop :=
  ∃ m s ys, ∃ runner : Runner Unit ℚ, g.model? l = some m ∧ m.outputs.Nodup ∧ g.Rooted m ∧
    0 < b ∧ (∀ a ∈ arrays, a.shape.head? = some b) ∧
    convert g l Settings.standard Registry.standard = .ok s ∧ g.predict l arrays = .ok ys ∧
    s.runner = .ok runner ∧ ∀ zs x, (runner.predict arrays).exec () ≠ (.ok zs, x)

/-- A model of one layer is lost if the run of its network gives nothing. -/
theorem lost_of_run {steps : List (BuildStep ℚ)} {arrays : List (Grid ℚ)} {q : Provenance}
    {inv : Invocation}
    (hm : (build steps).model? ⟨2⟩ = some ⟨[⟨0⟩], [⟨1⟩], [⟨0⟩, ⟨1⟩], false⟩)
    (hq : (build steps).producer? ⟨0⟩ = some q) (hr : (build steps).record? q.source = some inv)
    (hin : inv.inputs = []) (hb : 0 < b) (hbatch : ∀ a ∈ arrays, a.shape.head? = some b)
    (hp : ((build steps).predict ⟨2⟩ arrays).toOption.isSome)
    (hrun : (do
      let s ← convert (build steps) ⟨2⟩ Settings.standard Registry.standard
      let runner : Runner Unit ℚ ← s.runner
      return ((runner.predict arrays).exec ()).1.toOption.isSome : Outcome Bool).toOption =
        some false) : Lost (build steps) ⟨2⟩ b arrays := by
  obtain ⟨ys, hys⟩ := Option.isSome_iff_exists.1 hp
  obtain ⟨s, hs, hrun⟩ := bind_eq_ok.1 (toOption_eq_some.1 hrun)
  obtain ⟨runner, hrunner, hrun⟩ := bind_eq_ok.1 hrun
  refine ⟨_, s, ys, runner, hm, by simp, fun x hx => ?_, hb, hbatch, hs, toOption_eq_some.1 hys,
    hrunner, fun zs x hzs => ?_⟩
  · obtain rfl := List.mem_singleton.1 hx
    exact ⟨q, inv, hq, hr, hin⟩
  · have hnone := pure_eq_ok.1 hrun
    rw [hzs] at hnone
    cases hnone

/-- A dense layer on samples without axes, which adds two of them up. -/
def summed : List (BuildStep ℚ) :=
  [.input "x" [], .wire "sum" (.dense ⟨⟨2, 1, #[1, 1], rfl⟩, none, .linear, default⟩) [⟨0⟩],
    .model "summed" [⟨0⟩] [⟨1⟩]]

/-- A dense layer without features and units, but with a node for biases. -/
def idle : List (BuildStep ℚ) :=
  [.input "x" [0], .wire "d" (.dense ⟨⟨0, 0, #[], rfl⟩, some [], .linear, default⟩) [⟨0⟩],
    .model "idle" [⟨0⟩] [⟨1⟩]]

/-- Predictions are lost if the units of a dense layer take the place of the
    batch, and if the tensors have no places, but memory cannot hold a batch for
    the node of the biases. -/
theorem predictions_lost : Lost (build summed) ⟨2⟩ 2 [⟨[2], #[3, 5], rfl⟩] ∧
    Lost (build idle) ⟨2⟩ (2 ^ 61) [⟨[2 ^ 61, 0], #[], rfl⟩] := by
  constructor
  · exact lost_of_run rfl rfl rfl rfl (by decide) (by decide) (by decide +kernel)
      (by decide +kernel)
  · exact lost_of_run rfl rfl rfl rfl (by decide) (by simp) (by decide +kernel) (by decide +kernel)

end Session
end Neuroform

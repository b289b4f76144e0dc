/-
  Neuroform — a converted network settles on the values of the model.

  Along a conversion, the object of every converted invocation settles on what
  the output of the invocation evaluates to (`Simulates`), if the constant
  nodes of the sources hold what is fed to their tensors.  Sources are the
  entries that nothing feeds: a constant node is made for each of them
  (`Simulates.source`).  All other invocations are staged once their inputs
  have been converted, and their conversion realizes them
  (`Simulates.convert`).
-/
import Neuroform.Proofs.Conversion.Holding
import Neuroform.Proofs.Conversion.Realized
import Neuroform.Proofs.Graph.Flow

namespace Neuroform

open Neuroform.Graph

/-! ## Batches in a graph -/

namespace Graph

variable {α : Type} [Scalar α] {g : Graph α} {values : Valuation α} {b : Nat} {i : InvocationId}
  {inv : Invocation} {t u : TensorId} {q : Provenance} {dims : List Nat} {v : Grid α}

/-- A tensor of samples of known dimensions, behind a batch dimension. -/
def Samples (g : Graph α) (t : TensorId) (dims : List Nat) : Prop :=
  ∃ s, g.shape? t = some s ∧ s.Samples dims

/-- Nothing is given to an invocation of an entry. -/
def IsSource (g : Graph α) (i : InvocationId) : Prop :=
  g.IsEntry i.layer ∧ ∃ inv, g.record? i = some inv ∧ inv.inputs = []

/-- The layer of an invocation is applied to samples as they are meant to be. -/
def RegularAt (g : Graph α) (b : Nat) (i : InvocationId) : Prop :=
  ∀ inv shapes p, g.record? i = some inv → g.kind? i.layer = some (.primitive p) →
    List.Forall₂ (fun t s => g.shape? t = some s) inv.inputs shapes → p.Regular b shapes

/-- What is fed are batches of samples. -/
def FedBatches (g : Graph α) (values : Valuation α) (b : Nat) : Prop :=
  ∀ t v, values.lookup t = some v → ∃ dims, g.Samples t dims ∧ v.Batch b dims

omit [Scalar α] in
theorem Samples.known (h : g.Samples t dims) : g.Dims t dims :=
  let ⟨s, hs, hd⟩ := h
  ⟨s, hs, hd.withoutBatch⟩

omit [Scalar α] in
theorem Samples.unique {dims' : List Nat} (h : g.Samples t dims) (h' : g.Samples t dims') :
    dims = dims' := h.known.unique h'.known

omit [Scalar α] in
theorem Samples.of_sameShape (h : g.Samples t dims) (hs : g.SameShape t u) : g.Samples u dims := by
  obtain ⟨s, ht, hd⟩ := h
  obtain ⟨s', ht', hu⟩ := hs
  obtain rfl := Option.some.inj (ht.symm.trans ht')
  exact ⟨s, hu, hd⟩

omit [Scalar α] in
theorem Samples.shape {s : Shape} (h : g.Samples t dims) (hs : g.shape? t = some s) :
    s.Samples dims := by
  obtain ⟨s', hs', hd⟩ := h
  obtain rfl := Option.some.inj (hs.symm.trans hs')
  exact hd

/-- The output of a source has the value that is fed to it. -/
theorem Gives.source (hs : g.Sound) (h : g.Gives values q v) (hi : g.IsSource q.source) :
    ∃ inv t, g.record? q.source = some inv ∧ inv.outputs = [t] ∧ g.Resolves t q ∧ q.output = 0 ∧
      values.lookup t = some v := by
  obtain ⟨t, hp, hprim, hev⟩ := h
  obtain ⟨⟨d, hd⟩, inv, hr, hin⟩ := hi
  obtain ⟨-, -, t', hout, -⟩ := hs.entry hd hr
  obtain ⟨-, ht⟩ := hs.made_of_producer hp hr
  obtain rfl : t = t' := by
    have hmem := List.mem_of_getElem? ht
    rwa [hout, List.mem_singleton] at hmem
  have h0 : q.output = 0 := by
    have hlt := (List.getElem?_eq_some_iff.1 ht).1
    simpa [hout] using hlt
  refine ⟨inv, t, hr, hout, .here hp hprim, h0, ?_⟩
  cases hu : values.lookup t with
  | some v' => rw [Evaluates.unique (.fed hu) hev]
  | none =>
    -- an entry cannot be evaluated without an input
    obtain ⟨op, vs, rs, hop, hvs, hrs, -⟩ := hev.made hu hp hprim hr
    obtain rfl : d.operation = op := by
      have hd' : g.kind? q.layer = some (.primitive (.input d)) := hd
      simpa [operation?, hd', LayerKind.operation?, Primitive.operation] using hop
    rw [hin] at hvs
    obtain rfl := List.forall₂_nil_left_iff.1 hvs
    obtain ⟨x, hx, -⟩ := bind_eq_ok.1 hrs
    cases orRefuse_eq_ok.1 hx

/-- The outputs of all other invocations are what their layers make. -/
theorem Gives.made (hs : g.Sound) (hf : g.RootsFed values) (h : g.Gives values q v)
    (hi : ¬g.IsSource q.source) {p : Primitive α} (hk : g.kind? q.layer = some (.primitive p))
    (hr : g.record? q.source = some inv) : ∃ vs ys shapes outs,
      g.Applied q.source inv p.operation shapes outs ∧
      List.Forall₂ (g.Evaluates values) inv.inputs vs ∧ p.operation.forward vs = .ok ys ∧
      ys.length = inv.outputs.length ∧ ys[q.output]? = some v ∧
      ∃ t, inv.outputs[q.output]? = some t ∧ g.Evaluates values t v := by
  obtain ⟨t, hp, hprim, hev⟩ := h
  have hop : g.operation? q.layer = some p.operation := by
    simp [operation?, hk, LayerKind.operation?]
  obtain ⟨hmade, hout⟩ := hs.made_of_producer hp hr
  obtain ⟨shapes, outs, happlied⟩ := hmade.applied_of_operation hop
  have hu : values.lookup t = none := by
    cases hu : values.lookup t with
    | none => rfl
    | some v' =>
      obtain ⟨q', inv', hq', hentry, hr', hin⟩ := hf t v' hu
      obtain rfl := Option.some.inj (hp.symm.trans hq')
      exact absurd ⟨hentry, inv', hr', hin⟩ hi
  obtain ⟨op, vs, ys, hop', hvs, hys, hlen, hv⟩ := hev.made hu hp hprim hr
  obtain rfl := Option.some.inj (hop.symm.trans hop')
  exact ⟨vs, ys, shapes, outs, happlied, hvs, hys, hlen, hv, t, hout, hev⟩

end Graph

/-! ## Looking up dimensions -/

section
variable {α : Type} [Scalar α] {w w' : Workspace α} {i : InvocationId} {p : Primitive α} {v : View}

namespace Workspace

theorem inputDims_eq_ok {dims : List Nat} : w.inputDims i = .ok dims ↔
    ∃ inv t, w.graph.record? i = some inv ∧ inv.inputs = [t] ∧ w.graph.Dims t dims :=
  invocationShape_resolved

omit [Scalar α] in
theorem allInputDims_eq_ok {ds : List (List Nat)} (h : w.allInputDims i = .ok ds) :
    ∃ inv, w.graph.record? i = some inv ∧ List.Forall₂ w.graph.Dims inv.inputs ds := by
  obtain ⟨ss, hss, h⟩ := bind_eq_ok.1 h
  obtain ⟨inv, hr, hshapes⟩ := invocationShapes_eq_ok.1 hss
  refine ⟨inv, hr, forall₂_comp (fun t s dims hs hd => ?_) hshapes (mapM_forall₂.1 h)⟩
  obtain ⟨s', hs', rfl⟩ := hs
  exact ⟨s', hs', resolved_eq_ok.1 hd⟩

/-- A constant node is made for a source. -/
theorem draws_convertInput {inv : Invocation} (h : (Rule.convertInput i).exec w = (.ok v, w'))
    (hr : w.graph.record? i = some inv) (hin : inv.inputs = []) : v = .full w.next ∧
      ∃ size, w.Draws ⟨[.node (.constant (List.replicate size 0))], []⟩ w' := by
  rw [Rule.convertInput, Step.exec_get_bind] at h
  obtain ⟨layer, hl, h⟩ := Step.exec_lift_bind_eq_ok.1 h
  obtain ⟨inv', hinv, h⟩ := Step.exec_lift_bind_eq_ok.1 h
  obtain rfl := Option.some.inj (hr.symm.trans ((layer_invocation hl).1 hinv))
  rw [if_pos (by simp [hin])] at h
  obtain ⟨_, -, h⟩ := Step.exec_lift_bind_eq_ok.1 h
  obtain ⟨size, -, h⟩ := Step.exec_lift_bind_eq_ok.1 h
  obtain ⟨_, -, h⟩ := Step.exec_lift_bind_eq_ok.1 h
  obtain ⟨o, w'', ho, h⟩ := Step.exec_bind_eq_ok.1 h
  obtain ⟨rfl, rfl⟩ := Step.exec_pure_eq_ok.1 h
  obtain ⟨rfl, hd⟩ := draws_addObject ho
  exact ⟨rfl, size, hd⟩

end Workspace

/-- A layer of the caller is only converted if the dimensions of its output are
    known. -/
theorem Rule.Conversion.known {wrapped : Bool} {c : InvocationId → Step (Workspace α) View}
    (h : Rule.Conversion wrapped p c) {inv : Invocation} {shapes outs : List Shape}
    (hr : w.graph.record? i = some inv) (ha : w.graph.Applied i inv p.operation shapes outs)
    (ran : (c i).exec w = (.ok v, w')) : ∀ op, p = .custom op → ∀ s,
      op.outputShapes shapes = .ok [s] → ∃ dims, s.withoutBatch = .concrete dims := by
  rintro op rfl s hs
  cases h with
  | wrapped =>
    rw [Rule.convertWrapped, Step.exec_get_bind] at ran
    obtain ⟨_, -, ran⟩ := Step.exec_lift_bind_eq_ok.1 ran
    obtain ⟨_, -, ran⟩ := Step.exec_lift_bind_eq_ok.1 ran
    obtain ⟨_, -, ran⟩ := Step.exec_lift_bind_eq_ok.1 ran
    obtain ⟨_, -, ran⟩ := Step.exec_lift_bind_eq_ok.1 ran
    obtain ⟨dims, hdims, -⟩ := Step.exec_lift_bind_eq_ok.1 ran
    obtain ⟨inv', t, hr', hout, s', hs', hd⟩ := Workspace.outputDims_eq_ok.1 hdims
    obtain rfl := Option.some.inj (hr.symm.trans hr')
    obtain rfl := Except.ok.inj (hs.symm.trans ha.inferred)
    obtain ⟨u, _, hu, -, hcons⟩ := List.forall₂_cons_right_iff.1 ha.outputs
    obtain rfl : t = u := (List.cons.inj (hout.symm.trans hcons)).1
    obtain rfl := Option.some.inj (hu.symm.trans hs')
    exact ⟨dims, hd⟩

end

namespace Session

variable {α : Type} [Field α] [LinearOrder α] [Elementary α] [Printed α] {g : Graph α}
  {settings : Settings α} {values : Valuation α} {fed fed' : States α} {b : Nat}
  {entries : List (Entry α)} {e : Entry α} {w w' : Workspace α} {p : Primitive α}
  {c : InvocationId → Step (Workspace α) View} {v : View}

/-! ## Converted invocations -/

/-- An object settles on what the only output of an invocation evaluates to. -/
structure Carried (g : Graph α) (values : Valuation α) (fed : States α) (b : Nat)
    (w : Workspace α) (i : InvocationId) (t : TensorId) (dims : List Nat) (x : Grid α)
    (o : ObjectId) : Prop where
  record : ∃ inv, g.record? i = some inv ∧ inv.outputs = [t]
  samples : g.Samples t dims
  evaluates : g.Evaluates values t x
  batch : x.Batch b dims
  view : w.views.lookup i = some [.full o]
  carries : w.network.sketch.Carries fed b o dims x

/-- The network of a conversion simulates its model: all objects settle, those
    of converted invocations on what the outputs evaluate to.  The objects of
    sources are fed, and only these. -/
structure Simulates (g : Graph α) (values : Valuation α) (b : Nat) (entries : List (Entry α))
    (w : Workspace α) (fed : States α) : Prop where
  checked : w.network.sketch.Checked
  settles : ∀ o : ObjectId, o.index < w.next.index → ∃ t, w.network.sketch.Settles fed b o t
  carried : ∀ e ∈ entries, ∃ t dims x o, Carried g values fed b w e.invocation t dims x o
  fedValues : ∀ o x, fed.lookup o = some x → o.index < w.next.index ∧
    ∃ t dims y, values.lookup t = some y ∧ w.tensorView t = .ok (.full o) ∧ x.Holds b dims y
  sourcesFed : ∀ e ∈ entries, g.IsSource e.invocation → ∀ o : ObjectId,
    w.views.lookup e.invocation = some [.full o] → ∃ x, fed.lookup o = some x

namespace Simulates

/-- Nothing is fed to objects that are not there yet. -/
theorem unfed (h : Simulates g values b entries w fed) {o : ObjectId}
    (ho : w.next.index ≤ o.index) : fed.lookup o = none := by
  cases hx : fed.lookup o with
  | none => rfl
  | some x => exact absurd (h.fedValues o x hx).1 (not_lt.2 ho)

/-- The view of a tensor whose invocation has been converted settles on its
    value. -/
theorem tensor (h : Simulates g values b entries w fed) (hg : g.Sound)
    (hf : g.FedAtEntries values) (hrun : Run g settings entries w) {t : TensorId} {q : Provenance}
    (hq : g.Resolves t q) (hi : q.source ∈ converted entries) {x : Grid α}
    (hx : g.Evaluates values t x) : ∃ dims o, g.Samples t dims ∧ x.Batch b dims ∧
      w.tensorView t = .ok (.full o) ∧ w.network.sketch.Carries fed b o dims x := by
  obtain ⟨e, he, heq⟩ := List.mem_map.1 hi
  obtain ⟨u, dims, y, o, ⟨inv, hr, hout⟩, hsamples, hev, hbatch, hview, hcarries⟩ := h.carried e he
  rw [heq] at hr hview
  -- the tensor stands for the only output of the invocation
  obtain ⟨inv', u', hr', hout', hsame⟩ := hq.sameShape hg
  obtain rfl := Option.some.inj (hr.symm.trans hr')
  have h0 : q.output = 0 := by
    have hlt := (List.getElem?_eq_some_iff.1 hout').1
    simpa [hout] using hlt
  obtain rfl : u = u' := by simpa [hout, h0] using hout'
  obtain ⟨q', hq', u'', hp, -, hev'⟩ := hx.gives hf
  obtain rfl := hq.unique hq'
  obtain ⟨-, hout''⟩ := hg.made_of_producer hp hr
  obtain rfl : u = u'' := by simpa [hout, h0] using hout''
  obtain rfl := hev.unique hev'
  exact ⟨dims, o, hsamples.of_sameShape hsame, hbatch,
    (hrun.tensorView_eq_ok hg).2 ⟨q, hq, h0, hview⟩, hcarries⟩

/-- What has been converted is still simulated when the network grows, and more
    is fed to new objects. -/
theorem grow (h : Simulates g values b entries w fed) {part : Sketch α} (hd : w.Draws part w')
    (hleads : part.LeadsFrom w.next)
    (hold : ∀ o : ObjectId, o.index < w.next.index → fed'.lookup o = fed.lookup o)
    (hi : w.views.lookup e.invocation = none) {o : ObjectId}
    (hfed : ∀ u x, fed'.lookup u = some x → w.next.index ≤ u.index → u.index < w'.next.index ∧
      ∃ t dims y, values.lookup t = some y ∧ { w' with
        views := (e.invocation, [.full o]) :: w'.views }.tensorView t = .ok (.full u) ∧
        x.Holds b dims y)
    (hsource : g.IsSource e.invocation → ∃ x, fed'.lookup o = some x)
    (hnew : ∀ u : ObjectId, w.next.index ≤ u.index → u.index < w'.next.index →
      ∃ t, w'.network.sketch.Settles fed' b u t)
    (hcarried : ∃ t dims x, Carried g values fed' b
      { w' with views := (e.invocation, [.full o]) :: w'.views } e.invocation t dims x o) :
    Simulates g values b (entries ++ [e])
      { w' with views := (e.invocation, [.full o]) :: w'.views } fed' := by
  have hsettles : ∀ {u x}, w.network.sketch.Settles fed b u x →
      w'.network.sketch.Settles fed' b u x := fun hx => by
    rw [hd.sketch]
    exact hx.append hleads hold
  have hviews : ∀ e' ∈ entries, ((e.invocation, [View.full o]) :: w'.views).lookup e'.invocation =
      w.views.lookup e'.invocation := by
    intro e' he'
    obtain ⟨_, _, _, _, hc⟩ := h.carried e' he'
    have hne : e'.invocation ≠ e.invocation := fun heq => by
      have hview := hc.view
      rw [heq, hi] at hview
      cases hview
    rw [List.lookup_cons, beq_false_of_ne hne, hd.framed.views]
  refine ⟨hd.checked h.checked, fun u hu => ?_, fun e' he' => ?_, fun u x hx => ?_,
    fun e' he' hs u hu => ?_⟩
  · by_cases hlt : u.index < w.next.index
    · obtain ⟨x, hx⟩ := h.settles u hlt
      exact ⟨x, hsettles hx⟩
    · exact hnew u (not_lt.1 hlt) hu
  · rcases List.mem_append.1 he' with he' | he'
    · obtain ⟨t, dims, x, u, hr, hsamples, hev, hbatch, hview, y, hy, hold⟩ := h.carried e' he'
      exact ⟨t, dims, x, u, hr, hsamples, hev, hbatch, (hviews e' he').trans hview, y, hsettles hy,
        hold⟩
    · obtain rfl := List.mem_singleton.1 he'
      obtain ⟨t, dims, x, hc⟩ := hcarried
      exact ⟨t, dims, x, o, hc⟩
  · by_cases hlt : u.index < w.next.index
    · rw [hold u hlt] at hx
      obtain ⟨-, t, dims, y, hy, hview, hholds⟩ := h.fedValues u x hx
      exact ⟨lt_of_lt_of_le hlt (hd.next ▸ Nat.le_add_right _ _), t, dims, y, hy,
        Workspace.tensorView_converted hd.framed.graph hd.framed.views hi hview, hholds⟩
    · exact hfed u x hx (not_lt.1 hlt)
  · rcases List.mem_append.1 he' with he' | he'
    · rw [hviews e' he'] at hu
      obtain ⟨x, hx⟩ := h.sourcesFed e' he' hs u hu
      exact ⟨x, (hold u (h.fedValues u x hx).1).trans hx⟩
    · obtain rfl := List.mem_singleton.1 he'
      obtain rfl : o = u := by simpa [View.full] using hu
      exact hsource hs

/-- An invocation that is converted behind those of its inputs. -/
structure Next (g : Graph α) (settings : Settings α) (values : Valuation α) (b : Nat)
    (entries : List (Entry α)) (e : Entry α) (p : Primitive α)
    (c : InvocationId → Step (Workspace α) View) : Prop where
  fresh : e.invocation ∉ converted entries
  kind : g.kind? e.invocation.layer = some (.primitive p)
  conversion : Rule.Conversion e.wrapped p c
  supports : e.wrapped = false → ∃ layer, g.layer e.invocation.layer = .ok layer ∧
    Rule.Supports g layer settings p
  inputs : ∃ inv, g.record? e.invocation = some inv ∧
    ∀ u ∈ inv.inputs, ∃ q, g.Resolves u q ∧ q.source ∈ converted entries
  gives : ∃ q x, q.source = e.invocation ∧ g.Gives values q x
  regular : g.RegularAt b e.invocation

/-- A source gets a constant node, which is fed with the value of its tensor. -/
theorem source (h : Simulates g values b entries w fed) (hg : g.Sound)
    (hrun : Run g settings entries w) (hbatches : g.FedBatches values b)
    (hn : Next g settings values b entries e p c) (hsource : g.IsSource e.invocation)
    (hnative : e.wrapped = false) (ran : (c e.invocation).exec w = (.ok v, w')) :
    ∃ fed', Simulates g values b (entries ++ [e])
      { w' with views := (e.invocation, [v]) :: w'.views } fed' := by
  obtain ⟨q, x, hqe, hgives⟩ := hn.gives
  obtain ⟨inv, t, hr, hout, hresolves, h0, hx⟩ := hgives.source hg (hqe ▸ hsource)
  rw [hqe] at hr
  obtain ⟨dims, hsamples, hbatch⟩ := hbatches t x hx
  -- the entry is converted natively, and nothing is given to it
  obtain ⟨⟨d, hd⟩, inv', hr', hin⟩ := hsource
  obtain rfl := Option.some.inj (hr.symm.trans hr')
  have hran : (Rule.convertInput e.invocation).exec w = (.ok v, w') := by
    obtain rfl : p = .input d := by simpa using hn.kind.symm.trans hd
    have hc := hn.conversion
    rw [hnative] at hc
    cases hc
    exact ran
  obtain ⟨rfl, size, hdraws⟩ := Workspace.draws_convertInput hran (hrun.graph_eq ▸ hr) hin
  obtain ⟨table, hold⟩ : ∃ table : Table α, table.Holds b dims x :=
    ⟨⟨b, volume dims, x.cells, by rw [x.size_cells, hbatch.shape]; rfl⟩,
      hbatch.shape, rfl, rfl, rfl⟩
  have hsettles : w'.network.sketch.Settles ((w.next, table) :: fed) b w.next table := by
    have hinto : w'.network.sketch.into w.next = [] := hdraws.into h.checked (le_refl _)
    have hkind := hdraws.kind?_next
    have hreacts : ∀ input : Table α, input.Reads b 0 (fun _ _ => 0) →
        ∃ t, ObjectKind.react (.node (.constant (List.replicate size 0)))
          (List.lookup w.next ((w.next, table) :: fed)) b input = .ok t ∧ t = table :=
      fun _ _ => ⟨table, by rw [List.lookup_cons_self]; rfl, rfl⟩
    obtain ⟨_, hsettles, rfl⟩ := Sketch.settles_of_adds hkind rfl (hinto ▸ adds_nil) hreacts
    exact hsettles
  refine ⟨(w.next, table) :: fed, h.grow hdraws (by simp [Sketch.LeadsFrom]) (fun o ho => ?_)
    (hrun.lookup_none hn.fresh) (fun u y hy hu => ?_) (fun _ => ⟨table, List.lookup_cons_self⟩)
    (fun u hu hu' => ?_) ⟨t, dims, x,
      ⟨inv, hr, hout⟩, hsamples, .fed hx, hbatch, by simp, table, hsettles, hold⟩⟩
  · rw [List.lookup_cons, beq_false_of_ne fun heq => ?_]
    rw [heq] at ho
    exact lt_irrefl _ ho
  · rw [List.lookup_cons] at hy
    split at hy
    case h_1 heq =>
      obtain rfl := beq_iff_eq.1 heq
      obtain rfl := Option.some.inj hy
      have hgraph : w'.graph = g := hdraws.framed.graph.trans hrun.graph_eq
      have hprovenance : w'.graph.resolveProvenance t = .ok q := by
        rw [hgraph]
        exact (resolveProvenance_eq_ok hg).2 hresolves
      exact ⟨by simp [hdraws.next], t, dims, x, hx, Workspace.tensorView_eq_ok.2 ⟨q, hprovenance,
        [.full w.next], by simp [hqe], by simp [h0]⟩, hold⟩
    case h_2 =>
      rw [h.unfed hu] at hy
      cases hy
  · obtain ⟨j, hj, rfl⟩ := hdraws.exists_new hu hu'
    obtain rfl : j = 0 := by simpa using hj
    exact ⟨table, hsettles⟩

/-- An invocation whose inputs have been converted is staged. -/
theorem staged (h : Simulates g values b entries w fed) (hg : g.Sound) (hb : 0 < b)
    (hf : g.RootsFed values) (hrun : Run g settings entries w) (hplain : settings.Plain)
    (hmax : settings.maxToAverage = false) (hn : Next g settings values b entries e p c)
    (hsource : ¬g.IsSource e.invocation) (ran : (c e.invocation).exec w = (.ok v, w')) :
    ∃ t ins vs out y, w.Staged fed b e.invocation p ins vs out y ∧
      (e.wrapped = false → p.Native ins) ∧
      (∃ inv, g.record? e.invocation = some inv ∧ inv.outputs = [t]) ∧ g.Samples t out ∧
      g.Evaluates values t y := by
  obtain ⟨q, x, hqe, hgives⟩ := hn.gives
  obtain ⟨inv, hr, hfound⟩ := hn.inputs
  have hlayer : q.layer = e.invocation.layer := congrArg InvocationId.layer hqe
  obtain ⟨vs, ys, shapes, outs, happlied, hvs, hys, hlen, hx, t, ht, hev⟩ :=
    hgives.made hg hf (hqe ▸ hsource) (hlayer ▸ hn.kind) (hqe ▸ hr)
  rw [hqe] at happlied
  have htensor : ∀ u ∈ inv.inputs, ∀ {y}, g.Evaluates values u y → ∃ dims o, g.Samples u dims ∧
      y.Batch b dims ∧ w.tensorView u = .ok (.full o) ∧
      w.network.sketch.Carries fed b o dims y := fun u hu y hy =>
    let ⟨q', hq', hi⟩ := hfound u hu
    h.tensor hg hf.fedAtEntries hrun hq' hi hy
  obtain ⟨ins, hins⟩ : ∃ ins, List.Forall₂ g.Samples inv.inputs ins := exists_forall₂ fun u hu => by
    obtain ⟨y, -, hy⟩ := forall₂_mem_left hvs u hu
    obtain ⟨dims, -, hd, -⟩ := htensor u hu hy
    exact ⟨dims, hd⟩
  have hshapes : List.Forall₂ Shape.Samples shapes ins :=
    forall₂_comp (fun _ _ _ hs hd => hd.shape hs) happlied.inputs.flip hins
  have hbatches : List.Forall₂ (fun dims y => Grid.Batch y b dims) ins vs := by
    refine forall₂_of_getElem? (hins.length_eq.symm.trans hvs.length_eq) fun k dims y hd hy => ?_
    obtain ⟨u, hu, hsamples⟩ := forall₂_getElem? hins.flip hd
    obtain ⟨y', hy', hev⟩ := forall₂_getElem? hvs hu
    obtain rfl := Option.some.inj (hy.symm.trans hy')
    obtain ⟨_, -, hsamples', hbatch, -⟩ := htensor u (List.mem_of_getElem? hu) hev
    exact Samples.unique hsamples hsamples' ▸ hbatch
  have hregular := hn.regular inv shapes p hr hn.kind happlied.inputs
  obtain ⟨s, out, y, rfl, hout, rfl, hy⟩ := hregular.batches
    (hn.conversion.known (hrun.graph_eq ▸ hr) (hrun.graph_eq ▸ happlied) ran) hshapes
    happlied.inferred hb hbatches hys
  -- there is one output, which evaluates to what the layer makes
  obtain ⟨t', _, hshape, hnil, houts⟩ := List.forall₂_cons_right_iff.1 happlied.outputs
  obtain rfl := List.forall₂_nil_right_iff.1 hnil
  have h0 : q.output = 0 := by
    have hlt := (List.getElem?_eq_some_iff.1 ht).1
    simpa [houts] using hlt
  obtain rfl : t' = t := by simpa [houts, h0] using ht
  obtain rfl : y = x := by simpa [h0] using hx
  have hdims : g.Samples t' out := ⟨s, hshape, hout⟩
  refine ⟨t', ins, vs, out, y, ⟨hrun.settings_eq ▸ hplain, h.checked, fun o => h.unfed, hb,
    ⟨shapes, s, hshapes, hregular, happlied.inferred, hout⟩, hbatches, hys, hy, ?_, ?_, ?_, ?_, ?_⟩,
    fun hw => ?_, ⟨inv, hr, houts⟩, hdims, hev⟩
  · intro inv' hr'
    rw [hrun.graph_eq] at hr'
    obtain rfl := Option.some.inj (hr.symm.trans hr')
    exact hins.length_eq
  · intro k view hview
    obtain ⟨inv', u, hr', hu, hview⟩ := Workspace.inputView_eq_ok.1 hview
    rw [hrun.graph_eq] at hr'
    obtain rfl := Option.some.inj (hr.symm.trans hr')
    obtain ⟨dims, hd, hsamples⟩ := forall₂_getElem? hins hu
    obtain ⟨z, hz, hev⟩ := forall₂_getElem? hvs hu
    obtain ⟨dims', o, hsamples', -, hview', hcarries⟩ := htensor u (List.mem_of_getElem? hu) hev
    obtain rfl := hsamples.unique hsamples'
    exact ⟨o, dims, z, hd, hz, Except.ok.inj (hview.symm.trans hview'), hcarries⟩
  · intro dims hd
    obtain ⟨inv', u, hr', hu, hd⟩ := Workspace.inputDims_eq_ok.1 hd
    rw [hrun.graph_eq] at hr' hd
    obtain rfl := Option.some.inj (hr.symm.trans hr')
    rw [hu] at hins
    obtain ⟨dims', _, hsamples, hnil, rfl⟩ := List.forall₂_cons_left_iff.1 hins
    obtain rfl := List.forall₂_nil_left_iff.1 hnil
    rw [hsamples.known.unique hd]
  · intro ds hd
    obtain ⟨inv', hr', hd⟩ := Workspace.allInputDims_eq_ok hd
    rw [hrun.graph_eq] at hr' hd
    obtain rfl := Option.some.inj (hr.symm.trans hr')
    rw [← List.forall₂_eq_eq_eq]
    exact forall₂_comp (fun dims u dims' (hd : g.Dims u dims) (hs : g.Samples u dims') =>
      hd.unique hs.known) hd.flip hins
  · intro dims hd
    obtain ⟨inv', u, hr', hu, hd⟩ := Workspace.outputDims_eq_ok.1 hd
    rw [hrun.graph_eq] at hr' hd
    obtain rfl := Option.some.inj (hr.symm.trans hr')
    obtain rfl := List.singleton_inj.1 (houts.symm.trans hu)
    exact hd.unique hdims.known
  · obtain ⟨layer, hl, hsupports⟩ := hn.supports hw
    refine hsupports.native hregular hmax (fun l hp hnil => hsource ?_) (fun d hp => ?_) hshapes
    · subst hp hnil
      obtain hnil := List.forall₂_nil_right_iff.1 hins
      exact ⟨⟨l, hn.kind⟩, inv, hr, hnil⟩
    · subst hp
      obtain ⟨s', hs', -⟩ := bind_eq_ok.1 happlied.inferred
      obtain rfl := onlyInput_eq_ok.1 hs'
      obtain ⟨u, _, hu, hnil, hin⟩ := List.forall₂_cons_right_iff.1 happlied.inputs
      obtain rfl := List.forall₂_nil_right_iff.1 hnil
      obtain ⟨x, hx, hxs⟩ := shape?_eq_some.1 hu
      have hmem := orRefuse_eq_ok.1 ((layer_invocation hl).2 hr)
      exact ⟨inv, Array.mem_of_getElem? hmem, u, x, hin, hx, congrArg ([·]) hxs⟩

/-- Any other invocation is realized by its conversion. -/
theorem convert (h : Simulates g values b entries w fed) (hg : g.Sound) (hb : 0 < b)
    (hf : g.RootsFed values) (hrun : Run g settings entries w) (hplain : settings.Plain)
    (hmax : settings.maxToAverage = false) (hn : Next g settings values b entries e p c)
    (hsource : ¬g.IsSource e.invocation) (ran : (c e.invocation).exec w = (.ok v, w'))
    (hfits : w'.network.sketch.Fits b) : Simulates g values b (entries ++ [e])
      { w' with views := (e.invocation, [v]) :: w'.views } fed := by
  obtain ⟨t, ins, vs, out, y, hstaged, hnative, hrecord, hsamples, hev⟩ :=
    h.staged hg hb hf hrun hplain hmax hn hsource ran
  obtain ⟨⟨part, hd, hleads⟩, hsettles, o, rfl, hcarries⟩ :=
    hstaged.realized hn.conversion hnative ran hfits
  refine h.grow hd hleads (fun _ _ => rfl) (hrun.lookup_none hn.fresh) (fun u x hx hu => ?_)
    (fun hs => absurd hs hsource) hsettles
    ⟨t, out, y, hrecord, hsamples, hev, hstaged.output, by simp, hcarries⟩
  rw [h.unfed hu] at hx
  cases hx

end Simulates

/-! ## Whole conversions -/

/-- A traced part of a graph has values: batches are fed to the entries of
    models that nothing else feeds, and every layer is applied to samples as
    they are meant to be. -/
structure Plays (g : Graph α) (values : Valuation α) (b : Nat) (order : List Provenance) :
    Prop where
  batch : 0 < b
  roots : g.RootsFed values
  batches : g.FedBatches values b
  traced : g.Traced order
  gives : ∀ i ∈ sources order, ∃ q x, q.source = i ∧ g.Gives values q x
  regular : ∀ i ∈ sources order, g.RegularAt b i

/-- What is converted next has its inputs behind it. -/
theorem Plays.next {order : List Provenance} (h : Plays g values b order)
    (chosen : Chosen g settings e.invocation.layer e.wrapped p c)
    (hpicked : ∃ r, Picked g settings e.invocation.layer e.wrapped r)
    (hbegins : converted entries ++ [e.invocation] <+: sources order) :
    Simulates.Next g settings values b entries e p c := by
  obtain ⟨rest, hrest⟩ := hbegins
  obtain ⟨before, q, after, hbefore, hq, rfl⟩ : ∃ before q after,
      sources before = converted entries ∧ q.source = e.invocation ∧
      order = before ++ q :: after := by
    rw [List.append_assoc] at hrest
    obtain ⟨before, last, rfl, hbefore, hlast⟩ := List.map_eq_append_iff.1 hrest.symm
    obtain ⟨q, after, rfl, hq, -⟩ := List.map_eq_cons_iff.1 hlast
    exact ⟨before, q, after, hbefore, hq, rfl⟩
  have hmem : e.invocation ∈ sources (before ++ q :: after) := hrest ▸ by simp
  obtain ⟨inv, hr, hfound⟩ := h.traced.found rfl
  refine ⟨fun hi => ?_, chosen.kind, chosen.conversion, fun hw => ?_,
    ⟨inv, hq ▸ hr, hbefore ▸ hfound⟩,
    h.gives _ hmem, h.regular _ hmem⟩
  · have hnodup := h.traced.nodup
    rw [← hrest, List.nodup_append] at hnodup
    exact (List.nodup_append.1 hnodup.1).2.2 _ hi _ (by simp) rfl
  · obtain ⟨r, hr⟩ := hpicked
    obtain ⟨p', c', hchosen, -, -, -, hsupports⟩ := hr.rule
    obtain rfl : p = p' := by simpa using chosen.kind.symm.trans hchosen.kind
    exact hsupports hw

/-- **A conversion makes a network that simulates its model.** -/
theorem Run.simulates {order : List Provenance} (hrun : Run g settings entries w) (hg : g.Sound)
    (hplain : settings.Plain) (hmax : settings.maxToAverage = false) (h : Plays g values b order)
    (hpicked : ∀ e ∈ entries, ∃ r, Picked g settings e.invocation.layer e.wrapped r)
    (hbegins : converted entries <+: sources order) (hfits : w.network.sketch.Fits b) :
    ∃ fed, Simulates g values b entries w fed := by
  induction hrun with
  | start label warnings =>
    exact ⟨[], nofun, fun o ho => absurd ho (Nat.not_lt_zero _), nofun, nofun, nofun⟩
  | note run warnings probes ih =>
    obtain ⟨fed, hs⟩ := ih hpicked hbegins hfits
    exact ⟨fed, hs.checked, hs.settles, fun e he =>
      let ⟨t, dims, x, o, hc⟩ := hs.carried e he
      ⟨t, dims, x, o, hc.record, hc.samples, hc.evaluates, hc.batch, hc.view, hc.carries⟩,
      hs.fedValues, hs.sourcesFed⟩
  | @convert entries w w' e p c v run chosen ran extends' ih =>
    have hpicked' := hpicked e (by simp)
    have hbegins' : converted entries ++ [e.invocation] <+: sources order := by
      simpa [converted] using hbegins
    have hnext := h.next chosen hpicked' hbegins'
    have hfits' : w.network.sketch.Fits b := fun k hk => hfits k (by
      change k ∈ w'.network.sketch.kinds
      rw [extends', Network.sketch_extend]
      exact List.mem_append_left _ hk)
    obtain ⟨fed, hs⟩ := ih (fun e' he' => hpicked e' (List.mem_append_left _ he'))
      ((List.prefix_append _ _).trans hbegins') hfits'
    by_cases hsource : g.IsSource e.invocation
    · obtain ⟨r, hr⟩ := hpicked'
      exact hs.source hg run h.batches hnext hsource
        (Bool.eq_false_iff.2 fun hw => hr.entry hw hsource.1) ran
    · exact ⟨fed, hs.convert hg h.batch h.roots run hplain hmax hnext hsource ran hfits⟩

end Session
end Neuroform

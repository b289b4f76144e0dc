/-
  Neuroform — the sizes of the views of a conversion.

  An object that is made for an invocation has a value for every place of its
  output.  A view that is handed on keeps its size, and so do the samples that
  are flattened or reshaped.  But an entry that is called hands on the view of
  the tensor it is given, whatever shape it declares, so sizes are right if and
  only if all of these tensors fit (`sized_iff_fitting`).
-/
import Neuroform.Proofs.Conversion.Holding

namespace Neuroform

open Neuroform.Graph

variable {α : Type} [Scalar α]

omit [Scalar α] in
theorem Network.viewSizeOut_full {n : Network α} {o : ObjectId} {k : Nat} :
    n.viewSizeOut (.full o) = .ok k ↔ ∃ x, n.objects[o.index]? = some x ∧ x.kind.sizeOut = k := by
  rw [viewSizeOut, bind_eq_ok]
  constructor
  · rintro ⟨x, hx, h⟩
    exact ⟨x, object_eq_ok.1 hx, pure_eq_ok.1 h⟩
  · rintro ⟨x, hx, h⟩
    exact ⟨x, object_eq_ok.2 hx, pure_eq_ok.2 h⟩

namespace Graph
variable {g : Graph α} {i : InvocationId} {t : TensorId} {dims dims' : List Nat}

/-- If an invocation calls an entry with a tensor, samples of that tensor have
    as many places as the entry declares. -/
def Fitting (g : Graph α) (i : InvocationId) : Prop :=
  ∀ inv t, g.IsEntry i.layer → g.record? i = some inv → inv.inputs = [t] →
    ∃ dims dims', g.Dims t dims ∧ g.OutputDims i dims' ∧ volume dims' = volume dims

/-- What an invocation hands on has as many places as its output. -/
theorem outputDims_of_handsOn (hg : g.Sound) {wrapped : Bool} {p : Primitive α}
    (hk : g.kind? i.layer = some (.primitive p)) (hhands : Rule.HandsOn g i wrapped p)
    (hfit : g.Fitting i) {inv : Invocation} (hr : g.record? i = some inv)
    (ht : inv.inputs[0]? = some t) (hd : g.Dims t dims) :
    ∃ dims', g.OutputDims i dims' ∧ volume dims' = volume dims := by
  have hop : g.operation? i.layer = some p.operation := by
    simp [operation?, hk, LayerKind.operation?]
  obtain ⟨shapes, outputShapes, happlied⟩ := hg.applied hop hr
  have hkeeps : KeepsPlaces shapes outputShapes →
      ∃ dims', g.OutputDims i dims' ∧ volume dims' = volume dims := by
    intro hkeeps
    obtain ⟨u, dims', hout, hu, hvolume⟩ := happlied.keepsDims hkeeps ht hd
    exact ⟨dims', ⟨inv, u, hr, hout, hu⟩, hvolume⟩
  cases hhands with
  | flatten => exact hkeeps (keepsPlaces_flatten happlied.inferred)
  | reshape r => exact hkeeps (Reshape.keepsPlaces happlied.inferred)
  | entry d hr' hfed =>
    obtain ⟨-, hlength, -⟩ := hg.entry hk hr
    have hin : inv.inputs = [t] := by
      rcases hinputs : inv.inputs with _ | ⟨u, _ | ⟨u', us⟩⟩
      · simp [hinputs] at ht
      · simpa [hinputs] using ht
      · simp [hinputs] at hlength
    obtain ⟨dims₀, dims', hd₀, hdims', hvolume⟩ := hfit inv t ⟨d, hk⟩ hr hin
    obtain rfl := hd.unique hd₀
    exact ⟨dims', hdims', hvolume⟩

end Graph

/-- The view of an invocation is all of an object with a value for every place
    of the output. -/
def Workspace.Sized (w : Workspace α) (i : InvocationId) : Prop :=
  ∃ o dims, w.views.lookup i = some [.full o] ∧ w.outputDims i = .ok dims ∧
    w.network.viewSizeOut (.full o) = .ok (volume dims)

namespace Session

variable {g : Graph α} {settings : Settings α} {entries : List (Entry α)} {w : Workspace α}
  {e : Entry α} {s : Session α} {l : LayerId} {m : ModelDef}

/-- An object that is made for an invocation has the size of its output. -/
theorem Held.sized {v : View} (hg : w.graph = g) (h : Held g w e v)
    (hv : w.views.lookup e.invocation = some [v]) (hown : ¬e.HandsOn g) :
    w.Sized e.invocation := by
  subst hg
  cases h with
  | @made p dims o x kind own known object fills =>
    exact ⟨o, dims, hv, Workspace.outputDims_eq_ok.2 known,
      Network.viewSizeOut_full.2 ⟨x, object, fills.1⟩⟩
  | handed hands _ => exact absurd hands hown

/-- A tensor has the size of the view that stands for it, if its invocation
    has. -/
theorem dims_of_sized (hg : g.Sound) (hw : w.graph = g) {t : TensorId} {p : Provenance}
    (hp : g.Resolves t p) (h0 : p.output = 0) {v : View}
    (hv : w.views.lookup p.source = some [v]) (hs : w.Sized p.source) :
    ∃ o dims, v = .full o ∧ g.Dims t dims ∧
      w.network.viewSizeOut (.full o) = .ok (volume dims) := by
  obtain ⟨o, dims, hv', hdims, hsize⟩ := hs
  obtain rfl : v = .full o := by simpa using hv.symm.trans hv'
  obtain ⟨inv, u, hr, hout, hu⟩ := hw ▸ Workspace.outputDims_eq_ok.1 hdims
  obtain ⟨inv', u', hr', hout', hsame⟩ := hp.sameShape hg
  obtain rfl := Option.some.inj (hr.symm.trans hr')
  obtain rfl : u = u' := by simpa [hout, h0] using hout'
  exact ⟨o, dims, rfl, hu.of_sameShape hsame, hsize⟩

/-- A view that is handed on has the size of the output, if it has that of the
    input. -/
theorem sized_of_sources (hg : g.Sound) (hd : Completed g settings entries w) (he : e ∈ entries)
    (hfit : g.Fitting e.invocation)
    (hsources : ∀ inv, g.record? e.invocation = some inv → ∀ t ∈ inv.inputs, ∀ p,
      g.Resolves t p → p.source ∈ converted entries → w.Sized p.source) :
    w.Sized e.invocation := by
  obtain ⟨v, hv, hheld⟩ := hd.holds.held e he
  by_cases hown : e.HandsOn g
  case neg => exact hheld.sized hd.run.graph_eq hv hown
  cases hheld with
  | made _ own => exact absurd hown own
  | handed hands input =>
    obtain ⟨inv, t, hr, ht, hview⟩ := Workspace.inputView_eq_ok.1 input
    rw [hd.run.graph_eq] at hr
    obtain ⟨p, e', he', hp, h0, hep, hlook, -⟩ := hd.entry_of_view hg hview
    rw [hep] at hlook
    have hsized := hsources inv hr t (List.mem_of_getElem? ht) p hp
      (hep ▸ List.mem_map_of_mem he')
    obtain ⟨o, dims, rfl, hdims, hsize⟩ := dims_of_sized hg hd.run.graph_eq hp h0 hlook hsized
    obtain ⟨q, hk, hhands⟩ := hands
    obtain ⟨dims', hdims', hvolume⟩ := outputDims_of_handsOn hg hk hhands hfit hr ht hdims
    rw [← hvolume] at hsize
    rw [← hd.run.graph_eq] at hdims'
    exact ⟨o, dims', hv, Workspace.outputDims_eq_ok.2 hdims', hsize⟩

/-- **If every called entry fits**, all views have the sizes of the outputs that
    they stand for. -/
theorem sized_of_fitting (hg : g.Sound) (hd : Completed g settings entries w)
    (hfit : ∀ e ∈ entries, g.Fitting e.invocation) : ∀ e ∈ entries, w.Sized e.invocation := by
  have hsource : ∀ (n : Nat) (t : TensorId) (p : Provenance), t.index = n → g.Resolves t p →
      p.source ∈ converted entries → w.Sized p.source := by
    -- what an invocation reads is older than what it makes
    intro n
    induction n using Nat.strong_induction_on with
    | _ n ih =>
    rintro t p rfl hp hmem
    obtain ⟨e, he, hep⟩ := List.mem_map.1 hmem
    obtain ⟨u, inv, _, _, _, hle, -, hr, hu, happlied⟩ := hp.applied hg
    rw [← hep]
    refine sized_of_sources hg hd he (hfit e he) ?_
    intro inv' hr' t' ht' p' hp' hmem'
    rw [hep] at hr'
    obtain rfl := Option.some.inj (hr.symm.trans hr')
    have hlt : t'.index < u.index := happlied.ordered t' ht' u (List.mem_of_getElem? hu)
    exact ih t'.index (hlt.trans_le hle) t' p' rfl hp' hmem'
  intro e he
  refine sized_of_sources hg hd he (hfit e he) ?_
  intro inv hr t ht p hp hmem
  exact hsource t.index t p rfl hp hmem

/-- Entries fit if the views of all invocations have the right sizes. -/
theorem fitting_of_sized (hg : g.Sound) (hd : Completed g settings entries w)
    (hsized : ∀ i ∈ converted entries, w.Sized i) : ∀ i ∈ converted entries, g.Fitting i := by
  intro i hi inv t hentry hr hin
  obtain ⟨e, he, rfl⟩ := List.mem_map.1 hi
  obtain ⟨v, hv, hview⟩ := hd.view_of_called he hentry hr hin
  obtain ⟨p, e', he', hp, h0, hep, hlook, -⟩ := hd.entry_of_view hg hview
  rw [hep] at hlook
  obtain ⟨o, dims, rfl, hdims, hsize⟩ := dims_of_sized hg hd.run.graph_eq hp h0 hlook
    (hsized _ (hep ▸ List.mem_map_of_mem he'))
  obtain ⟨o', dims', hv', hdims', hsize'⟩ := hsized _ hi
  obtain rfl : o = o' := by simpa [View.full] using hv.symm.trans hv'
  have hvolume : volume dims' = volume dims := Except.ok.inj (hsize'.symm.trans hsize)
  exact ⟨dims, dims', hdims, hd.run.graph_eq ▸ Workspace.outputDims_eq_ok.1 hdims', hvolume⟩

/-- **Objects have the size of the tensors that they stand for, except behind
    entries that were called with others than they declare**: if a conversion
    succeeds, every traced invocation that an object is made for has one with a
    value for every place of its output.  The view of an entry that was called is
    that of the tensor which it was called with, and all views have the sizes of
    the outputs that they stand for if and only if these tensors have as many
    places as the entries declare. -/
theorem sized_iff_fitting (h : g.Reachable) (hm : g.model? l = some m)
    (hc : convert g l settings Registry.standard = .ok s) :
    ∃ order entries, g.trace (m.outputs ++ m.inputs) = .ok order ∧
      converted entries = sources order ∧ Run g settings entries s.workspace ∧
      (∀ i, s.workspace.isConverted i = true ↔ i ∈ sources order) ∧
      (∀ e ∈ entries, ¬e.HandsOn g → s.workspace.Sized e.invocation) ∧
      (∀ i ∈ sources order, g.IsEntry i.layer → ∀ inv t, g.record? i = some inv →
        inv.inputs = [t] → ∃ v, s.workspace.views.lookup i = some [v] ∧
          s.workspace.tensorView t = .ok v) ∧
      ((∀ i ∈ sources order, s.workspace.Sized i) ↔ ∀ i ∈ sources order, g.Fitting i) := by
  obtain ⟨order, entries, s₁, ho, hdone, hd, -⟩ := convert_completed h.sound hm hc
  refine ⟨order, entries, ho, hdone, hd.run, ?_, ?_, ?_, ?_⟩
  · intro i
    rw [← hdone, Workspace.isConverted]
    constructor
    · intro hi
      obtain ⟨views, hviews⟩ := Option.isSome_iff_exists.1 hi
      obtain ⟨e, he, rfl⟩ := hd.run.exists_entry hviews
      exact List.mem_map_of_mem he
    · intro hi
      obtain ⟨v, hv⟩ := hd.run.lookup hi
      rw [hv]
      rfl
  · intro e he hown
    obtain ⟨v, hv, hheld⟩ := hd.holds.held e he
    exact hheld.sized hd.run.graph_eq hv hown
  · intro i hi hentry inv t hr hin
    rw [← hdone] at hi
    obtain ⟨e, he, rfl⟩ := List.mem_map.1 hi
    exact hd.view_of_called he hentry hr hin
  · rw [← hdone]
    constructor
    · exact fitting_of_sized h.sound hd
    · intro hfit i hi
      obtain ⟨e, he, rfl⟩ := List.mem_map.1 hi
      exact sized_of_fitting h.sound hd (fun e he => hfit _ (List.mem_map_of_mem he)) e he

/-- A model that passes samples of two places on, called with one of three, and
    a model around the call. -/
def misfed : List (BuildStep ℚ) :=
  [.input "x" [2], .model "inner" [⟨0⟩] [⟨0⟩], .input "u" [3], .call ⟨1⟩ [⟨1⟩],
    .model "outer" [⟨1⟩] [⟨3⟩]]

/-- The called entry has two places, and the view of the three that it was
    called with. -/
theorem sized_iff_fitting_misfed : ∃ s, convert (build misfed) ⟨3⟩ Settings.standard
      Registry.standard = .ok s ∧ (build misfed).OutputDims ⟨⟨0⟩, 1⟩ [2] ∧
    (build misfed).OutputDims ⟨⟨2⟩, 0⟩ [3] ∧ s.workspace.Sized ⟨⟨2⟩, 0⟩ ∧
    ¬s.workspace.Sized ⟨⟨0⟩, 1⟩ := by
  have hmodel : (build misfed).model? ⟨3⟩ = some ⟨[⟨1⟩], [⟨3⟩], [⟨2⟩, ⟨1⟩], false⟩ := by cbv
  have htrace : (build misfed).trace [⟨3⟩, ⟨1⟩] = .ok [⟨⟨2⟩, 0, 0⟩, ⟨⟨0⟩, 1, 0⟩] := by cbv
  have hcalled : (build misfed).record? ⟨⟨0⟩, 1⟩ = some ⟨[⟨1⟩], [⟨2⟩]⟩ := by cbv
  have houter : (build misfed).record? ⟨⟨2⟩, 0⟩ = some ⟨[], [⟨1⟩]⟩ := by cbv
  have hx : (build misfed).OutputDims ⟨⟨0⟩, 1⟩ [2] := ⟨_, ⟨2⟩, hcalled, rfl, _, by rfl, rfl⟩
  have hu : (build misfed).Dims ⟨1⟩ [3] := ⟨_, by rfl, rfl⟩
  have hok : (convert (build misfed) ⟨3⟩ Settings.standard Registry.standard).toOption.isSome := by
    decide +kernel
  obtain ⟨s, hs⟩ := Option.isSome_iff_exists.1 hok
  have hs := toOption_eq_some.1 hs
  obtain ⟨order, entries, horder, hdone, hrun, -, hmade, -, hiff⟩ :=
    sized_iff_fitting (reachable_build misfed) hmodel hs
  obtain rfl := Except.ok.inj (htrace.symm.trans horder)
  have hsized : s.workspace.Sized ⟨⟨2⟩, 0⟩ := by
    obtain ⟨e, _, rfl, he, -⟩ := List.map_eq_cons_iff.1 hdone
    have hentry : (build misfed).IsEntry e.invocation.layer := ⟨_, by rw [he]; rfl⟩
    have hown := not_handsOn_of_entry hentry ((congrArg _ he).trans houter) rfl
    have hsize := hmade e (by simp) hown
    rwa [he] at hsize
  refine ⟨s, hs, hx, ⟨_, ⟨1⟩, houter, rfl, hu⟩, hsized, ?_⟩
  intro hwrong
  have hall : ∀ i ∈ sources [⟨⟨2⟩, 0, 0⟩, ⟨⟨0⟩, 1, 0⟩], s.workspace.Sized i := by
    simp [sources, Provenance.source, hsized, hwrong]
  have hfit := hiff.1 hall ⟨⟨0⟩, 1⟩ (by simp [sources, Provenance.source])
  obtain ⟨dims, dims', hdims, hdims', hvolume⟩ := hfit _ ⟨1⟩ ⟨_, by rfl⟩ hcalled rfl
  obtain rfl := hdims.unique hu
  obtain rfl := hdims'.unique hx
  exact absurd hvolume (by decide)

end Session
end Neuroform

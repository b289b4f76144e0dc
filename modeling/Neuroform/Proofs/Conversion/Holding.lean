/-
  Neuroform — what a conversion holds for its invocations.

  Every converted invocation has a view: all of an object that was made for it,
  or the view of its first input, if it hands that on (`Held`).  An object is
  made for one invocation only (`Run.distinct`).
-/
import Neuroform.Proofs.Conversion.Ends
import Neuroform.Proofs.Conversion.Targets
import Neuroform.Proofs.Graph.Dims

namespace Neuroform

open Neuroform.Graph

variable {α : Type} [Scalar α]

/-! ## Views of tensors -/

namespace Workspace
variable {w : Workspace α} {i : InvocationId}

theorem outputDims_eq_ok {dims : List Nat} :
    w.outputDims i = .ok dims ↔ w.graph.OutputDims i dims := invocationShape_resolved

omit [Scalar α] in
theorem tensorView_eq_ok {t : TensorId} {v : View} : w.tensorView t = .ok v ↔
    ∃ p, w.graph.resolveProvenance t = .ok p ∧
      ∃ views, w.views.lookup p.source = some views ∧ views[p.output]? = some v := by
  rw [tensorView, bind_eq_ok]
  refine exists_congr fun p => and_congr_right fun _ => ?_
  change orRefuse ((w.views.lookup p.source).bind (·[p.output]?)) _ = .ok v ↔ _
  rw [orRefuse_eq_ok, Option.bind_eq_some_iff]

theorem inputView_eq_ok {input : Nat} {v : View} : w.inputView i input = .ok v ↔
    ∃ inv t, w.graph.record? i = some inv ∧ inv.inputs[input]? = some t ∧
      w.tensorView t = .ok v := by
  constructor
  · intro h
    obtain ⟨layer, hl, h⟩ := bind_eq_ok.1 h
    obtain ⟨inv, hinv, h⟩ := bind_eq_ok.1 h
    obtain ⟨t, ht, h⟩ := bind_eq_ok.1 h
    exact ⟨inv, t, (layer_invocation hl).1 hinv, orRefuse_eq_ok.1 ht, h⟩
  · rintro ⟨inv, t, hr, ht, h⟩
    obtain ⟨layer, hl⟩ := layer_of_record hr
    refine bind_eq_ok.2 ⟨layer, hl, bind_eq_ok.2 ⟨inv, (layer_invocation hl).2 hr, ?_⟩⟩
    exact bind_eq_ok.2 ⟨t, orRefuse_eq_ok.2 ht, h⟩

omit [Scalar α] in
/-- The view of a tensor stays when another invocation is converted. -/
theorem tensorView_converted {w' : Workspace α} (hg : w'.graph = w.graph)
    (hv : w'.views = w.views) (hi : w.views.lookup i = none) {views : List View} {t : TensorId}
    {v : View} (h : w.tensorView t = .ok v) :
    { w' with views := (i, views) :: w'.views }.tensorView t = .ok v := by
  obtain ⟨p, hp, vs, hvs, hv'⟩ := tensorView_eq_ok.1 h
  refine tensorView_eq_ok.2 ⟨p, hg ▸ hp, vs, ?_, hv'⟩
  have hne : p.source ≠ i := by
    rintro rfl
    rw [hi] at hvs
    cases hvs
  rw [List.lookup_cons, beq_false_of_ne hne, hv]
  exact hvs

theorem inputView_converted {w' : Workspace α} (hg : w'.graph = w.graph)
    (hv : w'.views = w.views) (hi : w.views.lookup i = none) {views : List View}
    {j : InvocationId} {input : Nat} {v : View} (h : w.inputView j input = .ok v) :
    { w' with views := (i, views) :: w'.views }.inputView j input = .ok v := by
  obtain ⟨inv, t, hr, ht, h⟩ := inputView_eq_ok.1 h
  exact inputView_eq_ok.2 ⟨inv, t, hg ▸ hr, ht, tensorView_converted hg hv hi h⟩

end Workspace

namespace Session

variable {g : Graph α} {settings : Settings α} {entries : List (Entry α)} {w w' : Workspace α}
  {e : Entry α}

/-- A tensor has the view of the invocation that it comes from. -/
theorem Run.tensorView_eq_ok (hg : g.Sound) (h : Run g settings entries w) {t : TensorId}
    {v : View} : w.tensorView t = .ok v ↔
      ∃ p, g.Resolves t p ∧ p.output = 0 ∧ w.views.lookup p.source = some [v] := by
  rw [Workspace.tensorView_eq_ok, h.graph_eq]
  constructor
  · rintro ⟨p, hp, views, hviews, hv⟩
    obtain ⟨v', rfl⟩ : ∃ v', views = [v'] := h.single _ (mem_of_lookup hviews)
    have h0 : p.output = 0 := by
      have hlt := (List.getElem?_eq_some_iff.1 hv).1
      simpa using hlt
    rw [h0] at hv
    obtain rfl : v' = v := by simpa using hv
    exact ⟨p, (resolveProvenance_eq_ok hg).1 hp, h0, hviews⟩
  · rintro ⟨p, hp, h0, hviews⟩
    exact ⟨p, (resolveProvenance_eq_ok hg).2 hp, [v], hviews, by rw [h0]; rfl⟩

/-- What has a view has been converted. -/
theorem Run.exists_entry (h : Run g settings entries w) {i : InvocationId} {views : List View}
    (hlook : w.views.lookup i = some views) : ∃ e ∈ entries, e.invocation = i := by
  by_contra hnone
  have hi : i ∉ converted entries := fun hmem => hnone (List.mem_map.1 hmem)
  rw [h.lookup_none hi] at hlook
  cases hlook

/-! ## Views of invocations -/

/-- An entry hands its first input on. -/
def Entry.HandsOn (g : Graph α) (e : Entry α) : Prop :=
  ∃ p, g.kind? e.invocation.layer = some (.primitive p) ∧
    Rule.HandsOn g e.invocation e.wrapped p

omit [Scalar α] in
/-- An entry of a model that was not called with a tensor hands nothing on. -/
theorem not_handsOn_of_entry (hentry : g.IsEntry e.invocation.layer) {inv : Invocation}
    (hr : g.record? e.invocation = some inv) (hempty : inv.inputs = []) : ¬e.HandsOn g := by
  obtain ⟨d, hk⟩ := hentry
  rintro ⟨p, hk', hhands⟩
  obtain rfl : .input d = p := by simpa using hk.symm.trans hk'
  generalize e.wrapped = wrapped at hhands
  cases hhands with
  | entry _ hr' hfed =>
    obtain rfl := Option.some.inj (hr.symm.trans hr')
    exact hfed hempty

/-- The view that is held for a converted invocation. -/
inductive Held (g : Graph α) (w : Workspace α) (e : Entry α) : View → Prop where
  | made {p : Primitive α} {dims : List Nat} {o : ObjectId} {x : Object α}
    (kind : g.kind? e.invocation.layer = some (.primitive p)) (own : ¬e.HandsOn g)
    (known : g.OutputDims e.invocation dims) (object : w.network.objects[o.index]? = some x)
    (fills : Rule.Fills w.settings e.invocation.layer e.wrapped p dims x.kind) :
    Held g w e (.full o)
  | handed {v : View} (hands : e.HandsOn g) (input : w.inputView e.invocation 0 = .ok v) :
    Held g w e v

/-- What is held for an entry is not changed when more is converted. -/
theorem Held.mono {v : View} (h : Held g w e v) (hs : w'.settings = w.settings)
    (ho : ∀ (k : Nat) (x : Object α), w.network.objects[k]? = some x →
      w'.network.objects[k]? = some x)
    (hv : ∀ v, w.inputView e.invocation 0 = .ok v → w'.inputView e.invocation 0 = .ok v) :
    Held g w' e v := by
  cases h with
  | made kind own known object fills => exact .made kind own known (ho _ _ object) (hs.symm ▸ fills)
  | handed hands input => exact .handed hands (hv _ input)

/-- What a conversion holds: a view for every entry, and different ones for
    entries that objects were made for. -/
structure Holds (g : Graph α) (entries : List (Entry α)) (w : Workspace α) : Prop where
  held : ∀ e ∈ entries, ∃ v, w.views.lookup e.invocation = some [v] ∧ Held g w e v
  distinct : ∀ e ∈ entries, ∀ e' ∈ entries, e.invocation ≠ e'.invocation → ¬e.HandsOn g →
    ¬e'.HandsOn g → w.views.lookup e.invocation ≠ w.views.lookup e'.invocation

/-- What was held before another invocation is converted is held afterwards,
    by objects that were there before. -/
theorem Holds.before (hs : Holds g entries w) (hframe : w.Framed w') {part : Part α}
    (hpart : w'.network = w.network.extend part) {i : InvocationId}
    (hi : w.views.lookup i = none) (views : List View) (he : e ∈ entries) :
    ((i, views) :: w'.views).lookup e.invocation = w.views.lookup e.invocation ∧
      ∃ v, w.views.lookup e.invocation = some [v] ∧
        Held g { w' with views := (i, views) :: w'.views } e v ∧
        (¬e.HandsOn g → ∃ o : ObjectId, v = .full o ∧ o.index < w.network.objects.size) := by
  obtain ⟨v, hv, hheld⟩ := hs.held e he
  have hne : e.invocation ≠ i := by
    rintro rfl
    rw [hi] at hv
    cases hv
  refine ⟨?_, v, hv, hheld.mono hframe.settings ?_ ?_, ?_⟩
  · rw [List.lookup_cons, beq_false_of_ne hne, hframe.views]
  · intro k x hx
    have hlt := (Array.getElem?_eq_some_iff.1 hx).1
    rw [hpart, Network.extend, Array.getElem?_append_left hlt, hx]
  · intro v
    exact Workspace.inputView_converted hframe.graph hframe.views hi
  · intro hown
    cases hheld with
    | @made p dims o x _ _ _ object _ => exact ⟨o, rfl, (Array.getElem?_eq_some_iff.1 object).1⟩
    | handed hands _ => exact absurd hands hown

/-- What a rule gives for an invocation is held for it. -/
theorem Held.of_result {p : Primitive α} {v : View} (hg : w.graph = g) (hframe : w.Framed w')
    (hk : g.kind? e.invocation.layer = some (.primitive p))
    (h : Rule.Result e.wrapped p e.invocation w v w') (hi : w.views.lookup e.invocation = none) :
    Held g { w' with views := (e.invocation, [v]) :: w'.views } e v ∧
      (¬e.HandsOn g → v = .full ⟨w.network.objects.size⟩) := by
  subst hg
  rcases h with ⟨hown, dims, o, hdims, rfl, rfl, x, hx, hfills⟩ | ⟨hands, hv, rfl⟩
  · have hown' : ¬e.HandsOn w.graph := by
      rintro ⟨p', hk', hands⟩
      obtain rfl : p = p' := by simpa using hk.symm.trans hk'
      exact hown hands
    have hdims' : w.graph.OutputDims e.invocation dims := Workspace.outputDims_eq_ok.1 hdims
    exact ⟨.made hk hown' hdims' hx (hframe.settings.symm ▸ hfills), fun _ => rfl⟩
  · have hhands : e.HandsOn w'.graph := ⟨p, hk, hands⟩
    refine ⟨.handed hhands ?_, fun hown => absurd hhands hown⟩
    exact Workspace.inputView_converted rfl rfl hi hv

/-- Converting one more invocation. -/
theorem Holds.convert (hs : Holds g entries w) (hframe : w.Framed w') {part : Part α}
    (hpart : w'.network = w.network.extend part) (hi : w.views.lookup e.invocation = none)
    {v : View} (hnew : Held g { w' with views := (e.invocation, [v]) :: w'.views } e v)
    (hobject : ¬e.HandsOn g → v = .full ⟨w.network.objects.size⟩) :
    Holds g (entries ++ [e]) { w' with views := (e.invocation, [v]) :: w'.views } := by
  have hbefore := fun e' (he' : e' ∈ entries) => hs.before hframe hpart hi [v] he'
  have hself : ((e.invocation, [v]) :: w'.views).lookup e.invocation = some [v] := by simp
  -- the object of the new entry is behind all those that others hold
  have hbehind : ∀ e' ∈ entries, ¬e.HandsOn g → ¬e'.HandsOn g →
      ((e.invocation, [v]) :: w'.views).lookup e'.invocation ≠
        ((e.invocation, [v]) :: w'.views).lookup e.invocation := by
    intro e' he' hown hown' heq
    obtain ⟨hlook, v', hv', -, hobject'⟩ := hbefore e' he'
    obtain ⟨o, rfl, hlt⟩ := hobject' hown'
    rw [hself, hlook, hv', hobject hown] at heq
    obtain rfl : o = ⟨w.network.objects.size⟩ := by simpa [View.full] using heq
    exact absurd hlt (lt_irrefl _)
  constructor
  · intro e' he'
    rcases List.mem_append.1 he' with he' | he'
    · obtain ⟨hlook, v', hv', hheld, -⟩ := hbefore e' he'
      exact ⟨v', hlook.trans hv', hheld⟩
    · obtain rfl := List.mem_singleton.1 he'
      exact ⟨v, hself, hnew⟩
  · intro e₁ he₁ e₂ he₂ hne hown₁ hown₂
    change ((e.invocation, [v]) :: w'.views).lookup e₁.invocation ≠
      ((e.invocation, [v]) :: w'.views).lookup e₂.invocation
    rcases List.mem_append.1 he₁ with h₁ | h₁ <;> rcases List.mem_append.1 he₂ with h₂ | h₂
    · rw [(hbefore e₁ h₁).1, (hbefore e₂ h₂).1]
      exact hs.distinct e₁ h₁ e₂ h₂ hne hown₁ hown₂
    · obtain rfl := List.mem_singleton.1 h₂
      exact hbehind e₁ h₁ hown₂ hown₁
    · obtain rfl := List.mem_singleton.1 h₁
      exact (hbehind e₂ h₂ hown₁ hown₂).symm
    · rw [List.mem_singleton.1 h₁, List.mem_singleton.1 h₂] at hne
      exact absurd rfl hne

/-- **A conversion holds** a view for every invocation that it has converted. -/
theorem Run.holds (h : Run g settings entries w) (hnodup : (converted entries).Nodup) :
    Holds g entries w := by
  induction h with
  | start => exact ⟨by simp, by simp⟩
  | note run warnings probes ih =>
    refine ⟨fun e he => ?_, (ih hnodup).distinct⟩
    obtain ⟨v, hv, hheld⟩ := (ih hnodup).held e he
    exact ⟨v, hv, hheld.mono rfl (fun _ _ h => h) fun _ h => h⟩
  | @convert entries w w' e p c v run chosen ran extends' ih =>
    rw [converted, List.map_append, List.nodup_append] at hnodup
    obtain ⟨hold, -, hfresh⟩ := hnodup
    have hi : w.views.lookup e.invocation = none :=
      run.lookup_none fun hmem => hfresh _ hmem _ (by simp) rfl
    obtain ⟨layer, hl, -⟩ := kind?_eq_some.1 chosen.kind
    obtain ⟨hframe, -⟩ := (chosen.conversion.builds (run.graph_eq.symm ▸ hl)).of_ok ran
    obtain ⟨hnew, hobject⟩ := Held.of_result run.graph_eq hframe chosen.kind
      (chosen.conversion.result.of_ok ran) hi
    exact (ih hold).convert hframe extends' hi hnew hobject

/-! ## Whole conversions -/

/-- What a conversion comes to: its entries hold their views, and those of
    models have been converted natively. -/
structure Completed (g : Graph α) (settings : Settings α) (entries : List (Entry α))
    (w : Workspace α) : Prop where
  run : Run g settings entries w
  holds : Holds g entries w
  native : ∀ e ∈ entries, g.IsEntry e.invocation.layer → e.wrapped = false

/-- What has been converted is completed at the ends of a model. -/
theorem Ends.completed {m : ModelDef} {s₁ s : Session α} (he : Ends m s₁ s)
    (hs : Walked g settings entries s₁) (hnodup : (converted entries).Nodup) :
    Completed g settings entries s.workspace := by
  have hrun := he.run hs
  refine ⟨hrun, hrun.holds hnodup, fun e he hentry => ?_⟩
  obtain ⟨r, -, hpicked⟩ := hs.used e he
  exact Bool.eq_false_iff.2 fun hw => hpicked.entry hw hentry

/-- A conversion that succeeds comes to a completed one. -/
theorem convert_completed (hg : g.Sound) {l : LayerId} {m : ModelDef} (hm : g.model? l = some m)
    {s : Session α} (hc : convert g l settings Registry.standard = .ok s) :
    ∃ order entries s₁, g.trace (m.outputs ++ m.inputs) = .ok order ∧
      converted entries = sources order ∧ Completed g settings entries s.workspace ∧
      Ends m s₁ s := by
  obtain ⟨order, entries, s₁, ho, hdone, hs, -, hends⟩ := convert_eq_ok hg hm hc
  obtain ⟨htraced, -, -, -⟩ := trace_eq_ok hg ho
  exact ⟨order, entries, s₁, ho, hdone, hends.completed hs (hdone ▸ htraced.nodup), hends⟩

namespace Completed
variable (hd : Completed g settings entries w)
include hd

/-- The entry that a tensor has its view of. -/
theorem entry_of_view (hg : g.Sound) {t : TensorId} {v : View} (hv : w.tensorView t = .ok v) :
    ∃ p, ∃ e ∈ entries, g.Resolves t p ∧ p.output = 0 ∧ e.invocation = p.source ∧
      w.views.lookup e.invocation = some [v] ∧ Held g w e v := by
  obtain ⟨p, hp, h0, hlook⟩ := (hd.run.tensorView_eq_ok hg).1 hv
  obtain ⟨e, he, hep⟩ := hd.run.exists_entry hlook
  obtain ⟨v', hv', hheld⟩ := hd.holds.held e he
  obtain rfl : v = v' := by
    rw [hep, hlook] at hv'
    simpa using hv'
  exact ⟨p, e, he, hp, h0, hep, hv', hheld⟩

/-- The view of an entry that was called is that of the tensor which it was
    called with. -/
theorem view_of_called (he : e ∈ entries) (hentry : g.IsEntry e.invocation.layer)
    {inv : Invocation} {t : TensorId} (hr : g.record? e.invocation = some inv)
    (hin : inv.inputs = [t]) :
    ∃ v, w.views.lookup e.invocation = some [v] ∧ w.tensorView t = .ok v := by
  have hnative := hd.native e he hentry
  obtain ⟨d, hk⟩ := hentry
  have hhands : e.HandsOn g := ⟨.input d, hk, hnative ▸ .entry d hr (by rw [hin]; simp)⟩
  obtain ⟨v, hv, hheld⟩ := hd.holds.held e he
  cases hheld with
  | made _ own => exact absurd hhands own
  | handed _ input =>
    obtain ⟨inv', t', hr', ht', hview⟩ := Workspace.inputView_eq_ok.1 input
    rw [hd.run.graph_eq, hr] at hr'
    obtain rfl := Option.some.inj hr'
    obtain rfl : t = t' := by simpa [hin] using ht'
    exact ⟨v, hv, hview⟩

end Completed

end Session
end Neuroform

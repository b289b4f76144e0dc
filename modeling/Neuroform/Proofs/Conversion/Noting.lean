/-
  Neuroform — what a conversion notes about tensor nodes.

  That a layer is wrapped is noted where its converter is bound, once, though
  every invocation of it adds a tensor node.  That an activation has no native
  counterpart is noted where its tensor node is added.  Both counts are kept
  along a walk (`Walk.noted`).
-/
import Neuroform.Proofs.Conversion.Feedforward
import Neuroform.Proofs.Conversion.Parameters

namespace Neuroform

variable {α : Type}

theorem Part.objects_join (parts : List (Part α)) :
    (join parts).objects = parts.flatMap (·.objects) := by
  induction parts with
  | nil => rfl
  | cons p parts ih =>
    rw [List.flatMap_cons, ← ih]
    rfl

/-- A tensor node is one for an activation, or it wraps a layer. -/
theorem ObjectKind.tensorNode_cases (t : TensorNode α) : (tensorNode t).isActivation = true ∨
    ∃ x, t.function = .layer x ∧ (tensorNode t).layer? = some x := by
  obtain ⟨_, _, _ | x⟩ := t
  · exact .inl rfl
  · exact .inr ⟨x, rfl, rfl⟩

namespace Session

open Neuroform.Graph

/-! ## Owners of tensor nodes -/

/-- The kinds of the objects that an entry has added. -/
def Entry.kinds (e : Entry α) : List (ObjectKind α) := e.part.objects.map (·.kind)

/-- The layers that tensor nodes of an entry wrap. -/
def Entry.layers (e : Entry α) : List (WrappedLayer α) := e.kinds.filterMap ObjectKind.layer?

/-- The layers that own a tensor node of some entries, each of them once. -/
def owners (entries : List (Entry α)) : List LayerId :=
  ((entries.filter (·.layers ≠ [])).map (·.invocation.layer)).dedup

theorem mem_owners {entries : List (Entry α)} {l : LayerId} :
    l ∈ owners entries ↔ ∃ e ∈ entries, e.layers ≠ [] ∧ e.invocation.layer = l := by
  simp [owners, and_assoc]

variable [Scalar α] {g : Graph α} {settings : Settings α} {entries : List (Entry α)}
  {s s' : Session α} {w : Workspace α} {l : LayerId} {fallbacks : List LayerId}

/-- What an entry wraps, by whether its layer is wrapped. -/
def Entry.Wraps (g : Graph α) (e : Entry α) (wrapped : Bool) : Prop :=
  ∃ layer p, g.layer e.invocation.layer = .ok layer ∧ layer.kind = .primitive p ∧
    Rule.Wraps layer p wrapped e.layers

omit [Scalar α] in
theorem Entry.Wraps.iff {e : Entry α} {wrapped : Bool} (h : e.Wraps g wrapped) :
    e.layers ≠ [] ↔ wrapped = true := by
  obtain ⟨layer, p, -, -, hwraps⟩ := h
  generalize e.layers = layers at hwraps ⊢
  cases hwraps <;> simp

omit [Scalar α] in
/-- A tensor node of an entry is one for an activation, or it wraps the layer of
    the entry. -/
theorem Entry.Wraps.tensorNode {e : Entry α} {wrapped : Bool} (h : e.Wraps g wrapped)
    {t : TensorNode α} (ht : .tensorNode t ∈ e.kinds) :
    ObjectKind.isActivation (.tensorNode t) = true ∨ wrapped = true ∧
      ∃ layer p shapes, g.layer e.invocation.layer = .ok layer ∧ layer.kind = .primitive p ∧
        t.function = .layer ⟨layer.name, p, layer.trainable, shapes⟩ := by
  obtain hactivation | ⟨x, hfunction, hx⟩ := ObjectKind.tensorNode_cases t
  · exact .inl hactivation
  have hmem : x ∈ e.layers := List.mem_filterMap.2 ⟨_, ht, hx⟩
  obtain ⟨layer, p, hl, hk, hwraps⟩ := h
  generalize e.layers = layers at hwraps hmem
  cases hwraps with
  | native => cases hmem
  | wrapped shapes =>
    exact .inr ⟨rfl, layer, p, shapes, hl, hk, List.mem_singleton.1 hmem ▸ hfunction⟩

/-- The objects of a converted network are those of its entries, in their
    order. -/
theorem Run.kinds_eq (h : Run g settings entries w) :
    w.network.sketch.kinds = entries.flatMap Entry.kinds := by
  obtain ⟨label, probes, hn⟩ := h.network_eq
  rw [hn]
  change ((Network.empty label settings.inferenceOnly).extend _).sketch.kinds = _
  rw [Network.sketch_extend, Part.objects_join]
  simp only [Network.sketch, Network.empty, Sketch.kinds_append, List.flatMap_map, List.map_flatMap]
  rfl

/-! ## Walks -/

/-- What has been noted in a session of which some layers are wrapped: each of
    these once, and each tensor node for an activation.  The other layers own no
    tensor node. -/
structure Noted (g : Graph α) (settings : Settings α) (entries : List (Entry α))
    (fallbacks : List LayerId) (s : Session α) : Prop where
  nodup : fallbacks.Nodup
  fits : ∀ l c, s.converters.lookup l = some c → Fits g settings l (decide (l ∈ fallbacks)) c
  bound : ∀ e ∈ entries, ∃ c, s.converters.lookup e.invocation.layer = some c
  wraps : ∀ e ∈ entries, e.Wraps g (decide (e.invocation.layer ∈ fallbacks))
  layers : s.workspace.warnings.countP warnsOfLayer = fallbacks.length
  activations : s.workspace.warnings.countP warnsOfActivation =
    s.network.sketch.kinds.countP ObjectKind.isActivation
  allowed : settings.allowFallback = false →
    s.network.sketch.kinds.countP ObjectKind.isActivation = 0

namespace Noted

theorem start (h : Session.start g l settings Registry.standard = .ok s) :
    Noted g settings [] [] s := by
  obtain ⟨-, label, rfl⟩ := start_eq_ok h
  exact ⟨.nil, nofun, nofun, nofun, rfl, rfl, fun _ => rfl⟩

/-- That a model is sequential is a warning of neither kind. -/
theorem sequential (h : Noted g settings entries fallbacks s) :
    Noted g settings entries fallbacks { s with workspace := { s.workspace with
      warnings := s.workspace.warnings ++ ["Converting sequential model to functional model"] } } := by
  obtain ⟨hlayer, hactivation⟩ : warnsOfLayer "Converting sequential model to functional model" =
      false ∧ warnsOfActivation "Converting sequential model to functional model" = false :=
    warns_neither (c := 'l') (by simp) (by decide) (by decide)
  refine { h with layers := ?_, activations := ?_ }
  · simpa [hlayer] using h.layers
  · simpa [hactivation, network] using h.activations

/-- What has been bound fits when one more converter is found that does, if the
    other layers are wrapped as before. -/
theorem fits_of_finds (h : Noted g settings entries fallbacks s) {c : Converter α}
    (hf : Finds g settings l c s s') (fallbacks' : List LayerId)
    (hsame : ∀ l' c', s.converters.lookup l' = some c' → (l' ∈ fallbacks' ↔ l' ∈ fallbacks))
    (hl : Fits g settings l (decide (l ∈ fallbacks')) c) : ∀ l' c',
      s'.converters.lookup l' = some c' → Fits g settings l' (decide (l' ∈ fallbacks')) c' := by
  intro l' c' hc'
  obtain hold | ⟨rfl, rfl⟩ := hf.lookup_cases hc'
  · rw [decide_eq_decide.2 (hsame l' c' hold)]
    exact h.fits l' c' hold
  · exact hl

/-- A layer that is found to be wrapped has not been converted yet, so this is
    noted once. -/
theorem finds (h : Noted g settings entries fallbacks s)
    (hused : fallbacks ⊆ entries.map (·.invocation.layer)) {c : Converter α}
    (hf : Finds g settings l c s s') :
    ∃ fallbacks', Noted g settings entries fallbacks' s' ∧ fallbacks' ⊆ l :: fallbacks := by
  have hbound : ∀ e ∈ entries, ∃ c', s'.converters.lookup e.invocation.layer = some c' :=
    fun e he => (h.bound e he).imp fun _ => hf.lookup_of_some
  have hfits := h.fits_of_finds hf
  cases hf with
  | again => exact ⟨fallbacks, h, List.subset_cons_self _ _⟩
  | @first wrapped notes new fits noted =>
    have hother : ∀ e ∈ entries, e.invocation.layer ≠ l := by
      rintro e he rfl
      obtain ⟨c', hc'⟩ := h.bound e he
      simp [new] at hc'
    have hnew : l ∉ fallbacks := fun hl => by
      obtain ⟨e, he, hel⟩ := List.mem_map.1 (hused hl)
      exact hother e he hel
    cases noted with
    | native =>
      refine ⟨fallbacks, { h with fits := ?_, bound := hbound, layers := ?_, activations := ?_ },
        List.subset_cons_self _ _⟩
      · exact hfits fallbacks (fun _ _ _ => .rfl) (by simpa [hnew] using fits)
      · simpa using h.layers
      · simpa [network] using h.activations
    | wrapped reason =>
      obtain ⟨hlayer, hactivation⟩ := warns_fallback reason
      refine ⟨l :: fallbacks, { h with
        nodup := List.nodup_cons.2 ⟨hnew, h.nodup⟩, fits := ?_, bound := hbound,
        wraps := fun e he => ?_, layers := ?_, activations := ?_ }, List.Subset.refl _⟩
      · refine hfits _ (fun l' c' hc' => ?_) (by simpa using fits)
        have hne : l' ≠ l := fun heq => by simp [← heq, hc'] at new
        simp [hne]
      · simpa [hother e he] using h.wraps e he
      · simpa [hlayer] using h.layers
      · simpa [hactivation, network] using h.activations

/-- Converting an invocation adds the tensor nodes of its layer, which is noted
    already, and those of activations, which it notes. -/
theorem convert (h : Noted g settings entries fallbacks s)
    (run : Run g settings entries s.workspace) {e : Entry α} {r : Rule α} {v : View}
    (bound : s.converters.lookup e.invocation.layer = some (.rule r))
    (ran : (r.convert e.invocation.invocation).exec s.workspace = (.ok (some v), w))
    (extends' : w.network = s.workspace.network.extend e.part) :
    Noted g settings (entries ++ [e]) fallbacks
      { s with workspace := { w with views := (e.invocation, [v]) :: w.views } } := by
  obtain ⟨p, c, hchosen, -, hconvert, -⟩ := (h.fits _ _ bound).rule
  obtain ⟨layer, hl, hk⟩ := kind?_eq_some.1 hchosen.kind
  have hran := Rule.convert_simple_eq_ok.1 (hconvert ▸ ran)
  obtain ⟨part, hd, -, layers, warnings, hwraps, hwarnings, hattached⟩ :=
    (hchosen.conversion.attaches (run.graph_eq.symm ▸ hl) run.feedforward.viewed).of_ok hran
  have hkinds : e.kinds = part.kinds := by
    have hsketch := hd.sketch
    rw [extends', Network.sketch_extend] at hsketch
    exact List.append_cancel_left (congrArg Sketch.kinds hsketch)
  have hnetwork : w.network.sketch.kinds = s.network.sketch.kinds ++ part.kinds :=
    congrArg Sketch.kinds hd.sketch
  refine ⟨h.nodup, h.fits, fun e' he' => ?_, fun e' he' => ?_, ?_, ?_, fun ha => ?_⟩
  · rcases List.mem_append.1 he' with he' | he'
    · exact h.bound e' he'
    · exact ⟨_, List.mem_singleton.1 he' ▸ bound⟩
  · rcases List.mem_append.1 he' with he' | he'
    · exact h.wraps e' he'
    · obtain rfl := List.mem_singleton.1 he'
      refine ⟨layer, p, hl, hk, ?_⟩
      rw [Entry.layers, hkinds, hattached.layers]
      exact hwraps
  · change w.warnings.countP _ = _
    rw [hwarnings, List.countP_append, h.layers, hattached.silent, Nat.add_zero]
  · change w.warnings.countP _ = w.network.sketch.kinds.countP _
    rw [hwarnings, hnetwork, List.countP_append, List.countP_append, h.activations,
      hattached.activations]
  · change w.network.sketch.kinds.countP _ = 0
    rw [hnetwork, List.countP_append, h.allowed ha,
      hattached.allowed (run.settings_eq.symm ▸ ha)]

/-- The wrapped layers that have been converted are those that own tensor
    nodes. -/
theorem owners_perm (h : Noted g settings entries fallbacks s)
    (hused : fallbacks ⊆ entries.map (·.invocation.layer)) : fallbacks.Perm (owners entries) := by
  refine (List.perm_ext_iff_of_nodup h.nodup (List.nodup_dedup _)).2 fun l => ?_
  change _ ↔ l ∈ owners entries
  rw [mem_owners]
  constructor
  · intro hl
    obtain ⟨e, he, rfl⟩ := List.mem_map.1 (hused hl)
    exact ⟨e, he, (h.wraps e he).iff.2 (decide_eq_true hl), rfl⟩
  · rintro ⟨e, he, hwraps, rfl⟩
    exact of_decide_eq_true ((h.wraps e he).iff.1 hwraps)

/-- No layer is wrapped where that is not allowed. -/
theorem eq_nil (h : Noted g settings entries fallbacks s)
    (hused : fallbacks ⊆ entries.map (·.invocation.layer))
    (ha : settings.allowFallback = false) : fallbacks = [] := by
  refine List.eq_nil_iff_forall_not_mem.2 fun l hl => ?_
  obtain ⟨e, he, rfl⟩ := List.mem_map.1 (hused hl)
  obtain ⟨c, hc⟩ := h.bound e he
  have hfits := h.fits _ c hc
  rw [decide_eq_true hl] at hfits
  cases c with
  | rule r =>
    obtain ⟨p, c, hchosen, -⟩ := hfits.rule
    have hallowed := hchosen.fallback rfl
    simp [ha] at hallowed
  | model l' =>
    obtain ⟨-, hwrapped, -⟩ := hfits
    simp at hwrapped

end Noted

/-- **A walk notes what it wraps.** -/
theorem Walk.noted (h : Walk g settings entries s) : ∃ fallbacks,
    Noted g settings entries fallbacks s ∧ fallbacks ⊆ entries.map (·.invocation.layer) := by
  induction h with
  | start start => exact ⟨[], .start start, List.nil_subset _⟩
  | @model entries s s' l l' walk finds ih =>
    obtain ⟨fallbacks, h, hused⟩ := ih
    obtain ⟨fallbacks', h', hsub⟩ := h.finds hused finds
    refine ⟨fallbacks', h', fun x hx => ?_⟩
    -- a model is not wrapped
    obtain ⟨-, hwrapped, -⟩ := h'.fits _ _ finds.lookup_self
    rcases List.mem_cons.1 (hsub hx) with rfl | hx'
    · exact absurd hx (of_decide_eq_false hwrapped)
    · exact hused hx'
  | @convert entries s s' e r v w walk run finds ran extends' ih =>
    obtain ⟨fallbacks, h, hused⟩ := ih
    obtain ⟨fallbacks', h', hsub⟩ := h.finds hused finds
    refine ⟨fallbacks', h'.convert run finds.lookup_self ran extends', fun x hx => ?_⟩
    rw [List.map_append]
    rcases List.mem_cons.1 (hsub hx) with rfl | hx'
    · exact List.mem_append_right _ (by simp)
    · exact List.mem_append_left _ (hused hx')
  | sequential walk ih =>
    obtain ⟨fallbacks, h, hused⟩ := ih
    exact ⟨fallbacks, h.sequential, hused⟩

/-- **No fallback is silent.**  A conversion with the standard registry notes as
    many wrapped layers as own tensor nodes, and as many activations without a
    native counterpart as there are tensor nodes for them.  No other object is a
    tensor node, and where fallbacks are not allowed none is. -/
theorem fallbacks_noted (h : g.Reachable) (hc : convert g l settings Registry.standard = .ok s) :
    ∃ m order entries, g.model? l = some m ∧ g.trace (m.outputs ++ m.inputs) = .ok order ∧
      converted entries = sources order ∧ Run g settings entries s.workspace ∧
      s.network.sketch.kinds = entries.flatMap Entry.kinds ∧
      s.workspace.warnings.countP warnsOfLayer = (owners entries).length ∧
      s.workspace.warnings.countP warnsOfActivation =
        s.network.sketch.kinds.countP ObjectKind.isActivation ∧
      (∀ e ∈ entries, ∀ t, .tensorNode t ∈ e.kinds →
        ObjectKind.isActivation (.tensorNode t) = true ∨
        ∃ layer p shapes, g.layer e.invocation.layer = .ok layer ∧ layer.kind = .primitive p ∧
          t.function = .layer ⟨layer.name, p, layer.trainable, shapes⟩) ∧
      (settings.allowFallback = false → ∀ t, .tensorNode t ∉ s.network.sketch.kinds) := by
  obtain ⟨m, hm⟩ := exists_model hc
  obtain ⟨order, entries, s₁, ho, hdone, hwalked, -, hends⟩ := convert_eq_ok h.sound hm hc
  obtain ⟨fallbacks, hnoted, hused⟩ := hwalked.walk.noted
  have hperm := hnoted.owners_perm hused
  have hrun := hends.run hwalked
  obtain ⟨hwarnings, hkinds⟩ : s.workspace.warnings = s₁.workspace.warnings ∧
      s.network.sketch.kinds = s₁.network.sketch.kinds := by
    obtain ⟨probes, hw⟩ := hends.workspace
    rw [network, hw]
    exact ⟨rfl, rfl⟩
  refine ⟨m, order, entries, hm, ho, hdone, hrun, hrun.kinds_eq, ?_, ?_, ?_, fun ha t ht => ?_⟩
  · rw [hwarnings, hnoted.layers, hperm.length_eq]
  · rw [hwarnings, hkinds, hnoted.activations]
  · exact fun e he t ht => ((hnoted.wraps e he).tensorNode ht).imp_right And.right
  · have hno := List.countP_eq_zero.1 (hnoted.allowed ha)
    obtain ⟨e, he, hte⟩ := List.mem_flatMap.1 (hrun.kinds_eq ▸ ht)
    rcases (hnoted.wraps e he).tensorNode hte with hactivation | ⟨hwrapped, -⟩
    · exact hno _ (hkinds ▸ ht) hactivation
    · simp [hnoted.eq_nil hused ha] at hwrapped

/-- A layer that clips is applied twice, and softmax follows. -/
def clipped : List (BuildStep ℚ) :=
  [.input "x" [1], .wire "clip" (.relu ⟨some 6, 0, 0⟩) [⟨0⟩], .apply ⟨1⟩ [⟨1⟩],
    .wire "soft" (.activation ⟨.softmax⟩) [⟨2⟩], .model "m" [⟨0⟩] [⟨3⟩]]

theorem fallbacks_noted_clipped : ∃ s entries,
    convert (build clipped) ⟨3⟩ Settings.standard Registry.standard = .ok s ∧
      Run (build clipped) Settings.standard entries s.workspace ∧
      (owners entries).length = 1 ∧
      (s.network.sketch.kinds.filterMap ObjectKind.layer?).length = 2 ∧
      s.workspace.warnings.countP warnsOfActivation = 1 := by
  have hok : (do
      let s ← convert (build clipped) ⟨3⟩ Settings.standard Registry.standard
      pure (s.workspace.warnings.countP warnsOfLayer,
        s.network.sketch.kinds.countP ObjectKind.isActivation,
        (s.network.sketch.kinds.filterMap ObjectKind.layer?).length) : Outcome _).toOption =
      some (1, 1, 2) := by decide +kernel
  obtain ⟨s, hs, hcounts⟩ := bind_eq_ok.1 (toOption_eq_some.1 hok)
  obtain ⟨hlayer, hactivation, hlayers⟩ := by simpa using Except.ok.inj hcounts
  obtain ⟨_, _, entries, -, -, -, hrun, -, howners, hactivations, -⟩ :=
    fallbacks_noted (reachable_build clipped) hs
  exact ⟨s, entries, hs, hrun, howners ▸ hlayer, hlayers, hactivations ▸ hactivation⟩

end Session
end Neuroform

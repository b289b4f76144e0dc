/-
  Neuroform — the number of trainable parameters of a model.

  What counting meets behind a model is a set of layers, on which neither the
  depth of counting nor the order of layers in models has a say; the parameters
  of a model are those of the trainable primitive layers in the set
  (`parameters_counted_once`).
-/
import Neuroform.Proofs.Graph.Counting
import Neuroform.Proofs.Graph.Reachable

namespace Neuroform

variable {α : Type}

/-! ## Layers in another order -/

/-- Kinds of layers that differ at most in the order in which a model lists its
    layers. -/
inductive LayerKind.Reorders : LayerKind α → LayerKind α → Prop where
  | primitive (p : Primitive α) : Reorders (.primitive p) (.primitive p)
  | model (m : ModelDef) {layers : List LayerId} (perm : layers.Perm m.layers) :
    Reorders (.model m) (.model { m with layers })

theorem LayerKind.Reorders.refl : ∀ kind : LayerKind α, kind.Reorders kind
  | .primitive p => .primitive p
  | .model m => .model m (.refl _)

theorem LayerKind.Reorders.symm {kind kind' : LayerKind α} (h : kind.Reorders kind') :
    kind'.Reorders kind := by
  cases h with
  | primitive p => exact .primitive p
  | @model m layers perm => exact .model { m with layers } perm.symm

namespace Graph

variable {g g' : Graph α} {l : LayerId} {m : ModelDef}

/-- Graphs that differ at most in the order in which models list their
    layers. -/
structure Reorders (g g' : Graph α) : Prop where
  size : g'.layers.size = g.layers.size
  tensors : g'.tensors = g.tensors
  layer : ∀ {l layer}, g.layer l = .ok layer →
    ∃ kind, layer.kind.Reorders kind ∧ g'.layer l = .ok { layer with kind }

namespace Reorders

theorem symm (h : g.Reorders g') : g'.Reorders g where
  size := h.size.symm
  tensors := h.tensors.symm
  layer {l layer'} hl' := by
    have hindex : l.index < g.layers.size := by
      rw [← h.size]
      exact exists_layer_iff.1 ⟨layer', hl'⟩
    obtain ⟨layer, hl⟩ := exists_layer_iff.2 hindex
    obtain ⟨kind, hkind, hl''⟩ := h.layer hl
    obtain rfl := Except.ok.inj (hl''.symm.trans hl')
    exact ⟨_, hkind.symm, hl⟩

/-- One model may list its layers in another order. -/
theorem of_model? (hm : g.model? l = some m) {layers : List LayerId}
    (hperm : layers.Perm m.layers) :
    g.Reorders (g.modifyLayer l ({ · with kind := .model { m with layers } })) where
  size := Array.size_modify
  tensors := rfl
  layer {k layer} hk := by
    by_cases heq : l = k
    · subst heq
      have hkind : layer.kind = .model m := by
        rw [model?_of_layer hk] at hm
        cases hkind : layer.kind with
        | primitive p => simp [hkind, LayerKind.model?] at hm
        | model m' => simpa [hkind, LayerKind.model?] using hm
      refine ⟨.model { m with layers }, hkind ▸ .model m hperm, layer_eq_ok.2 ?_⟩
      simp [modifyLayer, Array.getElem?_modify, layer_eq_ok.1 hk]
    · refine ⟨layer.kind, .refl _, layer_eq_ok.2 ?_⟩
      have hindex : l.index ≠ k.index := fun h => heq (by cases l; cases k; simpa using h)
      simp [modifyLayer, Array.getElem?_modify, hindex, layer_eq_ok.1 hk]

section
variable (h : g.Reorders g')
include h

theorem model? (hm : g.model? l = some m) :
    ∃ layers, layers.Perm m.layers ∧ g'.model? l = some { m with layers } := by
  obtain ⟨kind, hk, hm⟩ := Option.bind_eq_some_iff.1 hm
  obtain ⟨layer, hl, rfl⟩ := kind?_eq_some.1 hk
  obtain ⟨kind', hkind, hl'⟩ := h.layer hl
  rw [model?_of_layer hl']
  generalize layer.kind = kind at hm hkind
  cases hkind with
  | primitive p => simp [LayerKind.model?] at hm
  | @model m' layers perm =>
    obtain rfl : m' = m := by simpa [LayerKind.model?] using hm
    exact ⟨layers, perm, rfl⟩

theorem trains (ht : g.trains l = true) : g'.trains l = true := by
  obtain ⟨layer, hl⟩ : ∃ layer, g.layer l = .ok layer := by
    cases hlayer : g.layers[l.index]? with
    | none => simp [Graph.trains, hlayer] at ht
    | some layer => exact ⟨layer, layer_eq_ok.2 hlayer⟩
  obtain ⟨kind, -, hl'⟩ := h.layer hl
  rw [trains_of_layer hl] at ht
  rwa [trains_of_layer hl']

theorem primitive {p : Primitive α} (hp : g.kind? l = some (.primitive p)) :
    g'.kind? l = some (.primitive p) := by
  obtain ⟨layer, hl, hkind⟩ := kind?_eq_some.1 hp
  obtain ⟨kind', hreorders, hl'⟩ := h.layer hl
  rw [hkind] at hreorders
  cases hreorders
  exact kind?_eq_some.2 ⟨_, hl', rfl⟩

theorem known (hg : g.Known) : g'.Known := by
  intro l m' hm' k hk
  obtain ⟨layers, hperm, hm⟩ := h.symm.model? hm'
  rw [h.size]
  exact hg hm k (hperm.mem_iff.2 hk)

theorem of_gathered {layers layers' : List LayerId} (hsub : layers ⊆ layers')
    (hl : g.Gathered layers l) : g'.Gathered layers' l := by
  induction hl with
  | listed mem => exact .listed (hsub mem)
  | nested _ trained model mem ih =>
    obtain ⟨inner, hperm, hm'⟩ := h.model? model
    exact .nested ih (h.trains trained) hm' (hperm.mem_iff.2 mem)

end
end Reorders

/-! ## What is counted -/

/-- A layer whose parameters count for a model: it is primitive, trainable and
    listed by the model or by a nested model, behind trainable models only. -/
structure Counts (g : Graph α) (m : ModelDef) (l : LayerId) : Prop where
  gathered : g.Gathered m.layers l
  trained : g.trains l = true
  primitive : ∃ p, g.kind? l = some (.primitive p)

theorem Reorders.counts (h : g.Reorders g') {layers : List LayerId} (hperm : layers.Perm m.layers)
    (hl : g.Counts m l) : g'.Counts { m with layers } l where
  gathered := h.of_gathered hperm.symm.subset hl.gathered
  trained := h.trains hl.trained
  primitive := hl.primitive.imp fun _ hp => h.primitive hp

theorem Gathers.mem_iff {layers seen : List LayerId} (h : g.Gathers layers [] seen) :
    l ∈ seen ↔ g.Gathered layers l := by
  refine ⟨fun hl => h.gathered l hl (by simp), fun hl => ?_⟩
  induction hl with
  | listed mem => exact h.listed mem
  | nested _ trained model mem ih => exact h.nested _ ih (by simp) trained _ model mem

variable [Scalar α]

/-- The layers that count have the parameters that counting adds. -/
theorem Gathers.shares_eq {seen : List LayerId} (h : g.Gathers m.layers [] seen)
    {counted : Finset LayerId} (hcounted : ∀ k, k ∈ counted ↔ g.Counts m k) :
    g.shares seen = ∑ k ∈ counted, g.weight k := by
  have hsum : g.shares seen = ∑ k ∈ seen.toFinset, g.share k :=
    (List.sum_toFinset g.share h.nodup).symm
  have hsub : counted ⊆ seen.toFinset := fun k hk =>
    List.mem_toFinset.2 (h.mem_iff.2 ((hcounted k).1 hk).gathered)
  have hshare : ∀ k ∈ counted, g.share k = g.weight k := fun k hk =>
    if_pos ((hcounted k).1 hk).trained
  rw [hsum, ← Finset.sum_congr rfl hshare]
  refine (Finset.sum_subset hsub fun k hk hnot => ?_).symm
  -- what is met and does not count is frozen or a model
  by_cases ht : g.trains k = true
  · obtain ⟨layer, hl⟩ := exists_layer_iff.2 (h.known k (List.mem_toFinset.1 hk))
    cases hkind : layer.kind with
    | primitive p =>
      refine absurd ((hcounted k).2 ⟨h.mem_iff.1 (List.mem_toFinset.1 hk), ht, p, ?_⟩) hnot
      exact kind?_eq_some.2 ⟨layer, hl, hkind⟩
    | model m' =>
      rw [share, if_pos ht]
      exact weight_of_model (m := m') (by rw [model?_of_layer hl, hkind]; rfl)
  · exact if_neg ht

/-- Counting with enough depth finds the parameters of the layers that count. -/
theorem Known.countUnique_eq (hg : g.Known) (hm : g.model? l = some m) {counted : Finset LayerId}
    (hcounted : ∀ k, k ∈ counted ↔ g.Counts m k) {depth : Nat} (hd : g.layers.size < depth) :
    ∃ seen, g.countUnique depth ([], 0) m.layers = .ok (seen, ∑ k ∈ counted, g.weight k) := by
  obtain ⟨seen, hcount, hseen⟩ := countUnique_eq_ok hg depth List.nodup_nil (by simp) (hg hm) hd
  rw [← hseen.shares_eq hcounted]
  exact ⟨seen, hcount⟩

theorem Known.trainableParameterCount_eq (hg : g.Known) (hm : g.model? l = some m)
    {counted : Finset LayerId} (hcounted : ∀ k, k ∈ counted ↔ g.Counts m k) :
    g.trainableParameterCount l = Word.ofNat (∑ k ∈ counted, g.weight k) := by
  obtain ⟨seen, hcount⟩ := hg.countUnique_eq hm hcounted (Nat.lt_succ_self _)
  simp [trainableParameterCount, modelDef_eq_ok.2 hm, hcount, bind, Except.bind]

/-- The layers that count for a model are finitely many. -/
theorem Known.exists_counted (hg : g.Known) (hm : g.model? l = some m) :
    ∃ counted : Finset LayerId, ∀ k, k ∈ counted ↔ g.Counts m k := by
  classical
  obtain ⟨seen, -, hseen⟩ :=
    countUnique_eq_ok hg (g.layers.size + 1) List.nodup_nil (by simp) (hg hm) (by simp)
  refine ⟨seen.toFinset.filter (g.Counts m), fun k => ?_⟩
  rw [Finset.mem_filter, List.mem_toFinset, hseen.mem_iff]
  exact and_iff_right_of_imp (·.gathered)

/-- The order of layers in models has no say in the parameters of a layer. -/
theorem Reorders.weight (h : g.Reorders g') {p : Primitive α}
    (hp : g.kind? l = some (.primitive p)) : g'.weight l = g.weight l := by
  obtain ⟨layer, hl, hkind⟩ := kind?_eq_some.1 hp
  obtain ⟨layer', hl', hkind'⟩ := kind?_eq_some.1 (h.primitive hp)
  simp [weight_of_layer hl, weight_of_layer hl', Layer.parameterCount, hkind, hkind']

theorem Reorders.trainableParameterCount_eq (h : g.Reorders g') (hg : g.Known)
    (hm : g.model? l = some m) : g'.trainableParameterCount l = g.trainableParameterCount l := by
  obtain ⟨counted, hcounted⟩ := hg.exists_counted hm
  obtain ⟨layers, hperm, hm'⟩ := h.model? hm
  have hcounted' : ∀ k, k ∈ counted ↔ g'.Counts { m with layers } k := fun k =>
    (hcounted k).trans ⟨h.counts hperm, h.symm.counts (m := { m with layers }) hperm.symm⟩
  have hg' : g'.Known := h.known hg
  rw [hg.trainableParameterCount_eq hm hcounted, hg'.trainableParameterCount_eq hm' hcounted']
  refine congrArg Word.ofNat (Finset.sum_congr rfl fun k hk => ?_)
  obtain ⟨p, hp⟩ := ((hcounted k).1 hk).primitive
  exact h.weight hp

/-- **Every layer counts once**: the trainable parameters of a model are those
    of the set of trainable primitive layers that it leads to through trainable
    models, whatever the order in which models list their layers.  They are
    found if their number is a word. -/
theorem parameters_counted_once (h : g.Reachable) (hm : g.model? l = some m) :
    ∃ counted : Finset LayerId, (∀ k, k ∈ counted ↔ g.Counts m k) ∧
      (∀ depth, g.layers.size < depth → ∃ seen,
        g.countUnique depth ([], 0) m.layers = .ok (seen, ∑ k ∈ counted, g.weight k)) ∧
      g.trainableParameterCount l = Word.ofNat (∑ k ∈ counted, g.weight k) ∧
      ∀ g', g.Reorders g' → g'.trainableParameterCount l = g.trainableParameterCount l := by
  have hg : g.Known := h.sound.known
  obtain ⟨counted, hcounted⟩ := hg.exists_counted hm
  refine ⟨counted, hcounted, fun depth hd => ?_, ?_, fun g' hg' => ?_⟩
  · exact hg.countUnique_eq hm hcounted hd
  · exact hg.trainableParameterCount_eq hm hcounted
  · exact hg'.trainableParameterCount_eq hg hm

/-- A model that applies a dense layer itself and through a nested model, in
    which a fixed layer follows. -/
def sharedDense : List (BuildStep ℚ) :=
  [.input "x" [1], .wire "d" (.dense ⟨⟨1, 1, #[11], rfl⟩, some [3], .linear, default⟩) [⟨0⟩],
    .wire "e" (.dense ⟨⟨1, 1, #[5], rfl⟩, some [7], .linear, default⟩) [⟨1⟩],
    .model "inner" [⟨0⟩] [⟨2⟩], .input "u" [1], .call ⟨3⟩ [⟨3⟩], .apply ⟨1⟩ [⟨7⟩],
    .model "outer" [⟨3⟩] [⟨8⟩], .setTrainable ⟨2⟩ false]

/-- Only the two parameters of the shared layer count, once, also if the outer
    model lists its layers the other way round. -/
theorem parameters_counted_once_shared :
    (build sharedDense).trainableParameterCount ⟨5⟩ = .ok 2 ∧
    ((build sharedDense).modifyLayer ⟨5⟩ ({ · with
      kind := .model ⟨[⟨3⟩], [⟨8⟩], [⟨1⟩, ⟨3⟩, ⟨4⟩], false⟩ })).trainableParameterCount ⟨5⟩ =
        .ok 2 ∧
    ∃ counted : Finset LayerId,
      (∀ k, k ∈ counted ↔ (build sharedDense).Counts ⟨[⟨3⟩], [⟨8⟩], [⟨4⟩, ⟨3⟩, ⟨1⟩], false⟩ k) ∧
      ∑ k ∈ counted, (build sharedDense).weight k = 2 := by
  have hcount : (build sharedDense).trainableParameterCount ⟨5⟩ = .ok 2 := by cbv
  have hmodel : (build sharedDense).model? ⟨5⟩ =
      some ⟨[⟨3⟩], [⟨8⟩], [⟨4⟩, ⟨3⟩, ⟨1⟩], false⟩ := by cbv
  have hperm : [⟨1⟩, ⟨3⟩, ⟨4⟩].Perm [(⟨4⟩ : LayerId), ⟨3⟩, ⟨1⟩] := by decide
  obtain ⟨counted, hcounted, -, htotal, horder⟩ :=
    parameters_counted_once (reachable_build sharedDense) hmodel
  obtain ⟨-, hsum⟩ := ofNat_eq_ok.1 (htotal.symm.trans hcount)
  exact ⟨hcount, (horder _ (.of_model? hmodel hperm)).trans hcount, counted, hcounted, hsum⟩

/-- A layer with half as many parameters as there are words. -/
def heavy : Operation ℚ where
  typeName := "Heavy"
  option _ := none
  outputShapes := sameShape "Heavy"
  forward := .ok
  parameterCount := Word.signLimit

/-- A model of two such layers. -/
def twiceHeavy : List (BuildStep ℚ) :=
  [.input "x" [1], .wire "a" (.custom heavy) [⟨0⟩], .wire "b" (.custom heavy) [⟨1⟩],
    .model "m" [⟨0⟩] [⟨2⟩]]

/-- The layers of the model count, but their parameters are too many for a
    word. -/
theorem parameters_beyond_words : ∃ counted : Finset LayerId,
    (∀ k, k ∈ counted ↔ (build twiceHeavy).Counts ⟨[⟨0⟩], [⟨2⟩], [⟨0⟩, ⟨1⟩, ⟨2⟩], false⟩ k) ∧
    ∑ k ∈ counted, (build twiceHeavy).weight k = Word.limit ∧
    (build twiceHeavy).trainableParameterCount ⟨3⟩ = fault := by
  have hmodel : (build twiceHeavy).model? ⟨3⟩ =
      some ⟨[⟨0⟩], [⟨2⟩], [⟨0⟩, ⟨1⟩, ⟨2⟩], false⟩ := by cbv
  have hseen : (build twiceHeavy).countUnique ((build twiceHeavy).layers.size + 1) ([], 0)
      [⟨0⟩, ⟨1⟩, ⟨2⟩] = .ok ([⟨2⟩, ⟨1⟩, ⟨0⟩], Word.limit) := by cbv
  have hknown : (build twiceHeavy).Known := (reachable_build twiceHeavy).sound.known
  obtain ⟨counted, hcounted⟩ := hknown.exists_counted hmodel
  obtain ⟨seen, hcount⟩ := hknown.countUnique_eq hmodel hcounted (Nat.lt_succ_self _)
  have hsum : ∑ k ∈ counted, (build twiceHeavy).weight k = Word.limit :=
    congrArg Prod.snd (Except.ok.inj (hcount.symm.trans hseen))
  refine ⟨counted, hcounted, hsum, ?_⟩
  rw [hknown.trainableParameterCount_eq hmodel hcounted, hsum]
  rfl

end Graph
end Neuroform

/-
  Neuroform — the layers and parameters of a model.

  Counting the parameters of a model meets each of its layers, and of those of
  the trainable models among them, once (`countUnique_eq_ok`).  If all layers
  are trainable, these are the layers that the model is made of
  (`countUnique_seen`).  All layers on the trace of a model are among them, if
  nothing feeds the entries of its inputs (`Behind.layer_mem`).
-/
import Neuroform.Proofs.Graph.Flow
import Neuroform.Proofs.Position

namespace Neuroform.Graph

variable {α : Type} {g : Graph α}

/-! ## Layers that counting meets -/

/-- All layers are trainable. -/
def AllTrainable (g : Graph α) : Prop := ∀ layer ∈ g.layers, layer.trainable = true

/-- Layers that contain those of their models, apart from some that were there
    before. -/
structure Seen (g : Graph α) (earlier seen : List LayerId) : Prop where
  kept : earlier ⊆ seen
  nodup : seen.Nodup
  known : ∀ l ∈ seen, l.index < g.layers.size
  nested : ∀ l ∈ seen, l ∉ earlier → ∀ m, g.model? l = some m → m.layers ⊆ seen

/-- The layers of all models are layers of the graph. -/
def Known (g : Graph α) : Prop :=
  ∀ {l m}, g.model? l = some m → ∀ k ∈ m.layers, k.index < g.layers.size

/-- Whether counting looks at what a layer has, or is made of. -/
def trains (g : Graph α) (l : LayerId) : Bool := (g.layers[l.index]?.map (·.trainable)).getD false

theorem exists_layer_iff {l : LayerId} :
    (∃ layer, g.layer l = .ok layer) ↔ l.index < g.layers.size := by
  simp [layer_eq_ok, Array.getElem?_eq_some_iff]

theorem trains_of_layer {l : LayerId} {layer : Layer α} (h : g.layer l = .ok layer) :
    g.trains l = layer.trainable := by simp [trains, layer_eq_ok.1 h]

/-- A layer that is met when some layers are counted: it is one of them, or one
    of those of a trainable model that is met. -/
inductive Gathered (g : Graph α) (layers : List LayerId) : LayerId → Prop where
  | listed {l : LayerId} (mem : l ∈ layers) : Gathered g layers l
  | nested {k l : LayerId} {m : ModelDef} (outer : Gathered g layers k)
    (trained : g.trains k = true) (model : g.model? k = some m) (mem : l ∈ m.layers) :
    Gathered g layers l

theorem Gathered.mono {layers layers' : List LayerId} (hsub : layers ⊆ layers') {l : LayerId}
    (h : g.Gathered layers l) : g.Gathered layers' l := by
  induction h with
  | listed mem => exact .listed (hsub mem)
  | nested _ trained model mem ih => exact .nested ih trained model mem

/-- What is met behind a trainable model is met where the model is. -/
theorem Gathered.within {layers : List LayerId} {k l : LayerId} {m : ModelDef}
    (hk : g.Gathered layers k) (ht : g.trains k = true) (hm : g.model? k = some m)
    (h : g.Gathered m.layers l) : g.Gathered layers l := by
  induction h with
  | listed mem => exact .nested hk ht hm mem
  | nested _ trained model mem ih => exact .nested ih trained model mem

/-- What counting some layers makes of those that were seen earlier: the layers
    are added, and with every new trainable model its layers.  Nothing is added
    that is not met. -/
structure Gathers (g : Graph α) (layers earlier seen : List LayerId) : Prop where
  kept : earlier ⊆ seen
  nodup : seen.Nodup
  known : ∀ l ∈ seen, l.index < g.layers.size
  listed : layers ⊆ seen
  nested : ∀ l ∈ seen, l ∉ earlier → g.trains l = true → ∀ m, g.model? l = some m → m.layers ⊆ seen
  gathered : ∀ l ∈ seen, l ∉ earlier → g.Gathered layers l

namespace Gathers
variable {layers seen seen' seen'' : List LayerId} {l : LayerId}

/-- Layers that were seen earlier add nothing. -/
theorem again (hn : seen.Nodup) (hk : ∀ l ∈ seen, l.index < g.layers.size)
    (hl : layers ⊆ seen) : g.Gathers layers seen seen where
  kept := List.Subset.refl _
  nodup := hn
  known := hk
  listed := hl
  nested _ h hnew := absurd h hnew
  gathered _ h hnew := absurd h hnew

/-- One layer is counted, and then some others. -/
theorem cons (h : g.Gathers [l] seen seen') (h' : g.Gathers layers seen' seen'') :
    g.Gathers (l :: layers) seen seen'' where
  kept := List.Subset.trans h.kept h'.kept
  nodup := h'.nodup
  known := h'.known
  listed := List.cons_subset.2 ⟨h'.kept (h.listed (by simp)), h'.listed⟩
  nested k hk hnew ht m hm := by
    by_cases hmem : k ∈ seen'
    · exact List.Subset.trans (h.nested k hmem hnew ht m hm) h'.kept
    · exact h'.nested k hk hmem ht m hm
  gathered k hk hnew := by
    by_cases hmem : k ∈ seen'
    · exact (h.gathered k hmem hnew).mono (by simp)
    · exact (h'.gathered k hk hmem).mono (by simp)

variable (hn : seen.Nodup) (hk : ∀ l ∈ seen, l.index < g.layers.size)
  (hl : l.index < g.layers.size) (hnew : l ∉ seen)
include hn hk hl hnew

/-- A new layer is seen alone unless it is a trainable model. -/
theorem single (hleaf : g.trains l = true → g.model? l = none) :
    g.Gathers [l] seen (l :: seen) where
  kept := List.subset_cons_self ..
  nodup := List.nodup_cons.2 ⟨hnew, hn⟩
  known := List.forall_mem_cons.2 ⟨hl, hk⟩
  listed := by simp
  nested k hmem hnew' ht m hm := by
    obtain rfl := (List.mem_cons.1 hmem).resolve_right hnew'
    rw [hleaf ht] at hm
    cases hm
  gathered k hmem hnew' := by
    obtain rfl := (List.mem_cons.1 hmem).resolve_right hnew'
    exact .listed (by simp)

omit hn hk hl hnew in
/-- With a new trainable model its layers are counted. -/
theorem model {m : ModelDef} (ht : g.trains l = true) (hm : g.model? l = some m)
    (h : g.Gathers m.layers (l :: seen) seen') : g.Gathers [l] seen seen' where
  kept := fun k hk => h.kept (List.mem_cons_of_mem _ hk)
  nodup := h.nodup
  known := h.known
  listed := by simpa using h.kept (List.mem_cons_self ..)
  nested k hk hnew' ht' m' hm' := by
    by_cases hkl : k = l
    · subst hkl
      obtain rfl := Option.some.inj (hm.symm.trans hm')
      exact h.listed
    · exact h.nested k hk (by simp [hkl, hnew']) ht' m' hm'
  gathered k hk hnew' := by
    have hself : g.Gathered [l] l := .listed (by simp)
    by_cases hkl : k = l
    · exact hkl ▸ hself
    · exact hself.within ht hm (h.gathered k hk (by simp [hkl, hnew']))

end Gathers

theorem length_le_size {seen : List LayerId} (hn : seen.Nodup)
    (hk : ∀ l ∈ seen, l.index < g.layers.size) : seen.length ≤ g.layers.size := by
  have hnodup : (seen.map LayerId.index).Nodup :=
    hn.map fun a b hab => by cases a; cases b; simpa using hab
  have hsub : seen.map LayerId.index ⊆ List.range g.layers.size := by
    intro n hn
    obtain ⟨l, hl, rfl⟩ := List.mem_map.1 hn
    exact List.mem_range.2 (hk l hl)
  simpa using (hnodup.subperm hsub).length_le

variable [Scalar α]

/-! ## Counting -/

/-- The number of parameters of a layer; a model has none of its own. -/
def weight (g : Graph α) (l : LayerId) : Nat := (g.layers[l.index]?.map (·.parameterCount)).getD 0

theorem weight_of_layer {l : LayerId} {layer : Layer α} (h : g.layer l = .ok layer) :
    g.weight l = layer.parameterCount := by simp [weight, layer_eq_ok.1 h]

theorem weight_of_model {l : LayerId} {m : ModelDef} (h : g.model? l = some m) : g.weight l = 0 := by
  obtain ⟨k, hk, hm⟩ := Option.bind_eq_some_iff.1 h
  obtain ⟨layer, hl, rfl⟩ := kind?_eq_some.1 hk
  rw [weight_of_layer hl, Layer.parameterCount]
  cases hkind : layer.kind with
  | primitive p => simp [hkind, LayerKind.model?] at hm
  | model m => rfl

theorem Sound.known (hs : g.Sound) : g.Known := by
  intro l m hm k hk
  have hrecord : ∃ i inv, g.record? i = some inv ∧ i.layer = k := by
    rcases ((hs.model hm).owns k).1 hk with ⟨x, -, p, hp, rfl⟩ | ⟨order, ho, i, hi, rfl⟩
    · obtain ⟨inv, hr, -⟩ := hs.made hp
      exact ⟨p.source, inv, hr, rfl⟩
    · obtain ⟨⟨inv, hr⟩, -⟩ := (internalOrder_lists hs.acyclic ho).1.source hi
      exact ⟨i, inv, hr, rfl⟩
  obtain ⟨i, inv, hr, rfl⟩ := hrecord
  exact exists_layer_iff.1 (layer_of_record hr)

/-- The parameters of some layers. -/
def weights (g : Graph α) (seen : List LayerId) : Nat := totalSize (seen.map g.weight)

/-- The number of parameters that counting adds for a layer. -/
def share (g : Graph α) (l : LayerId) : Nat := if g.trains l then g.weight l else 0

/-- The number of parameters that counting adds for some layers. -/
def shares (g : Graph α) (seen : List LayerId) : Nat := totalSize (seen.map g.share)

theorem shares_cons (l : LayerId) (seen : List LayerId) :
    g.shares (l :: seen) = g.shares seen + g.share l := by
  rw [shares, List.map_cons, totalSize_cons, Nat.add_comm, shares]

/-- Counting one layer, if the layers of a trainable model can be counted behind
    it. -/
theorem countUnique_single {depth : Nat} {seen : List LayerId} {l : LayerId} (hn : seen.Nodup)
    (hk : ∀ l ∈ seen, l.index < g.layers.size) (hl : l.index < g.layers.size)
    (hmodel : l ∉ seen → ∀ m, g.model? l = some m → ∃ seen',
      g.countUnique depth (l :: seen, g.shares (l :: seen)) m.layers = .ok (seen', g.shares seen') ∧
        g.Gathers m.layers (l :: seen) seen') :
    ∃ seen', g.countUnique (depth + 1) (seen, g.shares seen) [l] = .ok (seen', g.shares seen') ∧
      g.Gathers [l] seen seen' := by
  rw [countUnique, List.foldlM_cons]
  by_cases hmem : l ∈ seen
  · exact ⟨seen, by simp [hmem], .again hn hk (by simpa using hmem)⟩
  obtain ⟨layer, hlayer⟩ := exists_layer_iff.2 hl
  have hadd : g.shares (l :: seen) =
      g.shares seen + if layer.trainable then layer.parameterCount else 0 := by
    rw [shares_cons, share, trains_of_layer hlayer, weight_of_layer hlayer]
  cases htrain : layer.trainable with
  | false =>
    refine ⟨l :: seen, ?_, .single hn hk hl hmem ?_⟩
    · simp [hmem, hlayer, htrain, hadd, bind, Except.bind, pure, Except.pure]
    · simp [trains_of_layer hlayer, htrain]
  | true =>
    rw [htrain, if_pos rfl] at hadd
    cases hm : layer.kind.model? with
    | none =>
      refine ⟨l :: seen, ?_, .single hn hk hl hmem fun _ => ?_⟩
      · simp [hmem, hlayer, htrain, hm, hadd, bind, Except.bind, pure, Except.pure]
      · rw [model?_of_layer hlayer, hm]
    | some m =>
      have hnested : g.model? l = some m := by rw [model?_of_layer hlayer, hm]
      -- the model itself has no parameters
      rw [(weight_of_layer hlayer).symm.trans (weight_of_model hnested), Nat.add_zero] at hadd
      obtain ⟨seen', hcount, hseen⟩ := hmodel hmem m hnested
      rw [hadd] at hcount
      refine ⟨seen', ?_, .model (by rw [trains_of_layer hlayer, htrain]) hnested hseen⟩
      simp [hmem, hlayer, htrain, hm, hcount, bind, Except.bind, pure, Except.pure]

/-- **Counting** adds layers to those that were seen, with all that is met
    behind them, and gives the trained parameters of all seen ones. -/
theorem countUnique_eq_ok (hg : g.Known) (depth : Nat) :
    ∀ {seen layers : List LayerId}, seen.Nodup → (∀ l ∈ seen, l.index < g.layers.size) →
    (∀ l ∈ layers, l.index < g.layers.size) → g.layers.size < depth + seen.length →
    ∃ seen', g.countUnique depth (seen, g.shares seen) layers = .ok (seen', g.shares seen') ∧
      g.Gathers layers seen seen' := by
  induction depth with
  | zero =>
    intro seen layers hn hk _ hd
    have := length_le_size hn hk
    omega
  | succ depth ih =>
    intro seen layers
    induction layers generalizing seen with
    | nil => exact fun hn hk _ _ => ⟨seen, rfl, .again hn hk (List.nil_subset _)⟩
    | cons l layers ihl =>
      intro hn hk hl hd
      have hindex : l.index < g.layers.size := hl l (by simp)
      -- a model is left with less depth, but with one more layer seen
      obtain ⟨seen₁, hcount, hseen⟩ := countUnique_single hn hk hindex fun hnew m hm =>
        ih (List.nodup_cons.2 ⟨hnew, hn⟩) (List.forall_mem_cons.2 ⟨hindex, hk⟩) (hg hm)
          (by rw [List.length_cons]; omega)
      have hlength : seen.length ≤ seen₁.length := (hn.subperm hseen.kept).length_le
      obtain ⟨seen₂, hcount₂, hseen₂⟩ := ihl hseen.nodup hseen.known
        (fun k hk => hl k (List.mem_cons_of_mem _ hk)) (by omega)
      refine ⟨seen₂, ?_, hseen.cons hseen₂⟩
      rw [countUnique] at hcount hcount₂ ⊢
      exact foldlM_append_eq_ok.2 ⟨_, hcount, hcount₂⟩

/-- A model whose layers are all trainable has the parameters of its layers and
    of those of nested models. -/
theorem countUnique_seen (hs : g.Sound) (ht : g.AllTrainable) {l : LayerId} {m : ModelDef}
    (hm : g.model? l = some m) : ∃ seen,
      g.countUnique (g.layers.size + 1) ([], 0) m.layers = .ok (seen, g.weights seen) ∧
      g.Seen [] seen ∧ m.layers ⊆ seen ∧
      g.trainableParameterCount l = Word.ofNat (g.weights seen) := by
  obtain ⟨seen, hcount, hseen⟩ := countUnique_eq_ok hs.known (g.layers.size + 1)
    List.nodup_nil (by simp) (hs.known hm) (by simp)
  have htrains : ∀ k ∈ seen, g.trains k = true := by
    intro k hk
    obtain ⟨layer, hlayer⟩ := exists_layer_iff.2 (hseen.known k hk)
    rw [trains_of_layer hlayer]
    exact ht layer (Array.mem_of_getElem? (layer_eq_ok.1 hlayer))
  have hweights : g.shares seen = g.weights seen :=
    congrArg totalSize (List.map_congr_left fun k hk => if_pos (htrains k hk))
  have hcount' : g.countUnique (g.layers.size + 1) ([], 0) m.layers =
      .ok (seen, g.weights seen) := by
    rw [← hweights]
    exact hcount
  refine ⟨seen, hcount', ⟨hseen.kept, hseen.nodup, hseen.known, fun k hk hnew =>
    hseen.nested k hk hnew (htrains k hk)⟩, hseen.listed, ?_⟩
  simp [trainableParameterCount, modelDef_eq_ok.2 hm, hcount', bind, Except.bind]

/-! ## What a model is made of -/

/-- A model that a model is made of: itself, or one that is called between its
    inputs and outputs.  `become` gives what the tensors of the model became in
    the call. -/
inductive Nested (g : Graph α) (top : ModelDef) : ModelDef → (TensorId → TensorId) → Prop where
  | top : Nested g top top id
  | call {m m' : ModelDef} {become become' : TensorId → TensorId} {order order' : List InvocationId}
      {i : InvocationId} {inv : Invocation} {j : Nat} (outer : Nested g top m become)
      (listed : g.internalOrder m = .ok order) (mem : i ∈ order) (record : g.record? i = some inv)
      (called : g.Called ⟨i.layer, j⟩ ⟨inv.inputs.map become, inv.outputs.map become⟩ m' order'
        become') : Nested g top m' become'

/-- A tensor is what became of a tensor that stands at the inputs of a model or
    behind them. -/
def Within (g : Graph α) (top : ModelDef) (u : TensorId) : Prop :=
  ∃ m become order t, g.Nested top m become ∧ g.internalOrder m = .ok order ∧
    g.Settled m.inputs order t ∧ u = become t

section
variable {top m : ModelDef} {become : TensorId → TensorId}

theorem Within.of_settled (h : g.Nested top m become) {order : List InvocationId}
    (ho : g.internalOrder m = .ok order) {ts : List TensorId}
    (hts : ∀ t ∈ ts, g.Settled m.inputs order t) : ∀ u ∈ ts.map become, g.Within top u := by
  intro u hu
  obtain ⟨t, ht, rfl⟩ := List.mem_map.1 hu
  exact ⟨m, become, order, t, h, ho, hts t ht, rfl⟩

variable (hs : g.Sound) {l : LayerId} (hl : g.model? l = some top)
include hs

/-- What became of an output of an invocation of a model comes from the copy of
    that invocation. -/
theorem Nested.producer (h : g.Nested top m become) {order : List InvocationId}
    (ho : g.internalOrder m = .ok order) {t : TensorId} {p : Provenance}
    (hp : g.producer? t = some p) (hi : p.source ∈ order) : ∃ inv j,
      g.record? p.source = some inv ∧ g.producer? (become t) = some ⟨p.layer, j, p.output⟩ ∧
      g.record? ⟨p.layer, j⟩ = some ⟨inv.inputs.map become, inv.outputs.map become⟩ := by
  obtain ⟨inv, hr, hout, hmade⟩ := hs.made hp
  cases h with
  | top => exact ⟨inv, p.invocation, hr, hp, by simp only [List.map_id]; exact hr⟩
  | call _ _ _ _ called =>
    obtain rfl := Except.ok.inj (called.replayed.listed.symm.trans ho)
    obtain ⟨inv', j, hr', hrec, hprod⟩ := called.replayed.copy _ hi
    obtain rfl := Option.some.inj (hr.symm.trans hr')
    exact ⟨inv, j, hr, hprod _ _ (by simp [hout]), hrec⟩

/-- What became of an input of a model comes from the entry of the input, which
    nothing feeds or a tensor of the model around the call. -/
theorem Nested.input (hroots : g.Rooted top) (h : g.Nested top m become) {t : TensorId}
    (ht : t ∈ m.inputs) : ∃ p q inv, g.producer? t = some q ∧ g.producer? (become t) = some p ∧
      p.layer = q.layer ∧ g.record? p.source = some inv ∧ ∀ u ∈ inv.inputs, g.Within top u := by
  cases h with
  | top =>
    obtain ⟨p, inv, hp, hr, hnil⟩ := hroots t ht
    exact ⟨p, p, inv, hp, hp, rfl, hr, by simp [hnil]⟩
  | @call m₀ _ become₀ _ order _ i inv j outer listed mem record called =>
    obtain ⟨u, q, k, hfed, hq, hr, hprod⟩ := called.replayed.input t ht
    refine ⟨_, q, _, hq, hprod 0 _ rfl, rfl, hr, fun v hv => ?_⟩
    obtain rfl := List.mem_singleton.1 hv
    -- the tensor that is fed is an input of the call
    have hmem := (List.of_mem_zip (List.mem_reverse.1 (mem_of_lookup hfed))).2
    exact Within.of_settled outer listed
      ((internalOrder_lists hs.acyclic listed).1.settled mem record).2 v hmem

include hl

/-- The layers of a model that a model is made of are seen with it. -/
theorem Nested.model {seen : List LayerId} (hsub : top.layers ⊆ seen)
    (hnested : ∀ k ∈ seen, ∀ m, g.model? k = some m → m.layers ⊆ seen)
    (h : g.Nested top m become) : (∃ k, g.model? k = some m) ∧ m.layers ⊆ seen := by
  induction h with
  | top => exact ⟨⟨l, hl⟩, hsub⟩
  | call _ listed mem _ called ih =>
    obtain ⟨⟨k, hk⟩, hlayers⟩ := ih
    have hmem := hlayers (((hs.model hk).owns _).2 (.inr ⟨_, listed, _, mem, rfl⟩))
    exact ⟨⟨_, called.model⟩, hnested _ hmem _ called.model⟩

/-- **A tensor within a model** comes from a layer that the model is made of,
    whose inputs are within the model. -/
theorem Within.resolves (hroots : g.Rooted top) {seen : List LayerId} (hsub : top.layers ⊆ seen)
    (hnested : ∀ k ∈ seen, ∀ m, g.model? k = some m → m.layers ⊆ seen) {u : TensorId}
    {p : Provenance} (h : g.Resolves u p) : g.Within top u → p.layer ∈ seen ∧
      ∀ inv, g.record? p.source = some inv → ∀ v ∈ inv.inputs, g.Within top v := by
  induction h with
  | @here u p producer _ =>
    rintro ⟨m, become, order, t, hin, ho, ht | ⟨q, hq, hi⟩, rfl⟩
    · obtain ⟨⟨k, hk⟩, hlayers⟩ := hin.model hs hl hsub hnested
      obtain ⟨p', q, inv, hq, hp, hlayer, hr, hwithin⟩ := hin.input hs hroots ht
      obtain rfl := Option.some.inj (producer.symm.trans hp)
      refine ⟨hlayers (((hs.model hk).owns _).2 (.inl ⟨t, ht, q, hq, hlayer.symm⟩)), ?_⟩
      intro inv' hr'
      obtain rfl := Option.some.inj (hr.symm.trans hr')
      exact hwithin
    · obtain ⟨⟨k, hk⟩, hlayers⟩ := hin.model hs hl hsub hnested
      obtain ⟨inv, j, hr, hp, hrec⟩ := hin.producer hs ho hq hi
      obtain rfl := Option.some.inj (producer.symm.trans hp)
      refine ⟨hlayers (((hs.model hk).owns _).2 (.inr ⟨order, ho, _, hi, rfl⟩)), ?_⟩
      intro inv' hr'
      obtain rfl := Option.some.inj (hrec.symm.trans hr')
      exact Within.of_settled hin ho ((internalOrder_lists hs.acyclic ho).1.settled hi hr).2
  | @through u v q p m' producer model inner _ ih =>
    rintro ⟨m, become, order, t, hin, ho, ht | ⟨q', hq', hi⟩, rfl⟩
    · -- an input comes from an entry, which is no model
      obtain ⟨⟨k, hk⟩, -⟩ := hin.model hs hl hsub hnested
      obtain ⟨p', q', inv, hq', hp, hlayer, -⟩ := hin.input hs hroots ht
      obtain ⟨q'', hq'', d, hd⟩ := (hs.model hk).entry t ht
      obtain rfl := Option.some.inj (producer.symm.trans hp)
      obtain rfl := Option.some.inj (hq'.symm.trans hq'')
      rw [hlayer, model?, hd] at model
      cases model
    · obtain ⟨inv, j, hr, hp, hrec⟩ := hin.producer hs ho hq' hi
      obtain rfl := Option.some.inj (producer.symm.trans hp)
      obtain ⟨hmade, hout⟩ := hs.made_of_producer producer hrec
      obtain ⟨order', become', hcalled⟩ := hmade.called_of_model model
      obtain ⟨y, hy, hinner, -⟩ := forall₂_getElem? hcalled.outputs hout
      obtain rfl := Option.some.inj (inner.symm.trans hinner)
      -- the output stands for what became of an output of the called model
      refine ih ⟨m', become', order', y, .call hin ho hi hr hcalled, hcalled.replayed.listed, ?_, rfl⟩
      exact (internalOrder_lists hs.acyclic hcalled.replayed.listed).2.2 _
        (.root (List.mem_of_getElem? hy))

/-- **All layers on the trace of a model** are layers that it is made of. -/
theorem Behind.layer_mem (hroots : g.Rooted top) {seen : List LayerId} (hsub : top.layers ⊆ seen)
    (hnested : ∀ k ∈ seen, ∀ m, g.model? k = some m → m.layers ⊆ seen) {i : InvocationId}
    (h : g.Behind (top.outputs ++ top.inputs) i) : i.layer ∈ seen := by
  obtain ⟨order, ho⟩ := (hs.model hl).listed
  have hroot : ∀ t ∈ top.outputs ++ top.inputs, g.Within top t := by
    intro t ht
    refine ⟨top, id, order, t, .top, ho, ?_, rfl⟩
    rcases List.mem_append.1 ht with ht | ht
    · exact (internalOrder_lists hs.acyclic ho).2.2 t (.root ht)
    · exact .inl ht
  suffices h : i.layer ∈ seen ∧ ∀ inv, g.record? i = some inv → ∀ v ∈ inv.inputs, g.Within top v from
    h.1
  induction h with
  | root ht resolves =>
    exact Within.resolves hs hl hroots hsub hnested (followInner_eq_ok resolves) (hroot _ ht)
  | input _ record hu resolves ih =>
    exact Within.resolves hs hl hroots hsub hnested (followInner_eq_ok resolves)
      (ih.2 _ record _ hu)

end

end Neuroform.Graph

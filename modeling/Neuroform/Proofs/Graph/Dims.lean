/-
  Neuroform — tensors whose sample dimensions are known.

  A tensor that stands for another one has its shape, however many calls are in
  between (`Resolves.sameShape`).  Flattening and reshaping keep the number of
  places of a sample.
-/
import Neuroform.Proofs.Graph.Resolves
import Neuroform.Proofs.Layer.Batch

namespace Neuroform

/-! ## Shapes -/

/-- The dimensions of a shape are known if it is the concrete one of them. -/
theorem resolved_eq_ok {s : Shape} {dims : List Nat} :
    s.resolved = .ok dims ↔ s = .concrete dims := by
  obtain ⟨ds⟩ := s
  rw [Shape.resolved, orRefuse_eq_ok, Shape.concrete?, Shape.concrete, Shape.mk.injEq]
  dsimp only
  induction ds generalizing dims with
  | nil => cases dims <;> simp
  | cons d ds ih =>
    cases d with
    | none => cases dims <;> simp
    | some d => cases dims <;> simp [Option.bind_eq_some_iff, ih, and_comm]

/-- The inputs or outputs of an invocation. -/
def Invocation.tensors (inv : Invocation) : Side → List TensorId
  | .input => inv.inputs
  | .output => inv.outputs

namespace Graph

variable {α : Type} {g : Graph α} {t u : TensorId} {dims : List Nat}

/-- The samples of a tensor have known dimensions. -/
def Dims (g : Graph α) (t : TensorId) (dims : List Nat) : Prop :=
  ∃ s, g.shape? t = some s ∧ s.withoutBatch = .concrete dims

theorem Dims.unique {dims' : List Nat} (h : g.Dims t dims) (h' : g.Dims t dims') : dims = dims' := by
  obtain ⟨s, hs, hd⟩ := h
  obtain ⟨s', hs', hd'⟩ := h'
  obtain rfl := Option.some.inj (hs.symm.trans hs')
  have hsome : dims.map some = dims'.map some := congrArg Shape.dims (hd.symm.trans hd')
  exact List.map_injective_iff.2 (Option.some_injective _) hsome

theorem Dims.of_sameShape (h : g.Dims t dims) (hs : g.SameShape t u) : g.Dims u dims := by
  obtain ⟨s, ht, hd⟩ := h
  obtain ⟨s', ht', hu⟩ := hs
  obtain rfl := Option.some.inj (ht.symm.trans ht')
  exact ⟨s, hu, hd⟩

theorem SameShape.trans {v : TensorId} (h : g.SameShape t u) (h' : g.SameShape u v) :
    g.SameShape t v := by
  obtain ⟨s, ht, hu⟩ := h
  obtain ⟨s', hu', hv⟩ := h'
  obtain rfl := Option.some.inj (hu.symm.trans hu')
  exact ⟨s, ht, hv⟩

variable [Scalar α]

/-! ## Calls -/

/-- **A called model keeps shapes**: each of its tensors becomes one of the same
    shape. -/
theorem Called.sameShape (hs : g.Sound) {i : InvocationId} {inv : Invocation} {m : ModelDef}
    {order : List InvocationId} {become : TensorId → TensorId}
    (hc : g.Called i inv m order become) (ht : g.Settled m.inputs order t) :
    g.SameShape t (become t) := by
  obtain ⟨hlists, -, -⟩ := internalOrder_lists hs.acyclic hc.replayed.listed
  -- the inputs of an invocation are older than its outputs
  induction hn : t.index using Nat.strong_induction_on generalizing t with
  | _ n ih =>
  subst hn
  rcases ht with ht | ⟨p, hp, hi⟩
  · obtain ⟨u, p, j, -, hp, hr, -⟩ := hc.replayed.input t ht
    obtain ⟨p', hp', d, hd⟩ := (hs.model hc.model).entry t ht
    obtain rfl := Option.some.inj (hp.symm.trans hp')
    obtain ⟨inv₀, hr₀, ht₀, -⟩ := hs.made hp
    obtain ⟨-, -, t', hout, hshape⟩ := hs.entry hd hr₀
    obtain ⟨-, -, y, hout', hshape'⟩ := hs.entry hd hr
    obtain rfl : become t = y := by simpa using hout'
    have hmem : t ∈ inv₀.outputs := List.mem_of_getElem? ht₀
    obtain rfl : t = t' := by simpa [hout] using hmem
    exact ⟨d.shape, hshape, hshape'⟩
  · obtain ⟨inv₀, j, hr, hr', hprod⟩ := hc.replayed.copy p.source hi
    obtain ⟨hm, htk⟩ := hs.made_of_producer hp hr
    have hzk : (inv₀.outputs.map become)[p.output]? = some (become t) := by simp [htk]
    obtain ⟨hm', -⟩ := hs.made_of_producer (hprod _ _ hzk) hr'
    have hinputs : List.Forall₂ g.SameShape inv₀.inputs (inv₀.inputs.map become) := by
      rw [List.forall₂_map_right_iff, List.forall₂_same]
      intro u hu
      exact ih u.index (hs.acyclic hp hr u hu) ((hlists.settled hi hr).2 u hu) rfl
    obtain ⟨z, hz, hsame⟩ := forall₂_getElem? (hm.sameShape hm' rfl hinputs) htk
    obtain rfl := Option.some.inj (hzk.symm.trans hz)
    exact hsame

/-- An output of a call has the shape of what it stands for. -/
theorem Called.inner_sameShape (hs : g.Sound) {i : InvocationId} {inv : Invocation} {m : ModelDef}
    {order : List InvocationId} {become : TensorId → TensorId}
    (hc : g.Called i inv m order become) {k : Nat} (ht : inv.outputs[k]? = some t)
    (hu : g.inner? t = some u) : g.SameShape u t := by
  obtain ⟨y, hy, hin, -, hyt⟩ := forall₂_getElem? hc.outputs ht
  obtain rfl := Option.some.inj (hu.symm.trans hin)
  obtain ⟨-, -, hsettled⟩ := internalOrder_lists hs.acyclic hc.replayed.listed
  obtain ⟨s, hys, hus⟩ := hc.sameShape hs (hsettled y (.root (List.mem_of_getElem? hy)))
  exact SameShape.trans ⟨s, hus, hys⟩ hyt

/-- A tensor has the shape of the output that it stands for. -/
theorem Resolves.sameShape (hs : g.Sound) {p : Provenance} (h : g.Resolves t p) :
    ∃ inv u, g.record? p.source = some inv ∧ inv.outputs[p.output]? = some u ∧ g.SameShape u t := by
  induction h with
  | @here t p producer primitive =>
    obtain ⟨inv, hr, ht, hm⟩ := hs.made producer
    cases hm with
    | called h => exact absurd (primitive.symm.trans h.model) (by simp)
    | applied h =>
      obtain ⟨s, -, hshape⟩ := forall₂_getElem? h.outputs ht
      exact ⟨inv, t, hr, ht, s, hshape, hshape⟩
  | @through t z q p m producer model inner _ ih =>
    obtain ⟨inv, u, hr, hu, hsame⟩ := ih
    obtain ⟨inv', hr', ht, hm⟩ := hs.made producer
    obtain ⟨order, become, hc⟩ := hm.called_of_model model
    exact ⟨inv, u, hr, hu, hsame.trans (hc.inner_sameShape hs ht inner)⟩

/-! ## Invocations -/

variable {i : InvocationId} {inv : Invocation} {shapes outputShapes : List Shape}

omit [Scalar α] in
/-- The shapes of the inputs or outputs of an invocation are looked up. -/
theorem invocationShapes_eq_ok {side : Side} {ss : List Shape} :
    g.invocationShapes i side false = .ok ss ↔ ∃ inv, g.record? i = some inv ∧
      List.Forall₂ (fun t s => ∃ s', g.shape? t = some s' ∧ s'.withoutBatch = s)
        (inv.tensors side) ss := by
  have hread : ∀ (t : TensorId) (s : Shape), (do
      let shape := (← g.tensor t).shape
      return if false then shape else shape.withoutBatch : Outcome Shape) = .ok s ↔
        ∃ s', g.shape? t = some s' ∧ s'.withoutBatch = s := by
    intro t s
    rw [bind_eq_ok]
    constructor
    · rintro ⟨x, hx, hs⟩
      exact ⟨x.shape, shape?_eq_some.2 ⟨x, hx, rfl⟩, pure_eq_ok.1 hs⟩
    · rintro ⟨s', hs', hs⟩
      obtain ⟨x, hx, rfl⟩ := shape?_eq_some.1 hs'
      exact ⟨x, hx, pure_eq_ok.2 hs⟩
  rw [invocationShapes, bind_eq_ok]
  constructor
  · rintro ⟨inv, hinv, h⟩
    exact ⟨inv, invocation_eq_ok.1 hinv, (mapM_forall₂.1 h).imp fun t s => (hread t s).1⟩
  · rintro ⟨inv, hr, h⟩
    exact ⟨inv, invocation_eq_ok.2 hr, mapM_forall₂.2 (h.imp fun t s => (hread t s).2)⟩

/-- The dimensions of the only output of an invocation are known. -/
def OutputDims (g : Graph α) (i : InvocationId) (dims : List Nat) : Prop :=
  ∃ inv t, g.record? i = some inv ∧ inv.outputs = [t] ∧ g.Dims t dims

omit [Scalar α] in
theorem OutputDims.unique {dims' : List Nat} (h : g.OutputDims i dims)
    (h' : g.OutputDims i dims') : dims = dims' := by
  obtain ⟨inv, t, hr, hout, hd⟩ := h
  obtain ⟨inv', t', hr', hout', hd'⟩ := h'
  obtain rfl := Option.some.inj (hr.symm.trans hr')
  obtain rfl : t = t' := by simpa using hout.symm.trans hout'
  exact hd.unique hd'

/-- The dimensions of the only input or output of an invocation are looked up. -/
theorem invocationShape_resolved {side : Side} : (do
    (← g.invocationShape i side false).resolved : Outcome (List Nat)) = .ok dims ↔
      ∃ inv t, g.record? i = some inv ∧ inv.tensors side = [t] ∧ g.Dims t dims := by
  rw [bind_eq_ok]
  constructor
  · rintro ⟨s, hs, hdims⟩
    obtain ⟨ss, hss, hs⟩ := bind_eq_ok.1 hs
    obtain ⟨inv, hr, hshapes⟩ := invocationShapes_eq_ok.1 hss
    split at hs
    case h_1 s₀ =>
      obtain rfl := pure_eq_ok.1 hs
      obtain ⟨t, ts, ⟨s', hs', hd⟩, hnil, hout⟩ := List.forall₂_cons_right_iff.1 hshapes
      obtain rfl := List.forall₂_nil_right_iff.1 hnil
      exact ⟨inv, t, hr, hout, s', hs', hd.trans (resolved_eq_ok.1 hdims)⟩
    case h_2 =>
      obtain ⟨_, -, hs⟩ := bind_eq_ok.1 hs
      simp at hs
  · rintro ⟨inv, t, hr, hout, s, hs, hd⟩
    refine ⟨.concrete dims, ?_, resolved_eq_ok.2 rfl⟩
    have hshapes : g.invocationShapes i side false = .ok [.concrete dims] :=
      invocationShapes_eq_ok.2 ⟨inv, hr, by rw [hout]; exact .cons ⟨s, hs, hd⟩ .nil⟩
    rw [invocationShape, hshapes]
    rfl

end Graph

/-! ## Layers that keep the places of a sample -/

/-- Shapes of the only input and the only output of a layer whose samples have
    as many places as before. -/
def KeepsPlaces (shapes outputShapes : List Shape) : Prop :=
  ∃ s s', shapes = [s] ∧ outputShapes = [s'] ∧ ∀ dims, s.withoutBatch = .concrete dims →
    ∃ dims', s'.withoutBatch = .concrete dims' ∧ volume dims' = volume dims

section
variable {α : Type} {shapes outputShapes : List Shape}

theorem keepsPlaces_flatten
    (h : (flatten : Operation α).outputShapes shapes = .ok outputShapes) :
    KeepsPlaces shapes outputShapes := by
  obtain ⟨s, hs, h⟩ := bind_eq_ok.1 h
  obtain ⟨batch, -, h⟩ := bind_eq_ok.1 h
  obtain ⟨v, hv, h⟩ := bind_eq_ok.1 h
  refine ⟨s, _, onlyInput_eq_ok.1 hs, (pure_eq_ok.1 h).symm, ?_⟩
  intro dims hdims
  rw [hdims] at hv
  obtain rfl := Shape.volume?_concrete hv
  exact ⟨[volume dims], rfl, by simp⟩

theorem Reshape.volume_resolve {r : Reshape} {n : Nat} {dims : List Nat}
    (h : r.resolve n = .ok dims) : volume dims = n := by
  obtain ⟨_, -, h⟩ := bind_eq_ok.1 h
  obtain ⟨_, -, h⟩ := bind_eq_ok.1 h
  obtain ⟨_, -, h⟩ := bind_eq_ok.1 h
  obtain ⟨m, hm, h⟩ := bind_eq_ok.1 h
  obtain ⟨_, hrequire, h⟩ := bind_eq_ok.1 h
  obtain rfl := pure_eq_ok.1 h
  rw [← product_eq_ok hm]
  exact require_eq_ok.1 hrequire

theorem Reshape.keepsPlaces {r : Reshape} (h : r.outputShapes shapes = .ok outputShapes) :
    KeepsPlaces shapes outputShapes := by
  obtain ⟨s, hs, h⟩ := bind_eq_ok.1 h
  obtain ⟨batch, -, h⟩ := bind_eq_ok.1 h
  obtain ⟨v, hv, h⟩ := bind_eq_ok.1 h
  cases v with
  | none =>
    refine ⟨s, _, onlyInput_eq_ok.1 hs, (pure_eq_ok.1 h).symm, ?_⟩
    intro dims hdims
    rw [hdims] at hv
    exact absurd (Shape.volume?_concrete hv) nofun
  | some n =>
    obtain ⟨dims', hresolve, h⟩ := bind_eq_ok.1 h
    refine ⟨s, _, onlyInput_eq_ok.1 hs, (pure_eq_ok.1 h).symm, ?_⟩
    intro dims hdims
    rw [hdims] at hv
    obtain rfl := Option.some.inj (Shape.volume?_concrete hv)
    exact ⟨dims', rfl, volume_resolve hresolve⟩

/-- An invocation whose layer keeps the places of a sample. -/
theorem Graph.Applied.keepsDims [Scalar α] {g : Graph α} {i : InvocationId} {inv : Invocation}
    {op : Operation α} (h : g.Applied i inv op shapes outputShapes)
    (hk : KeepsPlaces shapes outputShapes) {t : TensorId} (ht : inv.inputs[0]? = some t)
    {dims : List Nat} (hd : g.Dims t dims) :
    ∃ u dims', inv.outputs = [u] ∧ g.Dims u dims' ∧ volume dims' = volume dims := by
  obtain ⟨s, s', rfl, rfl, hkeep⟩ := hk
  obtain ⟨t', _, ht', hnil, hin⟩ := List.forall₂_cons_right_iff.1 h.inputs
  obtain rfl := List.forall₂_nil_right_iff.1 hnil
  obtain ⟨u, _, hu, hnil, hout⟩ := List.forall₂_cons_right_iff.1 h.outputs
  obtain rfl := List.forall₂_nil_right_iff.1 hnil
  obtain rfl : t' = t := by simpa [hin] using ht
  obtain ⟨s₀, hs₀, hd⟩ := hd
  obtain rfl := Option.some.inj (ht'.symm.trans hs₀)
  obtain ⟨dims', hd', hvolume⟩ := hkeep dims hd
  exact ⟨u, dims', hout, ⟨s', hu, hd'⟩, hvolume⟩

end
end Neuroform

/-
  Neuroform — what a call of a model leaves.

  A call replays the model on other tensors and then adds outputs that stand
  for what those of the model became.  The replay is followed invocation by
  invocation (`Replaying`): at its end every output of the model has become a
  tensor of the same shape, so that adding the outputs cannot fail.
-/
import Neuroform.Proofs.Binding
import Neuroform.Proofs.Graph.Building

namespace Neuroform.Graph

variable {α : Type} [Scalar α] {g g' : Graph α} {m : ModelDef}

/-- What is known in the course of a replay, after some inputs of a model have
    been fed and some of its invocations have been copied. -/
structure Replaying (g : Graph α) (fed : List (TensorId × TensorId)) (done : List InvocationId)
    (replay : Replay) : Prop where
  older : ∀ e ∈ fed, e.2.index < g.tensors.size
  known : ∀ t y, replay.lookup t = some y → g.SameShape t y ∧
    (t ∈ fed.map (·.1) ∨ ∃ p, g.producer? t = some p ∧ p.source ∈ done)
  input : ∀ x u, fed.reverse.lookup x = some u → ∃ y p j, replay.lookup x = some y ∧
    g.producer? x = some p ∧ g.record? ⟨p.layer, j⟩ = some ⟨[u], [y]⟩ ∧
    g.Produces ⟨p.layer, j⟩ [y]
  copy : ∀ i ∈ done, ∃ inv j ys zs, g.record? i = some inv ∧
    List.Forall₂ (fun t y => replay.lookup t = some y) inv.inputs ys ∧
    List.Forall₂ (fun t z => replay.lookup t = some z) inv.outputs zs ∧
    g.record? ⟨i.layer, j⟩ = some ⟨ys, zs⟩ ∧ g.Produces ⟨i.layer, j⟩ zs

omit [Scalar α] in
theorem Replaying.mono (hg : g.Grows g') {fed : List (TensorId × TensorId)}
    {done : List InvocationId} {replay : Replay} (h : g.Replaying fed done replay) :
    g'.Replaying fed done replay where
  older e he := (h.older e he).trans_le hg.size_tensors
  known t y ht := by
    obtain ⟨hs, hk⟩ := h.known t y ht
    exact ⟨hs.mono hg, hk.imp id fun ⟨p, hp, hi⟩ => ⟨p, hg.producer hp, hi⟩⟩
  input x u hx := by
    obtain ⟨y, p, j, hy, hp, hr, hprod⟩ := h.input x u hx
    exact ⟨y, p, j, hy, hg.producer hp, hg.record _ _ hr, hprod.mono hg⟩
  copy i hi := by
    obtain ⟨inv, j, ys, zs, hr, hys, hzs, hr', hprod⟩ := h.copy i hi
    exact ⟨inv, j, ys, zs, hg.record _ _ hr, hys, hzs, hg.record _ _ hr', hprod.mono hg⟩

/-! ## The replay -/

section
variable {apply : LayerId → List TensorId → Step (Graph α) (List TensorId)}
  (happly : ∀ l inputs (g : Graph α), g.Sound → g.Leads (apply l inputs) (Applies l inputs))
include happly

theorem leads_replayInput (hs : g.Sound) {fed : List (TensorId × TensorId)} {replay : Replay}
    (h : g.Replaying fed [] replay) {x u : TensorId} {p : Provenance}
    (hx : g.producer? x = some p) (he : g.IsEntry p.layer) :
    g.Leads (replayInput apply replay (x, u)) fun g' replay' =>
      g'.Replaying (fed ++ [(x, u)]) [] replay' := by
  unfold replayInput
  refine .get_bind (.lift_bind hs fun tensor ht => .lift_bind hs fun source hsource => ?_)
  rw [orRefuse_eq_ok] at hsource
  obtain rfl : p = source := by
    rw [producer?_eq_some] at hx
    obtain ⟨_, ht', hp⟩ := hx
    obtain rfl := Except.ok.inj (ht.symm.trans ht')
    exact Option.some.inj (hp.symm.trans hsource)
  refine (happly _ _ g hs).bind fun outputs g' hs' hg ⟨j, hr, hm⟩ => ?_
  refine .lift_bind hs' fun y hy => .pure hs' ?_
  rw [orFault_eq_ok] at hy
  have h' := h.mono hg
  obtain ⟨d, hd⟩ := he
  -- both the input and what it becomes are outputs of the entry
  obtain ⟨-, -, y', ⟨⟩, hys⟩ := hs'.entry (hg.kind _ _ hd) hr
  obtain rfl := Option.some.inj hy
  have hxs : g'.shape? x = some d.shape := by
    obtain ⟨inv, hrx, hxo, -⟩ := hs'.made (hg.producer hx)
    obtain ⟨-, -, x', hx', hs⟩ := hs'.entry (hg.kind _ _ hd) hrx
    rw [hx'] at hxo
    obtain rfl := List.mem_singleton.1 (List.mem_of_getElem? hxo)
    exact hs
  have hu : u.index < g'.tensors.size := by
    have hop : g'.operation? p.layer = some d.operation := by
      simp [operation?, hg.kind _ _ hd, LayerKind.operation?, Primitive.operation]
    obtain ⟨s, s', ha⟩ := hm.applied_of_operation hop
    obtain ⟨s, -, hs⟩ := forall₂_mem_left ha.inputs u (by simp)
    exact index_lt_of_shape? hs
  exact {
    older := by
      rintro e he
      rcases List.mem_append.1 he with he | he
      · exact h'.older e he
      · obtain rfl := List.mem_singleton.1 he; exact hu
    known := by
      intro t z hz
      rw [List.lookup_cons] at hz
      split at hz
      case h_1 heq =>
        obtain rfl := Option.some.inj hz
        obtain rfl := beq_iff_eq.1 heq
        exact ⟨⟨_, hxs, hys⟩, .inl (by simp)⟩
      case h_2 =>
        obtain ⟨hss, hk⟩ := h'.known t z hz
        exact ⟨hss, hk.imp (by simp +contextual) id⟩
    input := by
      intro x' u' hx'
      rw [List.reverse_append, List.reverse_singleton, List.singleton_append,
        List.lookup_cons] at hx'
      rw [List.lookup_cons]
      split at hx'
      case h_1 heq =>
        obtain rfl := Option.some.inj hx'
        obtain rfl := beq_iff_eq.1 heq
        exact ⟨_, p, j, by simp, hg.producer hx, hr, hm.produces⟩
      case h_2 heq =>
        obtain ⟨y', q, j', hy', hq⟩ := h'.input x' u' hx'
        exact ⟨y', q, j', by simp [heq, hy'], hq⟩
    copy := by simp }

/-- Replaying an invocation of a model binds its outputs, which were not bound
    before, to outputs of the same shapes. -/
theorem leads_replayInvocation (hs : g.Sound) {order done rest : List InvocationId}
    {fed : List (TensorId × TensorId)} {replay : Replay} {i : InvocationId}
    (hin : ∀ x ∈ fed.map (·.1), x ∈ m.inputs)
    (hentry : ∀ x ∈ m.inputs, ∃ p, g.producer? x = some p ∧ g.IsEntry p.layer)
    (hord : g.internalOrder m = .ok order) (ho : order = done ++ i :: rest)
    (h : g.Replaying fed done replay) :
    g.Leads (replayInvocation apply replay i) fun g' replay' =>
      g'.Replaying fed (done ++ [i]) replay' := by
  unfold replayInvocation
  obtain ⟨hlists, -, -⟩ := internalOrder_lists hs.acyclic hord
  have hi : i ∈ order := by simp [ho]
  obtain ⟨-, t₀, p₀, hstop, hp₀, rfl⟩ := hlists.source hi
  obtain ⟨inv, hrec, hout₀, hmade⟩ := hs.made hp₀
  have hidone : p₀.source ∉ done := by
    have := hlists.nodup
    rw [ho, List.nodup_append] at this
    exact fun hd => this.2.2 _ hd _ (by simp) rfl
  -- an output of the invocation is bound neither to an input nor by an earlier one
  have hfresh : ∀ t ∈ inv.outputs, ∀ y, replay.lookup t ≠ some y := by
    intro t ht y hy
    obtain ⟨p, hp, hpi⟩ := hmade.produces.source ht
    rcases (h.known t y hy).2 with hk | ⟨q, hq, hqd⟩
    · obtain ⟨q, hq, d, hd⟩ := hentry t (hin t hk)
      obtain rfl := Option.some.inj (hp.symm.trans hq)
      have hlayer : p.layer = p₀.layer := congrArg InvocationId.layer hpi
      obtain ⟨-, -, t', ht', -⟩ := hs.entry (hlayer ▸ hd) hrec
      rw [ht'] at ht hout₀
      obtain rfl := List.mem_singleton.1 ht
      obtain rfl := List.mem_singleton.1 (List.mem_of_getElem? hout₀)
      exact hstop (hin _ hk)
    · obtain rfl := Option.some.inj (hp.symm.trans hq)
      exact hidone (hpi ▸ hqd)
  refine .get_bind (.lift_bind hs fun inv' hinv => ?_)
  obtain rfl := Option.some.inj (hrec.symm.trans (invocation_eq_ok.1 hinv))
  have hfed : (inv.inputs.mapM fun t => (liftM (orRefuse (replay.lookup t)
      (GraphCause.notReplayed t)) : Step (Graph α) TensorId)).exec g =
      (inv.inputs.mapM fun t => orRefuse (replay.lookup t) (GraphCause.notReplayed t), g) :=
    Step.exec_mapM_of_exec fun _ _ => rfl
  refine .bind (P := fun g' ys => g = g' ∧
    List.Forall₂ (fun t y => replay.lookup t = some y) inv.inputs ys) ?_ ?_
  · refine .of_exec hfed hs (.refl g) fun ys hys => ⟨rfl, (mapM_forall₂.1 hys).imp ?_⟩
    exact fun _ _ => orRefuse_eq_ok.1
  rintro ys g' - - ⟨rfl, hys⟩
  refine (happly _ _ g hs).bind fun zs g' hs' hg hmade' => .pure hs' ?_
  obtain ⟨j, hr, hm⟩ := hmade'
  have h' := h.mono hg
  have hsame : List.Forall₂ g'.SameShape inv.outputs zs :=
    (hmade.mono hg).sameShape hm rfl (hys.imp fun t y ht => (h'.known t y ht).1)
  have hnodup := hmade.produces.nodup
  have hext : ∀ {t y}, replay.lookup t = some y →
      ((inv.outputs.zip zs).reverse ++ replay).lookup t = some y := fun {t y} hy => by
    rw [lookup_bind_of_notMem fun ht => hfresh t ht y hy, hy]
  exact {
    older := h'.older
    known := by
      intro t y hy
      rcases lookup_bind_eq_some hy with ⟨n, ht, hz⟩ | hy
      · obtain ⟨z, hz', hsz⟩ := forall₂_getElem? hsame ht
        obtain rfl := Option.some.inj (hz.symm.trans hz')
        exact ⟨hsz, .inr ⟨_, hg.producer (hmade.produces n t ht), by simp [Provenance.source]⟩⟩
      · obtain ⟨hss, hk | ⟨p, hp, hi⟩⟩ := h'.known t y hy
        · exact ⟨hss, .inl hk⟩
        · exact ⟨hss, .inr ⟨p, hp, by simp [hi]⟩⟩
    input := fun x u hx => by
      obtain ⟨y, p, j, hy, hq⟩ := h'.input x u hx
      exact ⟨y, p, j, hext hy, hq⟩
    copy := by
      intro i hi
      rcases List.mem_append.1 hi with hi | hi
      · obtain ⟨inv, j, ys, zs, hr, hys, hzs, hq⟩ := h'.copy i hi
        exact ⟨inv, j, ys, zs, hr, hys.imp fun _ _ => hext, hzs.imp fun _ _ => hext, hq⟩
      · obtain rfl := List.mem_singleton.1 hi
        exact ⟨inv, j, ys, zs, hg.record _ _ hrec, hys.imp fun _ _ => hext,
          forall₂_lookup_bind hnodup hsame.length_eq, hr, hm.produces⟩ }

/-- The inputs of a model are fed one by one. -/
theorem leads_replayInputs (hs : g.Sound) {l : LayerId} (hm : g.Defined l m) {ts : List TensorId} :
    g.Leads ((m.inputs.zip ts).foldlM (replayInput apply) []) fun g' replay =>
      g'.Replaying (m.inputs.zip ts) [] replay := by
  refine .foldlM (I := fun done g' replay => g'.Replaying done [] replay) hs
    ⟨by simp, by simp, by simp, by simp⟩ fun done e rest g' replay he hs' hg h => ?_
  have hin : e ∈ m.inputs.zip ts := by simp [he]
  obtain ⟨p, hp, d, hd⟩ := hm.entry e.1 (List.of_mem_zip hin).1
  exact leads_replayInput happly hs' h (hg.producer hp) ⟨d, hg.kind _ _ hd⟩

/-- What is fed to a model does not change while its invocations are copied. -/
theorem leads_replayInvocation_of_zip (hs : g.Sound) {l : LayerId} (hm : g.Defined l m)
    {ts : List TensorId} {order done rest : List InvocationId} {replay : Replay} {i : InvocationId}
    (hord : g.internalOrder m = .ok order) (ho : order = done ++ i :: rest)
    (h : g.Replaying (m.inputs.zip ts) done replay) :
    g.Leads (replayInvocation apply replay i) fun g' replay' =>
      g'.Replaying (m.inputs.zip ts) (done ++ [i]) replay' := by
  refine leads_replayInvocation (m := m) happly hs ?_ hm.entry hord ho h
  intro x hx
  obtain ⟨e, he, rfl⟩ := List.mem_map.1 hx
  exact (List.of_mem_zip he).1

end

/-! ## The end of a replay -/

/-- What a tensor has become in a replay. -/
def become (replay : Replay) (t : TensorId) : TensorId := (replay.lookup t).getD t

theorem Replaying.replayed {order : List InvocationId} {ts : List TensorId} {replay : Replay}
    (h : g.Replaying (m.inputs.zip ts) order replay) (hlen : m.inputs.length = ts.length)
    (hord : g.internalOrder m = .ok order) : g.Replayed m ts order (become replay) where
  listed := hord
  input x hx := by
    obtain ⟨u, hu⟩ := exists_lookup_zip hlen hx
    obtain ⟨y, p, j, hy, hp, hr, hprod⟩ := h.input x u hu
    exact ⟨u, p, j, hu, hp, by simp [become, hy, hr], by simpa [become, hy] using hprod⟩
  copy i hi := by
    obtain ⟨inv, j, ys, zs, hr, hys, hzs, hr', hprod⟩ := h.copy i hi
    have hmap : ∀ {ts ys : List TensorId},
        List.Forall₂ (fun t y => replay.lookup t = some y) ts ys → ts.map (become replay) = ys := by
      intro ts ys hys
      rw [← List.forall₂_eq_eq_eq, List.forall₂_map_left_iff]
      exact hys.imp fun t y hy => by simp [become, hy]
    exact ⟨inv, j, hr, by rw [hmap hys, hmap hzs]; exact hr', by rw [hmap hzs]; exact hprod⟩

omit [Scalar α] in
theorem Replaying.older_of_mem {order : List InvocationId} {ts : List TensorId} {replay : Replay}
    (h : g.Replaying (m.inputs.zip ts) order replay) (hlen : m.inputs.length = ts.length)
    {u : TensorId} (hu : u ∈ ts) : u.index < g.tensors.size := by
  have hsnd : (m.inputs.zip ts).map Prod.snd = ts := List.map_snd_zip hlen.ge
  rw [← hsnd] at hu
  obtain ⟨e, he, rfl⟩ := List.mem_map.1 hu
  exact h.older e he

/-- What the invocations up to some point of a replay settle has become a
    tensor of the same shape. -/
theorem Replaying.bound (hs : g.Sound) {done : List InvocationId} {ts : List TensorId}
    {replay : Replay} (h : g.Replaying (m.inputs.zip ts) done replay)
    (hlen : m.inputs.length = ts.length) {t : TensorId} (ht : g.Settled m.inputs done t) :
    ∃ y, replay.lookup t = some y ∧ g.SameShape t y := by
  suffices hy : ∃ y, replay.lookup t = some y by
    obtain ⟨y, hy⟩ := hy
    exact ⟨y, hy, (h.known t y hy).1⟩
  rcases ht with hin | ⟨p, hp, hi⟩
  · obtain ⟨u, hu⟩ := exists_lookup_zip hlen hin
    obtain ⟨y, p, j, hy, -⟩ := h.input t u hu
    exact ⟨y, hy⟩
  · obtain ⟨inv, j, ys, zs, hr, -, hzs, -⟩ := h.copy _ hi
    obtain ⟨-, ht'⟩ := hs.made_of_producer hp hr
    obtain ⟨z, -, hz⟩ := forall₂_mem_left hzs t (List.mem_of_getElem? ht')
    exact ⟨z, hz⟩

/-- So has every output of the model at the end of the replay. -/
theorem Replaying.output (hs : g.Sound) {order : List InvocationId} {ts : List TensorId}
    {replay : Replay} (h : g.Replaying (m.inputs.zip ts) order replay)
    (hlen : m.inputs.length = ts.length) (hord : g.internalOrder m = .ok order) {t : TensorId}
    (ht : t ∈ m.outputs) : ∃ y, replay.lookup t = some y ∧ g.SameShape t y := by
  obtain ⟨-, -, hsettled⟩ := internalOrder_lists hs.acyclic hord
  exact h.bound hs hlen (hsettled t (.root ht))

/-! ## Calls -/

/-- The tensor that is added for an output of a call. -/
def standIn (g : Graph α) (replay : Replay) (source : InvocationId) (output : TensorId × Nat) :
    Tensor :=
  ⟨(g.shape? (become replay output.1)).getD default,
    some ⟨source.layer, source.invocation, output.2⟩, some (become replay output.1)⟩

omit [Scalar α] in
/-- Adding the outputs of a call does not fail once the model is replayed. -/
theorem exec_addStandIn {replay : Replay} {source : InvocationId} {output : TensorId × Nat}
    {y : TensorId} {s : Shape} (hy : replay.lookup output.1 = some y) (hs : g.shape? y = some s)
    (ys : List Tensor) :
    (addStandIn replay source output).exec (g.pushTensors ys) =
      (addTensor (g.standIn replay source output)).exec (g.pushTensors ys) := by
  obtain ⟨x, hx, rfl⟩ := shape?_eq_some.1 hs
  have hlt := (Array.getElem?_eq_some_iff.1 (tensor_eq_ok.1 hx)).1
  have hx' : (g.pushTensors ys).tensor y = .ok x := by
    rw [tensor_eq_ok, pushTensors, Array.getElem?_append_left hlt]
    exact tensor_eq_ok.1 hx
  unfold addStandIn
  rw [hy]
  change ((liftM (.ok y : Outcome TensorId) : Step (Graph α) TensorId) >>= _).exec _ = _
  simp only [Step.exec_lift_bind, Step.exec_get_bind, hx']
  simp [standIn, become, hy, hs]

theorem leads_callWith {apply : LayerId → List TensorId → Step (Graph α) (List TensorId)}
    (happly : ∀ l inputs (g : Graph α), g.Sound → g.Leads (apply l inputs) (Applies l inputs))
    (hs : g.Sound) {l : LayerId} {ts : List TensorId} :
    g.Leads (callWith apply l ts) (Applies l ts) := by
  unfold callWith
  refine .get_bind (.lift_bind hs fun m hm => .lift_bind hs fun layer₀ _ =>
    .lift_bind hs fun _ hlen => ?_)
  rw [modelDef_eq_ok] at hm
  rw [require_eq_ok] at hlen
  -- the inputs are fed
  refine (leads_replayInputs happly hs (hs.model hm)).bind fun replay g₁ hs₁ hg₁ h₁ => ?_
  -- the invocations are copied
  refine .get_bind (.lift_bind hs₁ fun order hord => ?_)
  refine .bind (P := fun g' replay => g'.Replaying (m.inputs.zip ts) order replay ∧
    g'.internalOrder m = .ok order) ?_ ?_
  · refine .imp (P := fun g' replay => g'.Replaying (m.inputs.zip ts) order replay) ?_
      fun g' _ _ hg h => ⟨h, internalOrder_of_grows hg hord⟩
    refine .foldlM (I := fun done g' replay => g'.Replaying (m.inputs.zip ts) done replay) hs₁ h₁
      fun done i rest g' replay ho hs' hg h => ?_
    exact leads_replayInvocation_of_zip happly hs' ((hs.model hm).mono (hg₁.trans hg))
      (internalOrder_of_grows hg hord) ho h
  rintro replay g₂ hs₂ hg₂ ⟨h₂, hord⟩
  have hg := hg₁.trans hg₂
  -- the outputs are added
  refine .get_bind (.lift_bind hs₂ fun layer hl => ?_)
  have hout : ∀ e ∈ m.outputs.zipIdx, ∃ y s, replay.lookup e.1 = some y ∧ g₂.shape? y = some s ∧
      g₂.shape? e.1 = some s := by
    rintro ⟨t, k⟩ he
    obtain ⟨y, hy, s, ht, hys⟩ := h₂.output hs₂ hlen hord (List.fst_mem_of_mem_zipIdx he)
    exact ⟨y, s, hy, hys, ht⟩
  set xs := m.outputs.zipIdx.map (g₂.standIn replay ⟨l, layer.invocations.size⟩) with hxs
  have hget : ∀ k (x : Tensor), xs[k]? = some x → ∃ t, m.outputs[k]? = some t ∧
      g₂.standIn replay ⟨l, layer.invocations.size⟩ (t, k) = x := by
    intro k x hx
    simp only [hxs, List.getElem?_map, List.getElem?_zipIdx, Option.map_map,
      Option.map_eq_some_iff, Nat.zero_add] at hx
    exact hx
  have hprov : ∀ k (x : Tensor), xs[k]? = some x →
      x.provenance = some ⟨l, layer.invocations.size, k⟩ := by
    intro k x hx
    obtain ⟨t, -, rfl⟩ := hget k x hx
    rfl
  refine .of_extended hs₂ hl (exec_record fun e he ys => ?_) hprov (.called
    (?_ : Called _ _ _ m order (become replay)))
  · obtain ⟨y, s, hy, hs, -⟩ := hout e he
    exact exec_addStandIn hy hs ys
  have hgx : g₂.Grows (g₂.extended l ts xs) := grows_extended hl
  exact {
    model := by rw [model?_extended, hg.model hm]
    produces := produces_extended hprov
    ordered := fun u hu t ht =>
      (h₂.older_of_mem hlen hu).trans_le (index_of_mem_nextIds ht)
    arity := hlen
    replayed := (h₂.replayed hlen hord).mono hgx
    outputs := by
      refine forall₂_of_getElem? (by simp) fun k t y ht hy => ?_
      obtain ⟨hk, rfl⟩ := getElem?_nextIds.1 ht
      have hx := List.getElem?_eq_getElem hk
      obtain ⟨y', hy', hx'⟩ := hget k _ hx
      obtain rfl := Option.some.inj (hy'.symm.trans hy)
      have htensor : (g₂.extended l ts xs).tensor ⟨g₂.tensors.size + k⟩ = _ := tensor_extended hx
      rw [← hx'] at htensor
      obtain ⟨z, s, hz, hzs, hys⟩ := hout (y', k) (List.mem_of_getElem? (i := k) (by simp [hy']))
      refine ⟨inner?_eq_some.2 ⟨_, htensor, rfl⟩, ?_, s, hgx.shape hys,
        shape?_eq_some.2 ⟨_, htensor, by simp [standIn, become, hz, hzs]⟩⟩
      have := index_lt_of_shape? hzs
      simp only [become, hz, Option.getD_some]
      omega }

/-- What the search for the invocations of a model meets has become an output
    of the same layer in a call: of one that is applied to a tensor that was
    given to the call, or of a copy of the invocation that it comes from. -/
theorem Replayed.copied (hs : g.Sound) {ts : List TensorId} {order : List InvocationId}
    {become : TensorId → TensorId} (h : g.Replayed m ts order become) {t : TensorId}
    (ht : g.Met m.inputs m.outputs t) : ∃ p q inv, g.producer? t = some p ∧
      g.producer? (become t) = some q ∧ g.record? q.source = some inv ∧ q.layer = p.layer ∧
      ((t ∈ m.inputs ∧ ∃ u ∈ ts, inv.inputs = [u]) ∨
        ∃ inv', g.record? p.source = some inv' ∧ inv'.inputs ≠ [] ∧
          inv.inputs = inv'.inputs.map become ∧ ∀ u ∈ inv'.inputs, g.Met m.inputs m.outputs u) := by
  by_cases hin : t ∈ m.inputs
  · obtain ⟨u, p, n, hu, hp, hr, hprod⟩ := h.input t hin
    have hmem : u ∈ ts := (List.of_mem_zip (List.mem_reverse.1 (mem_of_lookup hu))).2
    exact ⟨p, _, _, hp, hprod 0 _ rfl, hr, rfl, .inl ⟨hin, u, hmem, rfl⟩⟩
  · obtain ⟨hlists, -, hsettled⟩ := internalOrder_lists hs.acyclic h.listed
    obtain ⟨p, hp, hi⟩ := (hsettled t ht).resolve_left hin
    obtain ⟨inv, n, hr, hr', hprod⟩ := h.copy _ hi
    obtain ⟨-, hout⟩ := hs.made_of_producer hp hr
    have hq := hprod p.output (become t) (by simp [hout])
    exact ⟨p, _, _, hp, hq, hr', rfl, .inr ⟨inv, hr, (hlists.settled hi hr).1, rfl,
      fun u hu => .input ht hin hp hr hu⟩⟩

theorem leads_applyWithin : ∀ {depth : Nat} {l : LayerId} {ts : List TensorId} {g : Graph α},
    g.Sound → g.Leads (applyWithin depth l ts) (Applies l ts)
  | 0, _, _, _, hs => .lift hs fun _ h => by simp at h
  | depth + 1, l, ts, g, hs => by
    unfold applyWithin
    refine .get_bind (.lift_bind hs fun layer _ => ?_)
    split
    · exact leads_callWith (fun _ _ _ => leads_applyWithin) hs
    · exact leads_applyPrimitive hs

/-- Applying a layer keeps a graph sound and leaves a record of it. -/
theorem leads_apply (hs : g.Sound) {l : LayerId} {ts : List TensorId} :
    g.Leads (apply l ts) (Applies l ts) := .get_bind (leads_applyWithin hs)

/-- Calling a model keeps a graph sound and leaves a record of it. -/
theorem leads_call (hs : g.Sound) {l : LayerId} {ts : List TensorId} :
    g.Leads (call l ts) (Applies l ts) :=
  .get_bind (leads_callWith (fun _ _ _ => leads_applyWithin) hs)

end Neuroform.Graph

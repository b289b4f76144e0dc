/-
  Neuroform — calling a model is inlining it.

  Two copies of the invocations of a model evaluate alike if what their inputs
  have become does (`Copied.agree`).  A model and what a call of it replays are
  such copies, so that a call evaluates to what the model predicts.  This needs
  that no tensor inside of the call is fed from outside: a fed tensor is not
  evaluated, wherever it stands.
-/
import Neuroform.Proofs.Graph.Reachable
import Neuroform.Proofs.Graph.Values
import Neuroform.Proofs.Rational

namespace Neuroform.Graph

variable {α : Type} [Scalar α]

omit [Scalar α] in
/-- An invocation has been copied onto what its tensors became. -/
def Copies (g : Graph α) (become : TensorId → TensorId) (c : InvocationId) (n : Nat) : Prop :=
  ∃ inv, g.record? c = some inv ∧
    g.record? ⟨c.layer, n⟩ = some ⟨inv.inputs.map become, inv.outputs.map become⟩ ∧
    g.Produces ⟨c.layer, n⟩ (inv.outputs.map become)

/-- A tensor is inside of a call: a tensor of the model became it, or it is
    inside of what became of a call in the model. -/
inductive Inside (g : Graph α) : InvocationId → TensorId → Prop where
  | become {i : InvocationId} {inv : Invocation} {m : ModelDef} {order : List InvocationId}
      {become : TensorId → TensorId} {t : TensorId} (record : g.record? i = some inv)
      (call : g.Called i inv m order become) (met : g.Met m.inputs m.outputs t) :
      Inside g i (become t)
  | nested {i c : InvocationId} {inv : Invocation} {m : ModelDef} {order : List InvocationId}
      {become : TensorId → TensorId} {n : Nat} {t : TensorId} (record : g.record? i = some inv)
      (call : g.Called i inv m order become) (h : c ∈ order) (copies : g.Copies become c n)
      (inside : Inside g ⟨c.layer, n⟩ t) : Inside g i t

/-- The invocations of a model have been copied, and nothing in the copies is
    fed. -/
structure Copied (g : Graph α) (fed : Valuation α) (m : ModelDef) (order : List InvocationId)
    (become : TensorId → TensorId) : Prop where
  copies : ∀ c ∈ order, ∃ n, g.Copies become c n ∧
    ∀ t, g.Inside ⟨c.layer, n⟩ t → fed.lookup t = none
  unfed : ∀ t, g.Met m.inputs m.outputs t → t ∉ m.inputs → fed.lookup (become t) = none

section
variable {g : Graph α} {fed fed' : Valuation α} {i : InvocationId} {inv : Invocation}
  {m : ModelDef} {order : List InvocationId} {become become' : TensorId → TensorId}
  {t u : TensorId} {v w : Grid α}

/-! ## Inside of calls -/

/-- What is inside of a call is made of inputs. -/
theorem Inside.has_inputs (hs : g.Sound) (h : g.Inside i t) : ∃ p inv, g.producer? t = some p ∧
    g.record? p.source = some inv ∧ inv.inputs ≠ [] := by
  induction h with
  | become record call met =>
    obtain ⟨_, q, inv, -, hq, hr, -, ⟨-, u, -, hin⟩ | ⟨inv', -, hne, hin, -⟩⟩ :=
      call.replayed.copied hs met
    · exact ⟨q, inv, hq, hr, by simp [hin]⟩
    · exact ⟨q, inv, hq, hr, by simpa [hin] using hne⟩
  | nested _ _ _ _ _ ih => exact ih

/-- What a call replays is copied, if nothing inside of it is fed. -/
theorem Called.copied (hr : g.record? i = some inv) (h : g.Called i inv m order become)
    (hu : ∀ t, g.Inside i t → fed.lookup t = none) : g.Copied fed m order become where
  copies c hc := by
    obtain ⟨inv', n, hcopy⟩ := h.replayed.copy c hc
    exact ⟨n, ⟨inv', hcopy⟩, fun t ht => hu t (.nested hr h hc ⟨inv', hcopy⟩ ht)⟩
  unfed t ht _ := hu _ (.become hr h ht)

/-- What feeds an entry comes out of it. -/
theorem evaluates_entry {l : LayerId} (he : g.IsEntry l) {n : Nat}
    (hr : g.record? ⟨l, n⟩ = some ⟨[u], [t]⟩) (hprod : g.Produces ⟨l, n⟩ [t])
    (hu : fed.lookup t = none) : g.Evaluates fed t v ↔ g.Evaluates fed u v := by
  obtain ⟨d, hd⟩ := he
  have hp := hprod 0 t rfl
  have hop : g.operation? l = some d.operation := by
    simp [operation?, hd, LayerKind.operation?, Primitive.operation]
  constructor
  · intro h
    cases h with
    | fed h => simp [hu] at h
    | inside _ producer model =>
      obtain rfl := Option.some.inj (hp.symm.trans producer)
      exact absurd (model.symm.trans (model?_eq_none_of_operation? hop)) (by simp)
    | @forward _ p inv op vs rs _ _ producer record operation arity inputs results count value =>
      obtain rfl := Option.some.inj (hp.symm.trans producer)
      obtain rfl := Option.some.inj (hr.symm.trans record)
      obtain rfl := Option.some.inj (hop.symm.trans operation)
      obtain ⟨w, rfl⟩ := List.length_eq_one_iff.1 arity.symm
      obtain rfl : [w] = rs := Except.ok.inj results
      obtain rfl := Option.some.inj value
      exact inputs (u, w) (by simp)
  · intro h
    have hin : ∀ e ∈ [u].zip [v], g.Evaluates fed e.1 e.2 := by simpa using h
    exact .forward hu hp hr hop rfl hin rfl rfl rfl

/-! ## Copies of a model -/

omit [Scalar α] in
theorem Copies.output {c : InvocationId} {n : Nat} (h : g.Copies become c n)
    (hr : g.record? c = some inv) {k : Nat} (ht : inv.outputs[k]? = some t) :
    g.producer? (become t) = some ⟨c.layer, n, k⟩ := by
  obtain ⟨inv', hr', -, hprod⟩ := h
  obtain rfl := Option.some.inj (hr.symm.trans hr')
  exact hprod k _ (by simp [ht])

omit [Scalar α] in
theorem Copies.record {c : InvocationId} {n : Nat} (h : g.Copies become c n)
    (hr : g.record? c = some inv) :
    g.record? ⟨c.layer, n⟩ = some ⟨inv.inputs.map become, inv.outputs.map become⟩ := by
  obtain ⟨inv', hr', hrec, -⟩ := h
  obtain rfl := Option.some.inj (hr.symm.trans hr')
  exact hrec

omit [Scalar α] in
theorem fed_map {f : TensorId → TensorId} {ts : List TensorId} {x : TensorId} :
    m.fed (ts.map f) x = (m.fed ts x).map f := lookup_zip_map f

/-- **Two copies of a model agree** if their inputs do. -/
theorem Copied.agree (hs : g.Sound) : ∀ {n : Nat} {m : ModelDef} {order : List InvocationId}
    {become become' : TensorId → TensorId}, (∃ l, g.model? l = some m) →
    g.internalOrder m = .ok order → g.Copied fed m order become → g.Copied fed' m order become' →
    (∀ x ∈ m.inputs, g.Met m.inputs m.outputs x → ∀ v, g.Evaluates fed (become x) v →
      g.Evaluates fed' (become' x) v) →
    ∀ {t v}, g.Met m.inputs m.outputs t → (become t).index < n → g.Evaluates fed (become t) v →
      g.Evaluates fed' (become' t) v
  | 0, _, _, _, _, _, _, _, _, _, _, _, _, hn, _ => by omega
  | n + 1, m, order, become, become', hm, ho, hc, hc', hin, t, v, ht, hn, hv => by
    by_cases hstop : t ∈ m.inputs
    · exact hin t hstop ht v hv
    obtain ⟨hlists, -, hsettled⟩ := internalOrder_lists hs.acyclic ho
    obtain ⟨p, hp, hi⟩ := (hsettled t ht).resolve_left hstop
    obtain ⟨k, hcopy, hinside⟩ := hc.copies _ hi
    obtain ⟨k', hcopy', hinside'⟩ := hc'.copies _ hi
    obtain ⟨inv, hr, hout, -⟩ := hs.made hp
    have hr₁ := hcopy.record hr
    have hr₂ := hcopy'.record hr
    have hp₁ := hcopy.output hr hout
    have hp₂ := hcopy'.output hr hout
    have hunfed := hc.unfed t ht hstop
    have hunfed' := hc'.unfed t ht hstop
    -- the inputs of the invocation are met, and what they became is older
    have hinputs : ∀ u ∈ inv.inputs, ∀ {w}, g.Evaluates fed (become u) w →
        g.Evaluates fed' (become' u) w := by
      intro u hu w hw
      have hlt : (become u).index < (become t).index :=
        hs.acyclic hp₁ hr₁ _ (List.mem_map_of_mem hu)
      exact agree hs hm ho hc hc' hin (.input ht hstop hp hr hu) (by omega) hw
    cases hv with
    | fed h => simp [hunfed] at h
    | @forward _ q inv₁ op vs rs _ _ producer record operation arity inputs results count value =>
      obtain rfl := Option.some.inj (hp₁.symm.trans producer)
      obtain rfl := Option.some.inj (hr₁.symm.trans record)
      have hvs : List.Forall₂ (g.Evaluates fed') (inv.inputs.map become') vs := by
        have hvs := Evaluates.inputs_iff.2 ⟨arity, inputs⟩
        rw [List.forall₂_map_left_iff] at hvs ⊢
        refine forall₂_of_getElem? hvs.length_eq fun j u w hu hw => ?_
        obtain ⟨w', hw', hev⟩ := forall₂_getElem? hvs hu
        obtain rfl := Option.some.inj (hw.symm.trans hw')
        exact hinputs u (List.mem_of_getElem? hu) hev
      obtain ⟨harity, hin'⟩ := Evaluates.inputs_iff.1 hvs
      exact .forward hunfed' hp₂ hr₂ operation harity hin' results (by simpa using count) value
    | @inside _ u q m' _ _ producer model inner rest =>
      obtain rfl := Option.some.inj (hp₁.symm.trans producer)
      -- both copies are calls of one model, whose copies inside of them agree
      obtain ⟨hm₁, hout₁⟩ := hs.made_of_producer hp₁ hr₁
      obtain ⟨hm₂, hout₂⟩ := hs.made_of_producer hp₂ hr₂
      obtain ⟨order₁, b₁, hcall₁⟩ := hm₁.called_of_model model
      obtain ⟨order₂, b₂, hcall₂⟩ := hm₂.called_of_model model
      obtain rfl : order₁ = order₂ :=
        Except.ok.inj (hcall₁.replayed.listed.symm.trans hcall₂.replayed.listed)
      obtain ⟨y, hy, hinner₁, hlt, -⟩ := forall₂_getElem? hcall₁.outputs hout₁
      obtain ⟨y', hy', hinner₂, -, -⟩ := forall₂_getElem? hcall₂.outputs hout₂
      obtain rfl : y = y' := Option.some.inj (hy.symm.trans hy')
      obtain rfl := Option.some.inj (inner.symm.trans hinner₁)
      refine .inside hunfed' hp₂ model hinner₂ (agree (n := n) hs ⟨_, model⟩
        hcall₁.replayed.listed (hcall₁.copied hr₁ hinside) (hcall₂.copied hr₂ hinside')
        (fun x hx hmet w hw => ?_) (.root (List.mem_of_getElem? hy)) (by omega) rest)
      obtain ⟨u₁, q, n₁, hu₁, hq, hrec₁, hprod₁⟩ := hcall₁.replayed.input x hx
      obtain ⟨u₂, q₂, n₂, hu₂, hq₂, hrec₂, hprod₂⟩ := hcall₂.replayed.input x hx
      obtain rfl := Option.some.inj (hq.symm.trans hq₂)
      obtain ⟨q', hq', hentry⟩ := (hs.model model).entry x hx
      obtain rfl := Option.some.inj (hq.symm.trans hq')
      rw [fed_map, Option.map_eq_some_iff] at hu₁ hu₂
      obtain ⟨a, ha, rfl⟩ := hu₁
      obtain ⟨a', ha', rfl⟩ := hu₂
      obtain rfl := Option.some.inj (ha.symm.trans ha')
      obtain ⟨_, -, hmem⟩ := getElem?_of_lookup_zip ha
      rw [evaluates_entry hentry hrec₁ hprod₁ (hinside _ (.become hr₁ hcall₁ hmet))] at hw
      rw [evaluates_entry hentry hrec₂ hprod₂ (hinside' _ (.become hr₂ hcall₂ hmet))]
      exact hinputs a (List.mem_of_getElem? hmem) hw

/-- A model is a copy of itself, if its inputs are inside of none of its calls. -/
theorem copied_self (hs : g.Sound) {l : LayerId} (hm : g.model? l = some m)
    (ho : g.internalOrder m = .ok order) (hout : ∀ c ∈ order, ∀ x ∈ m.inputs, ¬ g.Inside c x)
    {vs : List (Grid α)} : g.Copied (m.inputs.zip vs).reverse m order id where
  copies c hc := by
    obtain ⟨inv, hr, hmade, -⟩ := makesUnfed_of_internalOrder hs hm ho vs c hc
    exact ⟨c.invocation, ⟨inv, hr, by simpa using hr, by simpa using hmade.produces⟩,
      fun t ht => lookup_zip_of_notMem fun hx => hout c hc t hx ht⟩
  unfed t _ ht := lookup_zip_of_notMem ht

/-- A call evaluates to what its model predicts, if none of the tensors inside
    of it is fed. -/
theorem Called.evaluates (hs : g.Sound) (hr : g.record? i = some inv)
    (h : g.Called i inv m order become) (hout : ∀ c ∈ order, ∀ x ∈ m.inputs, ¬ g.Inside c x)
    (hu : ∀ t, g.Inside i t → fed.lookup t = none) (hz : ∀ z ∈ inv.outputs, fed.lookup z = none)
    {vs ws : List (Grid α)} (hvs : List.Forall₂ (g.Evaluates fed) inv.inputs vs)
    (hp : g.predict i.layer vs = .ok ws) : List.Forall₂ (g.Evaluates fed) inv.outputs ws := by
  obtain ⟨m', hm, hlen, hws⟩ := predict_sound hs hp
  obtain rfl := Option.some.inj (h.model.symm.trans hm)
  refine forall₂_of_getElem? (h.outputs.length_eq.trans hws.length_eq) fun k z w hz' hw => ?_
  obtain ⟨y, hy, hinner, -⟩ := forall₂_getElem? h.outputs hz'
  obtain ⟨w', hw', hev⟩ := forall₂_getElem? hws hy
  obtain rfl := Option.some.inj (hw.symm.trans hw')
  refine .inside (hz z (List.mem_of_getElem? hz')) (h.produces k z hz') hm hinner ?_
  refine Copied.agree hs ⟨_, hm⟩ h.replayed.listed (copied_self hs hm h.replayed.listed hout)
    (h.copied hr hu) (fun x hx hmet v hv => ?_) (.root (List.mem_of_getElem? hy))
    (Nat.lt_succ_self _) hev
  -- the entry of an input passes on what the call gives for it
  obtain ⟨u, p, n, hfed, hpx, hrec, hprod⟩ := h.replayed.input x hx
  obtain ⟨q, hq, hentry⟩ := (hs.model hm).entry x hx
  obtain rfl := Option.some.inj (hpx.symm.trans hq)
  obtain ⟨v', hv'⟩ := exists_lookup_zip hlen hx
  obtain rfl := hv.unique (.fed hv')
  rw [evaluates_entry hentry hrec hprod (hu _ (.become hr h hmet))]
  exact lookup_zip_of_forall₂ hvs hfed hv'

/-! ## Running models -/

/-- Predicting a model on some arrays comes to some values, once some of its
    invocations have been evaluated. -/
def RunsTo (g : Graph α) (m : ModelDef) (inputs : List (Grid α)) (done : List InvocationId)
    (values : Valuation α) : Prop :=
  ∃ fed, (m.inputs.zip inputs).foldlM g.feed [] = .ok fed ∧ done.foldlM g.evaluate fed = .ok values

/-- **Calling a model is inlining its function**: where a model is called on
    tensors with some values, the outputs of the call get what the called model
    predicts for them, in whichever model the call stands.  No input of that
    model may be inside of the call, and none of the called one inside of a
    call of its own. -/
theorem call_inlines {g₁ g₂ : Graph α} (h : g₁.Reachable) {l : LayerId} {ts zs : List TensorId}
    (hcall : (call l ts).exec g₁ = (.ok zs, g₂)) :
    ∃ n, g₂.record? ⟨l, n⟩ = some ⟨ts, zs⟩ ∧ ∀ g, g₂.Reaches g → ∀ k o, g.model? k = some o →
      (∀ x ∈ o.inputs, ¬ g.Inside ⟨l, n⟩ x) →
      (∀ m order, g.model? l = some m → g.internalOrder m = .ok order →
        ∀ c ∈ order, ∀ x ∈ m.inputs, ¬ g.Inside c x) →
      ∀ before after, g.internalOrder o = .ok (before ++ ⟨l, n⟩ :: after) →
      ∀ inputs values vs ws, g.RunsTo o inputs before values →
        List.Forall₂ (fun t v => values.lookup t = some v) ts vs → g.predict l vs = .ok ws →
        ∃ values', g.RunsTo o inputs (before ++ [⟨l, n⟩]) values' ∧
          List.Forall₂ (fun z w => values'.lookup z = some w) zs ws ∧
          ∀ final, g.RunsTo o inputs (before ++ ⟨l, n⟩ :: after) final →
            List.Forall₂ (fun z w => final.lookup z = some w) zs ws := by
  obtain ⟨hs₂, -, happlies⟩ : g₁.Leads (call l ts) (Applies l ts) := leads_call h.sound
  rw [hcall] at hs₂ happlies
  obtain ⟨n, hr, hmade⟩ := happlies zs rfl
  refine ⟨n, hr, fun g hreach k o ho hfed hown before after horder inputs values vs ws => ?_⟩
  rintro ⟨fed, hfeed, hrun⟩ hvs hp
  obtain ⟨hs, hg⟩ := hreach.sound hs₂
  replace hr := hg.record _ _ hr
  replace hmade := hmade.mono hg
  obtain ⟨m, hm, -⟩ := predict_sound hs hp
  obtain ⟨order, become, hcalled⟩ := hmade.called_of_model hm
  obtain rfl := feeds_eq_ok hfeed
  rw [List.append_nil] at hfeed hrun
  have hf := fedAtEntries hs ho inputs
  have hunfed := makesUnfed_of_internalOrder hs ho horder inputs
  obtain ⟨hc, -⟩ := evaluateAll_sound hs hf (fun i hi => hunfed i (by simp [hi])) hrun consistent_self
  have hz : ∀ z ∈ zs, (o.inputs.zip inputs).reverse.lookup z = none := by
    obtain ⟨inv, hr', -, hz⟩ := hunfed ⟨l, n⟩ (by simp)
    obtain rfl := Option.some.inj (hr.symm.trans hr')
    exact hz
  have hws := hcalled.evaluates hs hr (hown m order hm hcalled.replayed.listed)
    (fun t ht => lookup_zip_of_notMem fun hx => hfed t hx ht) hz (hvs.imp hc.evaluates) hp
  obtain ⟨values', heval, hc', hzs⟩ := evaluate_call_complete hs hf hr hmade hm hz hws hc
  refine ⟨values', ⟨_, hfeed, foldlM_append_eq_ok.2 ⟨values, hrun, ?_⟩⟩, hzs, ?_⟩
  · exact foldlM_cons_eq_ok.2 ⟨values', heval, rfl⟩
  · rintro final ⟨fed', hfeed', hfinal⟩
    obtain rfl := Except.ok.inj (hfeed.symm.trans hfeed')
    obtain ⟨values₁, hrun₁, hfinal⟩ := foldlM_append_eq_ok.1 hfinal
    obtain rfl := Except.ok.inj (hrun.symm.trans hrun₁)
    obtain ⟨values₂, heval₂, hafter⟩ := foldlM_cons_eq_ok.1 hfinal
    obtain rfl := Except.ok.inj (heval.symm.trans heval₂)
    obtain ⟨-, hl⟩ := evaluateAll_sound hs hf (fun i hi => hunfed i (by simp [hi])) hafter hc'
    exact hzs.imp fun z w hw => hl z w hw

end

/-- The call of a rectifier in a model around it, on two samples. -/
theorem call_inlines_nested : ∃ values : Valuation ℚ,
    (build nested).RunsTo ⟨[⟨2⟩], [⟨5⟩], [⟨3⟩, ⟨2⟩], false⟩ [⟨[2, 1], #[-3, 5], rfl⟩] [⟨⟨2⟩, 1⟩]
      values ∧ values.lookup ⟨5⟩ = some ⟨[2, 1], #[0, 5], rfl⟩ := by
  have hcall : (call ⟨2⟩ [⟨2⟩]).exec (build (nested.take 4) : Graph ℚ) =
      (.ok [⟨5⟩], build (nested.take 5)) := by rfl
  obtain ⟨n, hr, h⟩ := call_inlines (reachable_build (nested.take 4)) hcall
  obtain rfl : n = 1 := by
    rcases n with _ | _ | n
    · exact absurd hr (by decide)
    · rfl
    · exact absurd (show none = some _ from hr) (by simp)
  have hsound := (reachable_build (α := ℚ) nested).sound
  -- nothing feeds the entries of the two models
  have hroot : ∀ x ∈ [(⟨0⟩ : TensorId), ⟨2⟩], ∀ i, ¬ (build nested : Graph ℚ).Inside i x := by
    intro x hx i hi
    obtain ⟨p, inv, hp, hrec, hne⟩ := hi.has_inputs hsound
    rcases List.mem_pair.1 hx with rfl | rfl
    all_goals
      obtain rfl := Option.some.inj hp
      obtain rfl := Option.some.inj hrec
      exact hne rfl
  have hmodel : (build nested : Graph ℚ).model? ⟨2⟩ = some ⟨[⟨0⟩], [⟨1⟩], [⟨0⟩, ⟨1⟩], false⟩ := by rfl
  obtain ⟨values, hrun, hvalues, -⟩ := h (build nested)
    (.step .refl (.model "outer" [⟨2⟩] [⟨5⟩])) ⟨4⟩ ⟨[⟨2⟩], [⟨5⟩], [⟨3⟩, ⟨2⟩], false⟩ rfl
    (fun x hx => hroot x (List.mem_cons_of_mem _ hx) _) (fun m order hm _ c _ x hx => by
      obtain rfl := Option.some.inj (hmodel.symm.trans hm)
      exact hroot x (List.mem_pair.2 (.inl (List.mem_singleton.1 hx))) c)
    [] [] rfl [⟨[2, 1], #[-3, 5], rfl⟩] [(⟨2⟩, ⟨[2, 1], #[-3, 5], rfl⟩)] [⟨[2, 1], #[-3, 5], rfl⟩]
    [⟨[2, 1], #[0, 5], rfl⟩] ⟨_, rfl, rfl⟩ (.cons rfl .nil) (by cbv)
  exact ⟨values, hrun, (List.forall₂_cons.1 hvalues).1⟩

/-- A model that passes its input on, a call of it, and a model around the call
    that has the tensor inside of it as an input. -/
def entered : List (BuildStep ℚ) :=
  [.input "x" [1], .model "inner" [⟨0⟩] [⟨0⟩], .input "u" [1], .call ⟨1⟩ [⟨1⟩],
    .model "outer" [⟨2⟩, ⟨1⟩] [⟨3⟩]]

/-- A model with an input inside of a call gets what it is fed from the call,
    whatever the called model predicts. -/
theorem not_inlined_of_entered :
    (call ⟨1⟩ [⟨1⟩]).exec (build (entered.take 3)) = (.ok [⟨3⟩], build (entered.take 4)) ∧
    (build entered).internalOrder ⟨[⟨2⟩, ⟨1⟩], [⟨3⟩], [⟨0⟩, ⟨2⟩, ⟨1⟩], false⟩ = .ok [⟨⟨1⟩, 1⟩] ∧
    (build entered).RunsTo ⟨[⟨2⟩, ⟨1⟩], [⟨3⟩], [⟨0⟩, ⟨2⟩, ⟨1⟩], false⟩
      [⟨[1, 1], #[3], rfl⟩, ⟨[1, 1], #[5], rfl⟩] []
      [(⟨1⟩, ⟨[1, 1], #[5], rfl⟩), (⟨2⟩, ⟨[1, 1], #[3], rfl⟩)] ∧
    (build entered).predict ⟨1⟩ [⟨[1, 1], #[5], rfl⟩] = .ok [⟨[1, 1], #[5], rfl⟩] ∧
    (build entered).predict ⟨3⟩ [⟨[1, 1], #[3], rfl⟩, ⟨[1, 1], #[5], rfl⟩] =
      .ok [⟨[1, 1], #[3], rfl⟩] :=
  ⟨by rfl, by rfl, ⟨_, rfl, rfl⟩, by cbv, by cbv⟩

end Neuroform.Graph

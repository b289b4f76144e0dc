/-
  Neuroform — the search for the invocations of a model.

  The search can be run with an explicit stack of tensors, which are marked once
  the inputs of their producers have been put above them (`Searches`).  In a
  graph that can be built, every such run comes to an end, and with what the
  recursive search gives; it ends without an order just if it meets a tensor
  that it can get no further from (`DeadEnd`).
-/
import Neuroform.Proofs.Graph.Reachable
import Neuroform.Proofs.Rational

namespace Neuroform.Graph

variable {α : Type} {g : Graph α} {stop : List TensorId}

/-- What the search does with the tensor on top of a stack: the order behind it
    and what it puts in the place of the tensor.  A marked tensor is one that
    the inputs of its producer have been put above. -/
def searchStep [Scalar α] (g : Graph α) (stop : List TensorId) (order : List InvocationId) :
    TensorId × Bool → Outcome (List InvocationId × List (TensorId × Bool))
  | (t, marked) =>
    if t ∈ stop then .ok (order, []) else do
      let source := (← g.producer t).source
      if source ∈ order then return (order, [])
      let invocation ← g.invocation source
      if marked then return (order ++ [source], [])
      if invocation.inputs.isEmpty then
        refuse (GraphCause.disconnected (← g.layer source.layer).text)
      else return (order, invocation.inputs.map (·, false) ++ [(t, true)])

/-- The search with a stack of tensors: from an order and a stack to what comes
    out of it. -/
inductive Searches [Scalar α] (g : Graph α) (stop : List TensorId) :
    List InvocationId → List (TensorId × Bool) → Outcome (List InvocationId) → Prop where
  | done {order : List InvocationId} : Searches g stop order [] (.ok order)
  | fail {order : List InvocationId} {top : TensorId × Bool} {stack : List (TensorId × Bool)}
      {e : Failure} (failed : g.searchStep stop order top = .error e) :
      Searches g stop order (top :: stack) (.error e)
  | step {order order' : List InvocationId} {top : TensorId × Bool}
      {pushed stack : List (TensorId × Bool)} {o : Outcome (List InvocationId)}
      (stepped : g.searchStep stop order top = .ok (order', pushed))
      (rest : Searches g stop order' (pushed ++ stack) o) : Searches g stop order (top :: stack) o

/-- What the search does with a tensor that it does not stop at. -/
theorem searchStep_of_producer [Scalar α] {t : TensorId} {p : Provenance} {inv : Invocation}
    {layer : Layer α} (hin : t ∉ stop) (hp : g.producer t = .ok p)
    (hr : g.invocation p.source = .ok inv) (hl : g.layer p.layer = .ok layer)
    (order : List InvocationId) (marked : Bool) :
    g.searchStep stop order (t, marked) =
      if p.source ∈ order then .ok (order, [])
      else if marked then .ok (order ++ [p.source], [])
      else if inv.inputs.isEmpty then refuse (GraphCause.disconnected layer.text)
      else .ok (order, inv.inputs.map (·, false) ++ [(t, true)]) := by
  have hl' : g.layer p.source.layer = .ok layer := hl
  rw [searchStep, if_neg hin, hp]
  simp only [bind, Except.bind, hr, hl']
  rfl

/-- A search from some tensors meets one that it can get no further from: one
    without a producer, or one whose producer has no inputs. -/
def DeadEnd (g : Graph α) (stop roots : List TensorId) : Prop :=
  ∃ t, g.Met stop roots t ∧ t ∉ stop ∧ (g.producer? t = none ∨
    ∃ p inv, g.producer? t = some p ∧ g.record? p.source = some inv ∧ inv.inputs = [])

theorem DeadEnd.mono {roots roots' : List TensorId} (h : g.DeadEnd stop roots)
    (hr : ∀ t ∈ roots, g.Met stop roots' t) : g.DeadEnd stop roots' := by
  obtain ⟨t, ht, hend⟩ := h
  exact ⟨t, ht.mono hr, hend⟩

theorem producer_ne_fault {t : TensorId} : g.producer t ≠ fault :=
  bind_ne_fault orRefuse_ne_fault fun _ _ => orRefuse_ne_fault

theorem producer_eq_error {t : TensorId} {e : Failure} (h : g.producer t = .error e) :
    g.producer? t = none := by
  by_contra hp
  obtain ⟨p, hp⟩ := Option.ne_none_iff_exists'.1 hp
  rw [producer_eq_ok.2 hp] at h
  cases h

variable [Scalar α]

/-! ## Runs with a stack -/

/-- A search with a stack has one outcome. -/
theorem Searches.unique {order : List InvocationId} {stack : List (TensorId × Bool)}
    {a b : Outcome (List InvocationId)} (h : g.Searches stop order stack a)
    (h' : g.Searches stop order stack b) : a = b := by
  induction h with
  | done => cases h'; rfl
  | fail failed =>
    cases h' with
    | fail failed' => exact congrArg _ (Except.error.inj (failed.symm.trans failed'))
    | step stepped' => cases failed.symm.trans stepped'
  | step stepped _ ih =>
    cases h' with
    | fail failed' => cases stepped.symm.trans failed'
    | step stepped' rest =>
      obtain ⟨rfl, rfl⟩ := Prod.mk.inj (Except.ok.inj (stepped.symm.trans stepped'))
      exact ih rest

/-- A run that starts with some entries on top of its stack goes on with the
    order that a computation gives, and fails where the computation fails. -/
def Carries (g : Graph α) (stop : List TensorId) (order : List InvocationId)
    (top : List (TensorId × Bool)) (x : Outcome (List InvocationId)) : Prop :=
  ∀ stack o, (∀ order', x = .ok order' → g.Searches stop order' stack o) →
    (∀ e, x = .error e → o = .error e) → g.Searches stop order (top ++ stack) o

namespace Carries
variable {order order' : List InvocationId} {top : TensorId × Bool}
  {pushed : List (TensorId × Bool)} {x : Outcome (List InvocationId)}

theorem pure : g.Carries stop order [] (.ok order) := fun _ _ hok _ => hok order rfl

theorem fail {e : Failure} (h : g.searchStep stop order top = .error e) :
    g.Carries stop order [top] (.error e) := by
  intro stack o _ herror
  exact herror e rfl ▸ .fail h

theorem step (h : g.searchStep stop order top = .ok (order', pushed))
    (hrest : g.Carries stop order' pushed x) : g.Carries stop order [top] x :=
  fun stack o hok herror => .step h (hrest stack o hok herror)

theorem bind {above below : List (TensorId × Bool)}
    {f : List InvocationId → Outcome (List InvocationId)} (h : g.Carries stop order above x)
    (hf : ∀ order', x = .ok order' → g.Carries stop order' below (f order')) :
    g.Carries stop order (above ++ below) (x >>= f) := by
  intro stack o hok herror
  rw [List.append_assoc]
  refine h _ o (fun order' hx => ?_) fun e hx => ?_
  · subst hx
    exact hf order' rfl stack o hok herror
  · subst hx
    exact herror e rfl

end Carries

section
variable (hs : g.Sound)
include hs

/-- The inputs of the producer of a tensor need less depth than it. -/
theorem shallower {t : TensorId} {p : Provenance} {inv : Invocation} {depth : Nat}
    (hp : g.producer? t = some p) (hr : g.record? p.source = some inv)
    (hd : min t.index g.tensors.size < depth + 1) :
    ∀ u ∈ inv.inputs, min u.index g.tensors.size < depth := by
  intro u hu
  have hlt := index_lt_of_producer? hp
  have hold := hs.acyclic hp hr u hu
  omega

/-- With a tensor on top of its stack, a run does what the recursive search does
    with the tensor. -/
theorem carries_visit : ∀ {depth : Nat} {order : List InvocationId} {t : TensorId},
    min t.index g.tensors.size < depth → g.Lists stop order →
      g.Carries stop order [(t, false)] (g.visit stop depth order t)
  | 0, _, _, hd, _ => by omega
  | depth + 1, order, t, hd, hl => by
    rw [visit]
    by_cases hin : t ∈ stop
    · rw [if_pos hin]
      exact .step (by rw [searchStep, if_pos hin]) .pure
    rw [if_neg hin]
    cases hp : g.producer t with
    | error e => exact .fail (by rw [searchStep, if_neg hin, hp]; rfl)
    | ok p =>
      have hp' := producer_eq_ok.1 hp
      obtain ⟨inv, hr, -, -⟩ := hs.made hp'
      have hinv : g.invocation p.source = .ok inv := invocation_eq_ok.2 hr
      obtain ⟨layer, hlayer⟩ := layer_of_record hr
      have hstep := searchStep_of_producer hin hp hinv hlayer
      simp only [bind, Except.bind, hinv, hlayer]
      by_cases hi : p.source ∈ order
      · rw [if_pos hi]
        exact .step (by rw [hstep, if_pos hi]) .pure
      rw [if_neg hi]
      by_cases hnil : inv.inputs.isEmpty
      · rw [if_pos hnil]
        exact .fail (by rw [hstep, if_neg hi, if_neg (by simp), if_pos hnil]; rfl)
      rw [if_neg hnil]
      refine .step (by rw [hstep, if_neg hi, if_neg (by simp), if_neg hnil])
        ((carries_visits (shallower hs hp' hr hd) hl).bind fun listed hlisted => ?_)
      -- the tensor is marked now, and its producer has not been listed meanwhile
      obtain ⟨-, hext, -⟩ := visit_lists.visits_lists hs.acyclic hlisted hl
      have hfresh : p.source ∉ listed := hext.notMem hs.acyclic hr hi
      exact .step (by rw [hstep, if_neg hfresh, if_pos rfl]) .pure
termination_by depth => (depth, 0)
where
  carries_visits {depth : Nat} : ∀ {ts : List TensorId} {order : List InvocationId},
      (∀ t ∈ ts, min t.index g.tensors.size < depth) → g.Lists stop order →
        g.Carries stop order (ts.map (·, false)) (ts.foldlM (g.visit stop depth) order)
    | [], _, _, _ => .pure
    | t :: ts, order, hd, hl => by
      rw [List.foldlM_cons]
      refine Carries.bind (carries_visit (hd t (by simp)) hl) fun order' hn => ?_
      obtain ⟨hl', -, -⟩ := visit_lists hs.acyclic hn hl
      exact carries_visits (fun u hu => hd u (List.mem_cons_of_mem _ hu)) hl'
  termination_by ts => (depth, ts.length + 1)

/-- Every run of the search for the invocations of a model comes to an end, with
    the order of the model or the failure to find one. -/
theorem searches_internalOrder (m : ModelDef) :
    g.Searches m.inputs [] (m.outputs.map (·, false)) (g.internalOrder m) := by
  have hd : ∀ t ∈ m.outputs, min t.index g.tensors.size < g.tensors.size + 1 := by
    intro t _
    omega
  have hcarries : g.Carries m.inputs [] (m.outputs.map (·, false)) (g.internalOrder m) :=
    carries_visit.carries_visits hs hd .nil
  simpa using hcarries [] (g.internalOrder m) (fun _ ho => ho ▸ .done) fun _ ho => ho

/-! ## Failures -/

/-- A search fails at a tensor that has no producer, or whose producer has no
    inputs, or at one of these inputs. -/
theorem visit_eq_error {depth : Nat} {order : List InvocationId} {t : TensorId} {e : Failure}
    (h : g.visit stop (depth + 1) order t = .error e) : t ∉ stop ∧ (g.producer t = .error e ∨
      ∃ p inv, g.producer? t = some p ∧ g.record? p.source = some inv ∧
        ((inv.inputs = [] ∧ e ≠ .fault) ∨
          inv.inputs.foldlM (g.visit stop depth) order = .error e)) := by
  rw [visit] at h
  by_cases hin : t ∈ stop
  · rw [if_pos hin] at h
    cases h
  rw [if_neg hin] at h
  refine ⟨hin, (bind_eq_error.1 h).imp id ?_⟩
  rintro ⟨p, hp, h⟩
  rw [producer_eq_ok] at hp
  obtain ⟨inv, hr, -, -⟩ := hs.made hp
  obtain ⟨layer, hlayer⟩ := layer_of_record hr
  have hinv : g.invocation p.source = .ok inv := invocation_eq_ok.2 hr
  refine ⟨p, inv, hp, hr, ?_⟩
  simp only [bind, Except.bind, hinv, hlayer] at h
  by_cases hi : p.source ∈ order
  · rw [if_pos hi] at h
    cases h
  rw [if_neg hi] at h
  by_cases hnil : inv.inputs = []
  · rw [if_pos (by simp [hnil])] at h
    obtain rfl := Except.error.inj h
    exact .inl ⟨hnil, by simp⟩
  · rw [if_neg (by simpa using hnil)] at h
    rcases bind_eq_error.1 h with h | ⟨_, -, h⟩
    · exact .inr h
    · cases h

/-- The search fails only at a dead end, and never for want of depth. -/
theorem visit_error : ∀ {depth : Nat} {order : List InvocationId} {t : TensorId} {e : Failure},
    min t.index g.tensors.size < depth → g.visit stop depth order t = .error e →
      e ≠ .fault ∧ g.DeadEnd stop [t]
  | 0, _, _, _, hd, _ => by omega
  | depth + 1, order, t, e, hd, h => by
    obtain ⟨hout, h | ⟨p, inv, hp, hr, ⟨hnil, hfault⟩ | h⟩⟩ := visit_eq_error hs h
    · refine ⟨?_, t, .root (by simp), hout, .inl (producer_eq_error h)⟩
      rintro rfl
      exact producer_ne_fault h
    · exact ⟨hfault, t, .root (by simp), hout, .inr ⟨p, inv, hp, hr, hnil⟩⟩
    · obtain ⟨u, hu, c, h⟩ := foldlM_eq_error h
      obtain ⟨hfault, hend⟩ := visit_error (shallower hs hp hr hd u hu) h
      refine ⟨hfault, hend.mono fun w hw => ?_⟩
      obtain rfl := List.mem_singleton.1 hw
      exact .input (.root (by simp)) hout hp hr hu

/-- There is no order just if the search from the outputs meets a dead end. -/
theorem internalOrder_error_iff {m : ModelDef} :
    (∃ e, g.internalOrder m = .error e) ↔ g.DeadEnd m.inputs m.outputs := by
  constructor
  · rintro ⟨e, h⟩
    obtain ⟨t, ht, c, h⟩ := foldlM_eq_error h
    obtain ⟨-, hend⟩ := visit_error hs (by omega) h
    refine hend.mono fun u hu => ?_
    obtain rfl := List.mem_singleton.1 hu
    exact .root ht
  · rintro ⟨t, ht, hout, hend⟩
    cases ho : g.internalOrder m with
    | error e => exact ⟨e, rfl⟩
    | ok order =>
      obtain ⟨hlists, -, hsettled⟩ := internalOrder_lists hs.acyclic ho
      obtain ⟨p, hp, hi⟩ := (hsettled t ht).resolve_left hout
      rcases hend with hnone | ⟨q, inv, hq, hr, hnil⟩
      · simp [hp] at hnone
      · obtain rfl := Option.some.inj (hp.symm.trans hq)
        exact absurd hnil (hlists.settled hi hr).1

end

/-- **The order of a model is exact.**  Every run of the search comes to an end,
    and all with the same outcome.  An order has no repetitions; it has just the
    invocations that are reached backwards from the outputs without passing
    through an input; and each of their inputs is an input of the model or an
    output of an invocation that is listed before.  The search fails just if it
    meets a tensor without a producer or an invocation without inputs. -/
theorem internalOrder_exact (h : g.Reachable) (m : ModelDef) :
    (∀ o, g.Searches m.inputs [] (m.outputs.map (·, false)) o ↔ o = g.internalOrder m) ∧
    g.internalOrder m ≠ fault ∧
    (∀ order, g.internalOrder m = .ok order → order.Nodup ∧
      (∀ i, i ∈ order ↔ g.Reached m.inputs m.outputs i) ∧
      ∀ before i after, order = before ++ i :: after → ∃ inv, g.record? i = some inv ∧
        ∀ u ∈ inv.inputs, u ∈ m.inputs ∨
          ∃ j ∈ before, ∃ inv', g.record? j = some inv' ∧ u ∈ inv'.outputs) ∧
    ((∃ e, g.internalOrder m = .error e) ↔ g.DeadEnd m.inputs m.outputs) := by
  have hs := h.sound
  have hrun := searches_internalOrder hs m
  refine ⟨fun o => ⟨fun ho => ho.unique hrun, fun ho => ho ▸ hrun⟩, ?_, ?_, internalOrder_error_iff hs⟩
  · intro hf
    obtain ⟨t, -, c, hc⟩ := foldlM_eq_error hf
    exact (visit_error hs (by omega) hc).1 rfl
  · intro order ho
    obtain ⟨hlists, hreached, hsettled⟩ := internalOrder_lists hs.acyclic ho
    refine ⟨hlists.nodup, fun i => ⟨hreached i, ?_⟩, ?_⟩
    · rintro ⟨t, p, ht, hout, hp, rfl⟩
      obtain ⟨q, hq, hi⟩ := (hsettled t ht).resolve_left hout
      obtain rfl := Option.some.inj (hp.symm.trans hq)
      exact hi
    · intro before i after hsplit
      obtain ⟨inv, hr, hin⟩ := hlists.settled_before hsplit
      refine ⟨inv, hr, fun u hu => (hin u hu).imp id ?_⟩
      rintro ⟨p, hp, hi⟩
      obtain ⟨inv', hr', hout, -⟩ := hs.made hp
      exact ⟨p.source, hi, inv', hr', List.mem_of_getElem? hout⟩

/-- The search from the output of a call stops at the input of the model around
    it; without the input it ends at the input layer. -/
theorem internalOrder_exact_nested :
    (build nested : Graph ℚ).Searches [⟨2⟩] [] [(⟨5⟩, false)] (.ok [⟨⟨2⟩, 1⟩]) ∧
    (∀ i, i = ⟨⟨2⟩, 1⟩ ↔ (build nested : Graph ℚ).Reached [⟨2⟩] [⟨5⟩] i) ∧
    (build nested : Graph ℚ).DeadEnd [] [⟨5⟩] := by
  obtain ⟨hrun, -, horder, -⟩ :=
    internalOrder_exact (α := ℚ) (reachable_build nested) ⟨[⟨2⟩], [⟨5⟩], [], false⟩
  obtain ⟨-, hreached, -⟩ := horder [⟨⟨2⟩, 1⟩] (by rfl)
  obtain ⟨-, -, -, hfails⟩ :=
    internalOrder_exact (α := ℚ) (reachable_build nested) ⟨[], [⟨5⟩], [], false⟩
  refine ⟨(hrun _).2 (by rfl), fun i => ?_, hfails.1 ⟨_, by rfl⟩⟩
  rw [← hreached i, List.mem_singleton]

end Neuroform.Graph

/-
  Neuroform — what building keeps.

  A step of building leads from a sound graph to a sound one that has grown,
  also when it fails (`Leads`).  Applying a layer leaves a record of it; a call
  first replays the model, and keeps what its tensors have become
  (`Replaying`).
-/
import Neuroform.Proofs.Graph.Growth

namespace Neuroform.Graph

variable {α : Type} [Scalar α] {β γ δ : Type} {g : Graph α}

/-! ## Steps that keep graphs sound -/

/-- A step leads to a sound graph that has grown, and if it succeeds, to a
    result with a property. -/
def Leads (g : Graph α) (s : Step (Graph α) β) (Q : Graph α → β → Prop) : Prop :=
  (s.exec g).2.Sound ∧ g.Grows (s.exec g).2 ∧ ∀ b, (s.exec g).1 = .ok b → Q (s.exec g).2 b

namespace Leads
variable {s : Step (Graph α) β} {f : β → Step (Graph α) γ} {P Q : Graph α → β → Prop}
  {R : Graph α → γ → Prop}

theorem of_exec {g' : Graph α} {o : Outcome β} (h : s.exec g = (o, g')) (hs : g'.Sound)
    (hg : g.Grows g') (hq : ∀ b, o = .ok b → Q g' b) : g.Leads s Q := by
  rw [Leads, h]; exact ⟨hs, hg, hq⟩

theorem pure {b : β} (hs : g.Sound) (hq : Q g b) : g.Leads (Pure.pure b) Q :=
  of_exec rfl hs (.refl g) fun _ h => (Except.ok.inj h) ▸ hq

theorem lift {o : Outcome β} (hs : g.Sound) (hq : ∀ b, o = .ok b → Q g b) :
    g.Leads (liftM o) Q := of_exec rfl hs (.refl g) hq

theorem imp (h : g.Leads s P) (hq : ∀ g' b, g'.Sound → g.Grows g' → P g' b → Q g' b) :
    g.Leads s Q := ⟨h.1, h.2.1, fun b hb => hq _ b h.1 h.2.1 (h.2.2 b hb)⟩

theorem bind (h : g.Leads s P)
    (hf : ∀ b g', g'.Sound → g.Grows g' → P g' b → g'.Leads (f b) R) : g.Leads (s >>= f) R := by
  obtain ⟨hs, hg, hp⟩ := h
  rcases he : s.exec g with ⟨o | b, g'⟩
  · rw [he] at hs hg
    exact of_exec (Step.exec_bind_error he) hs hg (by simp)
  · rw [he] at hs hg hp
    obtain ⟨hs', hg', hr⟩ := hf b g' hs hg (hp b rfl)
    rw [Leads, Step.exec_bind_ok he]
    exact ⟨hs', hg.trans hg', hr⟩

theorem get_bind {f : Graph α → Step (Graph α) γ} (h : g.Leads (f g) R) :
    g.Leads (get >>= f) R := by
  rwa [Leads, Step.exec_get_bind]

theorem lift_bind {o : Outcome β} (hs : g.Sound) (hf : ∀ b, o = .ok b → g.Leads (f b) R) :
    g.Leads (liftM o >>= f) R := by
  cases o with
  | error e => exact of_exec (Step.exec_lift_bind ..) hs (.refl g) (by simp)
  | ok b => rw [Leads, Step.exec_lift_bind]; exact hf b rfl

/-- A loop keeps what each of its steps takes from the entries before it to
    those up to it. -/
theorem foldlM {f : γ → δ → Step (Graph α) γ} {I : List δ → Graph α → γ → Prop} {xs : List δ}
    {c : γ} (hs : g.Sound) (hi : I [] g c)
    (step : ∀ done x rest g' c, xs = done ++ x :: rest → g'.Sound → g.Grows g' → I done g' c →
      g'.Leads (f c x) (I (done ++ [x]))) : g.Leads (xs.foldlM f c) (I xs) := by
  suffices h : ∀ rest done g' c, xs = done ++ rest → g'.Sound → g.Grows g' → I done g' c →
      g'.Leads (rest.foldlM f c) (I xs) from h xs [] g c rfl hs (.refl g) hi
  intro rest
  induction rest with
  | nil =>
    intro done g' c hx hs' _ hi'
    rw [List.append_nil] at hx
    exact .pure hs' (hx ▸ hi')
  | cons x rest ih =>
    intro done g' c hx hs' hg hi'
    rw [List.foldlM_cons]
    refine (step done x rest g' c hx hs' hg hi').bind fun b g'' hs'' hg' hi'' => ?_
    exact ih (done ++ [x]) g'' b (by simp [hx]) hs'' (hg.trans hg') hi''

end Leads

/-! ## Applying layers -/

/-- An application of a layer has been recorded. -/
def Applies (l : LayerId) (inputs : List TensorId) (g : Graph α) (outputs : List TensorId) : Prop :=
  ∃ j, g.record? ⟨l, j⟩ = some ⟨inputs, outputs⟩ ∧ g.Made ⟨l, j⟩ ⟨inputs, outputs⟩

omit [Scalar α] in
theorem index_lt_of_shape? {t : TensorId} {s : Shape} (h : g.shape? t = some s) :
    t.index < g.tensors.size := by
  obtain ⟨x, hx, -⟩ := Option.map_eq_some_iff.1 h
  exact (Array.getElem?_eq_some_iff.1 hx).1

/-- Recording an application whose outputs are made from some tensors. -/
theorem Leads.of_extended {s : Step (Graph α) (List TensorId)} {l : LayerId} {layer : Layer α}
    {inputs : List TensorId} {xs : List Tensor} (hs : g.Sound) (hl : g.layer l = .ok layer)
    (he : s.exec g = (.ok (g.nextIds xs.length), g.extended l inputs xs))
    (hp : ∀ k (x : Tensor), xs[k]? = some x →
      x.provenance = some ⟨l, layer.invocations.size, k⟩)
    (hm : (g.extended l inputs xs).Made ⟨l, layer.invocations.size⟩
      ⟨inputs, g.nextIds xs.length⟩) : g.Leads s (Applies l inputs) := by
  refine .of_exec he (hs.extended hl hp hm) (grows_extended hl) ?_
  rintro b ⟨⟩
  exact ⟨_, by rw [record?_extended hl, if_pos rfl], hm⟩

/-- The outputs of a new invocation of a primitive layer. -/
def newOutputs (l : LayerId) (n : Nat) (shapes : List Shape) : List Tensor :=
  shapes.zipIdx.map fun e => ⟨e.1, some ⟨l, n, e.2⟩, none⟩

@[simp] theorem length_newOutputs {l : LayerId} {n : Nat} {shapes : List Shape} :
    (newOutputs l n shapes).length = shapes.length := by
  simp [newOutputs]

section
variable {l : LayerId} {layer : Layer α} {inputs : List TensorId} {op : Operation α}
  {shapes : List Shape}

omit [Scalar α] in
/-- Looking up the shapes of the inputs does not change the graph. -/
theorem exec_inputShapes (inputs : List TensorId) : (inputs.mapM fun t => do
      return (← (liftM (g.tensor t) : Step (Graph α) Tensor)).shape).exec g =
    (inputs.mapM fun t => return (← g.tensor t).shape, g) :=
  Step.exec_mapM_of_exec fun t _ => by
    rw [Step.exec_lift_bind]
    cases g.tensor t <;> rfl

theorem exec_applyPrimitive (hl : g.layer l = .ok layer) (hop : layer.kind.operation? = some op)
    (hin : List.Forall₂ (fun t s => g.shape? t = some s) inputs shapes) :
    (applyPrimitive l inputs).exec g =
      match (op.outputShapes shapes).within (.applying layer.text) with
      | .ok outs => (.ok (g.nextIds outs.length),
          g.extended l inputs (newOutputs l layer.invocations.size outs))
      | .error e => (.error e, g) := by
  have hshapes : (inputs.mapM fun t => do return (← g.tensor t).shape : Outcome (List Shape)) =
      .ok shapes := mapM_forall₂.2 (hin.imp fun t s hs => by
    obtain ⟨x, hx, rfl⟩ := shape?_eq_some.1 hs
    exact bind_eq_ok.2 ⟨x, hx, rfl⟩)
  unfold applyPrimitive
  rw [Step.exec_get_bind, Step.exec_bind_ok ((exec_inputShapes inputs).trans (by rw [hshapes])), hl]
  simp only [Step.exec_lift_bind, hop, orRefuse, Option.elim_some]
  cases (op.outputShapes shapes).within (.applying layer.text) with
  | error e => rfl
  | ok outs =>
    refine (exec_record (f := fun e : Shape × Nat =>
      (⟨e.1, some ⟨l, layer.invocations.size, e.2⟩, none⟩ : Tensor)) fun _ _ _ => rfl).trans ?_
    rw [List.length_map, List.length_zipIdx]
    rfl

/-- An application of a primitive layer is recorded, or nothing happens. -/
theorem applyPrimitive_ends (l : LayerId) (inputs : List TensorId) :
    (∃ e, (applyPrimitive l inputs).exec g = (.error e, g)) ∨
    ∃ layer op shapes outs, g.layer l = .ok layer ∧ layer.kind.operation? = some op ∧
      List.Forall₂ (fun t s => g.shape? t = some s) inputs shapes ∧
      op.outputShapes shapes = .ok outs ∧ (applyPrimitive l inputs).exec g =
        (.ok (g.nextIds outs.length),
          g.extended l inputs (newOutputs l layer.invocations.size outs)) := by
  cases hshapes : (inputs.mapM fun t => do return (← g.tensor t).shape : Outcome (List Shape)) with
  | error e =>
    refine .inl ⟨e, ?_⟩
    unfold applyPrimitive
    rw [Step.exec_get_bind, Step.exec_bind_error ((exec_inputShapes inputs).trans (by rw [hshapes]))]
  | ok shapes =>
    have hread := (exec_inputShapes (g := g) inputs).trans (by rw [hshapes])
    cases hl : g.layer l with
    | error e =>
      refine .inl ⟨e, ?_⟩
      unfold applyPrimitive
      rw [Step.exec_get_bind, Step.exec_bind_ok hread, hl, Step.exec_lift_bind]
    | ok layer =>
      cases hop : layer.kind.operation? with
      | none =>
        refine .inl ⟨.refused [] (IsCause.cause (GraphCause.notPrimitive layer.text)), ?_⟩
        unfold applyPrimitive
        rw [Step.exec_get_bind, Step.exec_bind_ok hread, hl]
        simp only [Step.exec_lift_bind, hop, orRefuse, Option.elim_none, refuse]
      | some op =>
        have hin : List.Forall₂ (fun t s => g.shape? t = some s) inputs shapes :=
          (mapM_forall₂.1 hshapes).imp fun t s hs => by
            obtain ⟨x, hx, hs⟩ := bind_eq_ok.1 hs
            exact shape?_eq_some.2 ⟨x, hx, pure_eq_ok.1 hs⟩
        rw [exec_applyPrimitive hl hop hin]
        cases hout : (op.outputShapes shapes).within (.applying layer.text) with
        | error e => exact .inl ⟨e, rfl⟩
        | ok outs => exact .inr ⟨layer, op, shapes, outs, rfl, hop, hin, within_eq_ok.1 hout, rfl⟩

end

theorem leads_applyPrimitive {l : LayerId} {inputs : List TensorId} (hs : g.Sound) :
    g.Leads (applyPrimitive l inputs) (Applies l inputs) := by
  rcases applyPrimitive_ends (g := g) l inputs with
    ⟨e, he⟩ | ⟨layer, op, shapes, outs, hl, hop, hin, hout, he⟩
  · exact .of_exec he hs (.refl g) nofun
  have hget : ∀ k (x : Tensor), (newOutputs l layer.invocations.size outs)[k]? = some x →
      outs[k]? = some x.shape ∧ x.provenance = some ⟨l, layer.invocations.size, k⟩ := by
    intro k x hx
    simp only [newOutputs, List.getElem?_map, List.getElem?_zipIdx, Option.map_map,
      Option.map_eq_some_iff] at hx
    obtain ⟨s, hs, rfl⟩ := hx
    simp [hs]
  refine .of_extended hs hl (by rw [he, length_newOutputs]) (fun k x hx => (hget k x hx).2)
    (.applied (?_ : Applied _ _ _ op shapes outs))
  exact {
    operation := by rw [operation?_extended, operation?_of_layer hl, hop]
    produces := produces_extended fun k x hx => (hget k x hx).2
    ordered := fun u hu t ht => by
      obtain ⟨s, -, hs⟩ := forall₂_mem_left hin u hu
      exact (index_lt_of_shape? hs).trans_le (index_of_mem_nextIds ht)
    inputs := hin.imp fun _ _ => (grows_extended hl).shape
    outputs := by
      refine forall₂_of_getElem? (by simp) fun k t s ht hs => ?_
      obtain ⟨hk, rfl⟩ := getElem?_nextIds.1 ht
      have hx := List.getElem?_eq_getElem hk
      exact shape?_eq_some.2 ⟨_, tensor_extended hx,
        Option.some.inj ((hget k _ hx).1.symm.trans hs)⟩
    inferred := hout }

end Neuroform.Graph

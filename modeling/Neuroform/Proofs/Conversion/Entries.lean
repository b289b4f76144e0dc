/-
  Neuroform — the conversion of one invocation in a finished session.

  What an invocation was converted to is still there at the end: its objects
  and what is wired to them, its view and those of its inputs
  (`Workspace.Grows`).  So what is known of a single rule holds of every network
  that a session comes to (`Run.exists_turn`).
-/
import Neuroform.Proofs.Conversion.Feedforward
import Neuroform.Proofs.Conversion.Holding
import Neuroform.Proofs.Conversion.Stage

namespace Neuroform

variable {α : Type}

/-! ## Growing -/

namespace Workspace

/-- A workspace in which more has been converted: it keeps the views of tensors,
    and what was added to its network is wired behind the objects that there
    were. -/
structure Grows (w w' : Workspace α) : Prop where
  graph : w'.graph = w.graph
  settings : w'.settings = w.settings
  views : ∀ t v, w.tensorView t = .ok v → w'.tensorView t = .ok v
  sketch : ∃ part, w'.network.sketch = w.network.sketch ++ part ∧ part.LeadsFrom w.next

namespace Grows
variable {w w' w'' : Workspace α}

theorem trans (h : w.Grows w') (h' : w'.Grows w'') : w.Grows w'' := by
  obtain ⟨part, hpart, hleads⟩ := h.sketch
  obtain ⟨part', hpart', hleads'⟩ := h'.sketch
  refine ⟨h'.graph.trans h.graph, h'.settings.trans h.settings,
    fun t v hv => h'.views t v (h.views t v hv), part ++ part', ?_, hleads.append fun e he => ?_⟩
  · rw [hpart', hpart, Sketch.append_assoc]
  · refine le_trans ?_ (hleads' e he)
    simp [next, hpart]

theorem kind? (h : w.Grows w') {o : ObjectId} {k : ObjectKind α}
    (hk : w.network.sketch.kind? o = some k) : w'.network.sketch.kind? o = some k := by
  obtain ⟨part, hpart, -⟩ := h.sketch
  rw [hpart]
  exact Sketch.kind?_append hk

/-- Nothing more is wired to an object that there was. -/
theorem into (h : w.Grows w') {o : ObjectId} (ho : o.index < w.next.index) :
    w'.network.sketch.into o = w.network.sketch.into o := by
  obtain ⟨part, hpart, hleads⟩ := h.sketch
  have hnone : part.into o = [] := by
    refine List.filter_eq_nil_iff.2 fun e he heq => absurd (hleads e he) ?_
    rw [of_decide_eq_true heq]
    exact Nat.not_le.2 ho
  rw [hpart, Sketch.into_append, hnone, List.append_nil]

end Grows

/-- A workspace grows when an invocation gets its view that had none. -/
theorem Draws.grows {w w' : Workspace α} {part : Sketch α} (h : w.Draws part w')
    (hp : part.LeadsFrom w.next) {i : InvocationId} (hi : w.views.lookup i = none)
    (views : List View) : w.Grows { w' with views := (i, views) :: w'.views } where
  graph := h.framed.graph
  settings := h.framed.settings
  views _ _ := tensorView_converted h.framed.graph h.framed.views hi
  sketch := ⟨part, h.sketch, hp⟩

end Workspace

/-! ## Entries -/

namespace Session

open Neuroform.Graph

variable [Scalar α] {g : Graph α} {settings : Settings α} {entries : List (Entry α)}
  {w : Workspace α} {e : Entry α}

/-- The turn of an entry in a run: the conversion of its invocation, which comes
    from one workspace to another one.  Both have grown into the last one, and
    that holds the view of the invocation. -/
structure Turn (g : Graph α) (settings : Settings α) (entries : List (Entry α)) (w : Workspace α)
    (e : Entry α) (before : List (Entry α)) (w₀ w₁ : Workspace α) (p : Primitive α)
    (c : InvocationId → Step (Workspace α) View) (v : View) : Prop where
  split : ∃ after, entries = before ++ e :: after
  run : Run g settings before w₀
  chosen : Chosen g settings e.invocation.layer e.wrapped p c
  ran : (c e.invocation).exec w₀ = (.ok v, w₁)
  extends' : w₁.network = w₀.network.extend e.part
  opens : w₀.Grows w
  grows : w₁.Grows w
  view : w.views.lookup e.invocation = some [v]

/-- **An entry was made by converting its invocation** when its turn came. -/
theorem Run.exists_turn (h : Run g settings entries w) (hnodup : (converted entries).Nodup)
    (he : e ∈ entries) : ∃ before w₀ w₁ p c v, Turn g settings entries w e before w₀ w₁ p c v := by
  induction h with
  | start => cases he
  | note run warnings probes ih =>
    obtain ⟨before, w₀, w₁, p, c, v, turn⟩ := ih hnodup he
    exact ⟨before, w₀, w₁, p, c, v, { turn with
      opens := ⟨turn.opens.graph, turn.opens.settings, turn.opens.views, turn.opens.sketch⟩
      grows := ⟨turn.grows.graph, turn.grows.settings, turn.grows.views, turn.grows.sketch⟩ }⟩
  | @convert entries w w' e' p c v run chosen ran extends' ih =>
    rw [converted, List.map_append, List.nodup_append] at hnodup
    obtain ⟨hold, -, hfresh⟩ := hnodup
    have hi : w.views.lookup e'.invocation = none :=
      run.lookup_none fun hmem => hfresh _ hmem _ (by simp) rfl
    obtain ⟨layer, hl, -⟩ := kind?_eq_some.1 chosen.kind
    obtain ⟨part, hattach⟩ := (chosen.conversion.attaches (run.graph_eq.symm ▸ hl)
      run.feedforward.viewed).of_ok ran
    obtain ⟨_, _, -, -, hattached⟩ := hattach.attached
    have hnext := hattach.draws.grows (fun e he => (hattached.hangs e he).behind) hi [v]
    rcases List.mem_append.1 he with he | he
    · obtain ⟨before, w₀, w₁, p₀, c₀, v₀, turn⟩ := ih hold he
      obtain ⟨after, hsplit⟩ := turn.split
      have hne : e.invocation ≠ e'.invocation := fun heq =>
        hfresh _ (List.mem_map_of_mem he) _ (by simp) heq
      refine ⟨before, w₀, w₁, p₀, c₀, v₀, { turn with
        split := ⟨after ++ [e'], by simp [hsplit]⟩
        opens := turn.opens.trans hnext
        grows := turn.grows.trans hnext
        view := ?_ }⟩
      rw [List.lookup_cons, beq_false_of_ne hne, hattach.draws.framed.views]
      exact turn.view
    · obtain rfl := List.mem_singleton.1 he
      refine ⟨entries, w, w', p, c, v, ⟨[], rfl⟩, run, chosen, ran, extends', hnext,
        ⟨rfl, rfl, fun t v' => ?_, ?_⟩, by simp⟩
      · exact Workspace.tensorView_converted rfl rfl (hattach.draws.framed.views ▸ hi)
      · exact ⟨⟨[], []⟩, (Sketch.append_nil _).symm, by simp [Sketch.LeadsFrom]⟩

end Session
end Neuroform

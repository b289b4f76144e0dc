/-
  Neuroform — inputs that are wired to parts of an object.

  Concatenating and wrapping rules wire the inputs of an invocation, one after
  the other and as they are, to parts of the object that they make
  (`Workspace.Wired`).  If the parts partition the object, its input is put
  together from the samples that the inputs show (`Wired.inputOf`).
-/
import Neuroform.Proofs.Conversion.Stage
import Neuroform.Proofs.Graph.Dims
import Neuroform.Proofs.Network.Assembly

namespace Neuroform

namespace Workspace

/-! ## Wires -/

section
variable {α : Type}

/-- Wires from the views of tensors to parts of objects, one for each of them and
    in their order, which carry values as they are. -/
inductive Wired (w : Workspace α) : List TensorId → List View → List (Wire α) → Prop where
  | nil : Wired w [] [] []
  | cons {t : TensorId} {ts : List TensorId} {pre part : View} {parts : List View}
      {wires : List (Wire α)} (view : w.tensorView t = .ok pre) (rest : Wired w ts parts wires) :
    Wired w (t :: ts) (part :: parts) (⟨pre, part, .identity⟩ :: wires)

namespace Wired
variable {w w' : Workspace α} {ts : List TensorId} {parts : List View} {wires : List (Wire α)}

theorem snoc (h : w.Wired ts parts wires) {t : TensorId} {pre : View}
    (hv : w.tensorView t = .ok pre) (part : View) :
    w.Wired (ts ++ [t]) (parts ++ [part]) (wires ++ [⟨pre, part, .identity⟩]) := by
  induction h with
  | nil => exact .cons hv .nil
  | cons view _ ih => exact .cons view ih

theorem mono (h : w.Wired ts parts wires)
    (hv : ∀ t v, w.tensorView t = .ok v → w'.tensorView t = .ok v) : w'.Wired ts parts wires := by
  induction h with
  | nil => exact .nil
  | cons view _ ih => exact .cons (hv _ _ view) ih

theorem length_eq (h : w.Wired ts parts wires) : parts.length = ts.length := by
  induction h with
  | nil => rfl
  | cons _ _ ih => exact congrArg (· + 1) ih

theorem map_post (h : w.Wired ts parts wires) : wires.map (·.post) = parts := by
  induction h with
  | nil => rfl
  | cons _ _ ih => rw [List.map_cons, ih]

theorem getElem? (h : w.Wired ts parts wires) {k : Nat} {e : Wire α} (he : wires[k]? = some e) :
    ∃ t pre part, ts[k]? = some t ∧ parts[k]? = some part ∧ w.tensorView t = .ok pre ∧
      e = ⟨pre, part, .identity⟩ := by
  induction h generalizing k with
  | nil => simp at he
  | @cons t ts pre part parts wires view rest ih =>
    cases k with
    | zero => exact ⟨t, pre, part, rfl, rfl, view, (Option.some.inj he).symm⟩
    | succ k => exact ih he

end Wired

/-- Nothing but the given wires leads to an object that was just drawn. -/
theorem Draws.into_next {w w' : Workspace α} {kind : ObjectKind α} {wires : List (Wire α)}
    (h : w.Draws (⟨[kind], []⟩ ++ ⟨[], wires⟩) w') (hc : w.network.sketch.Checked)
    (hpost : ∀ e ∈ wires, e.post.object = w.next) : w'.network.sketch.into w.next = wires := by
  rw [h.into hc (le_refl _), Sketch.into_append]
  exact List.filter_eq_self.2 fun e he => decide_eq_true (hpost e he)

end

/-! ## Samples -/

section
variable {α : Type} [Scalar α]

/-- In some states of the network, the view of a tensor shows the samples of a
    batch. -/
def ShowsBatch (w : Workspace α) (states : States α) (b : Nat) (t : TensorId) (x : Grid α) :
    Prop :=
  ∃ dims v values shown, w.graph.Dims t dims ∧ x.Batch b dims ∧ w.tensorView t = .ok v ∧
    states.lookup v.object = some values ∧ v.select values = .ok shown ∧ shown.Holds b dims x

/-- All values of a sample are in the batch that is shown. -/
theorem ShowsBatch.index_lt {w : Workspace α} {states : States α} {b i m : Nat} {t : TensorId}
    {x : Grid α} {dims : List Nat} (h : w.ShowsBatch states b t x) (hd : w.graph.Dims t dims)
    (hi : i < b) (hm : m < volume dims) : i * volume dims + m < x.size := by
  obtain ⟨dims', v, values, shown, hdims, hbatch, -⟩ := h
  obtain rfl := hd.unique hdims
  exact hbatch.index_lt hi hm

/-- **The input of an object is put together** from the samples that the tensors
    show which are wired to its parts, each value added to zero. -/
theorem Wired.inputOf {w : Workspace α} {states : States α} {b size : Nat} {ts : List TensorId}
    {parts : List View} {o : ObjectId} {xs : List (Grid α)} {ins : List (List Nat)}
    (h : w.Wired ts parts (w.network.sketch.into o))
    (hx : List.Forall₂ (w.ShowsBatch states b) ts xs) (hd : List.Forall₂ w.graph.Dims ts ins)
    (hcover : (parts.flatMap (·.columns size)).Perm (List.range size))
    (hsize : List.Forall₂ (fun dims part => (View.columns part size).length = volume dims)
      ins parts) :
    ∃ t, w.network.inputOf states b o size = .ok t ∧
      t.Assembled b size parts ins (xs.map Grid.arrived) := by
  obtain ⟨g, hg⟩ := exists_placed ((ins.zip xs).map fun (dims, x) i m =>
    x.cells.getD (i * volume dims + m) 0) (hcover.nodup_iff.2 List.nodup_range)
  -- the values that the parts have to get
  have hplaced : ∀ (k : Nat) part dims x, parts[k]? = some part → ins[k]? = some dims →
      xs[k]? = some x → (part.columns size).length = volume dims ∧ ∀ i, ∀ m < volume dims,
        g i ((part.columns size).getD m 0) = x.cells.getD (i * volume dims + m) 0 := by
    intro k part dims x hpart hdims hx
    obtain ⟨part', hpart', hlength⟩ := forall₂_getElem? hsize hdims
    obtain rfl := Option.some.inj (hpart.symm.trans hpart')
    refine ⟨hlength, fun i m hm => hg k part
      (fun i m => x.cells.getD (i * volume dims + m) 0) hpart ?_ i m (hlength ▸ hm)⟩
    rw [List.getElem?_map, (List.getElem?_zip_eq_some (z := (dims, x))).2 ⟨hdims, hx⟩]
    rfl
  have hdelivers : ∀ e ∈ w.network.sketch.into o, e.Delivers (states.lookup ·) b size g := by
    intro e he
    obtain ⟨k, hk⟩ := List.mem_iff_getElem?.1 he
    obtain ⟨t, pre, part, ht, hpart, hpre, rfl⟩ := h.getElem? hk
    obtain ⟨x, hxk, dims, v, values, shown, hdims, -, hv, hvalues, hshown, hold⟩ :=
      forall₂_getElem? hx ht
    obtain rfl := Except.ok.inj (hpre.symm.trans hv)
    obtain ⟨dims', hdk, hdims'⟩ := forall₂_getElem? hd ht
    obtain rfl := hdims.unique hdims'
    obtain ⟨hlength, hvalue⟩ := hplaced k part dims x hpart hdk hxk
    refine ⟨rfl, values, shown, hvalues, hshown, hold.rows, hold.columns.trans hlength.symm,
      fun i _ m hm => ?_⟩
    rw [hold.value_cells, hvalue i m (hlength ▸ hm)]
  obtain ⟨t, ht, hr⟩ := Network.inputOf_delivered hdelivers (by
    rwa [← h.map_post, List.flatMap_map] at hcover)
  refine ⟨t, ht, hr.rows, hr.columns, fun k part dims x' hpart hdims hx' i hi m hm => ?_⟩
  rw [List.getElem?_map] at hx'
  obtain ⟨x, hxk, rfl⟩ := Option.map_eq_some_iff.1 hx'
  obtain ⟨hlength, hvalue⟩ := hplaced k part dims x hpart hdims hxk
  have hsize : i * volume dims + m < x.size := by
    obtain ⟨t, htk, hshown⟩ := forall₂_getElem? hx.flip hxk
    obtain ⟨dims', hdk, hdims'⟩ := forall₂_getElem? hd htk
    obtain rfl := Option.some.inj (hdims.symm.trans hdk)
    exact ShowsBatch.index_lt hshown hdims' hi hm
  rw [Grid.getD_arrived hsize, ← hvalue i m hm, hr.value i hi _ ?_]
  rw [List.getD_eq_getElem _ _ (hlength ▸ hm)]
  exact List.mem_range.1 (hcover.mem_iff.1 (List.mem_flatMap.2
    ⟨part, List.mem_of_getElem? hpart, List.getElem_mem _⟩))

end
end Workspace
end Neuroform

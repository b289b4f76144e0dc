/-
  Neuroform — wrapping a layer realizes it.

  A tensor node evaluates the layer on its inputs.  Several inputs arrive side
  by side (`packed`), each in the part of the node that it is wired to, and are
  cut apart again (`cut_eq_ok`).
-/
import Neuroform.Proofs.Conversion.Pointwise

namespace Neuroform

/-! ## Packing -/

section
variable {α : Type} [Zero α] {b : Nat}

/-- The values of several samples side by side. -/
def packed : List (List Nat) → List (Grid α) → Nat → Nat → α
  | dims :: ins, x :: xs, i, j =>
    if j < volume dims then x.cells.getD (i * volume dims + j) 0
    else packed ins xs i (j - volume dims)
  | _, _, _, _ => 0

/-- The values of an input stand behind those of the inputs before it. -/
theorem packed_at : ∀ {k : Nat} {ins : List (List Nat)} {xs : List (Grid α)} {dims : List Nat}
    {x : Grid α} {i j : Nat}, ins[k]? = some dims → xs[k]? = some x → j < volume dims →
    packed ins xs i (totalSize ((ins.take k).map volume) + j) = x.cells.getD (i * volume dims + j) 0
  | 0, dims :: ins, x :: xs, _, _, i, j, hd, hx, hj => by
    obtain rfl := Option.some.inj hd
    obtain rfl := Option.some.inj hx
    simp [packed, hj]
  | k + 1, dims :: ins, x :: xs, _, _, i, j, hd, hx, hj => by
    have hrest := packed_at (i := i) (j := j) (k := k) hd hx hj
    rw [List.take_succ_cons, List.map_cons, totalSize_cons, packed, if_neg (by omega), ← hrest]
    congr 1
    omega

/-- What has been packed is cut apart again. -/
theorem cut_eq_ok {input : Grid α} {total : Nat} (hs : input.shape = [b, total]) :
    ∀ {ins : List (List Nat)} {xs : List (Grid α)} {start : Nat},
    List.Forall₂ (fun dims x => Grid.Batch x b dims) ins xs →
    start + totalSize (ins.map volume) ≤ total →
    (∀ i < b, ∀ j < totalSize (ins.map volume), input.value [i, start + j] = packed ins xs i j) →
    WrappedLayer.cut input b start ins = .ok xs := by
  intro ins xs start hxs htotal hv
  induction hxs generalizing start with
  | nil => rfl
  | @cons dims x ins xs hx hxs ih =>
    rw [List.map_cons, totalSize_cons] at htotal hv
    have hpart : input.columns start (volume dims) = .ok (Grid.ofFn [b, volume dims] fun p =>
        input.value (p.set 1 (p.getD 1 0 + start))) := by
      rw [Grid.columns, hs]
      exact if_pos (by omega)
    have hreshape : (Grid.ofFn [b, volume dims] fun p =>
        input.value (p.set 1 (p.getD 1 0 + start))).reshape (b :: dims) = .ok x := by
      have hsize : x.cells.size = volume [b, volume dims] := by simp [x.size_cells, hx.shape]
      have hflat : Grid.ofFn [b, volume dims]
          (fun p => input.value (p.set 1 (p.getD 1 0 + start))) =
          ⟨[b, volume dims], x.cells, hsize⟩ := by
        refine Grid.ext_values rfl fun p hp => ?_
        have hp : p ∈ positions [b, volume dims] := hp
        obtain ⟨i, hi, j, hj, rfl⟩ := mem_positions_pair.1 hp
        rw [Grid.value_ofFn _ hp]
        have hread := hv i hi j (by omega)
        rw [packed, if_pos hj, Nat.add_comm] at hread
        simpa [Grid.value, offset] using hread
      exact Grid.reshape_eq_ok.2 ⟨hx.shape ▸ hx.addressable, hx.shape,
        (congrArg Grid.cells hflat).symm⟩
    have hrest : WrappedLayer.cut input b (start + volume dims) ins = .ok xs := by
      refine ih (by omega) fun i hi j hj => ?_
      rw [Nat.add_assoc, hv i hi _ (by omega), packed, if_neg (by omega), Nat.add_sub_cancel_left]
    exact bind_eq_ok.2 ⟨_, hpart, bind_eq_ok.2 ⟨x, hreshape, bind_eq_ok.2 ⟨xs, hrest, rfl⟩⟩⟩

end

namespace Workspace

open Rule

/-- The part of an object that takes an input stands behind those of the inputs
    before it. -/
theorem parts_eq_ok {o : ObjectId} : ∀ {shapes : List (List Nat)} {start : Nat} {parts : List View},
    inputParts.parts (.full o) start shapes = .ok parts → parts.length = shapes.length ∧
      ∀ (k : Nat) part, parts[k]? = some part → ∃ shape, shapes[k]? = some shape ∧ part =
        ⟨o, some (List.range' (start + totalSize ((shapes.take k).map volume)) (volume shape))⟩
  | [], start, parts, h => by
    obtain rfl := Except.ok.inj h
    exact ⟨rfl, by simp⟩
  | shape :: shapes, start, parts, h => by
    simp only [inputParts.parts, bind_eq_ok, pure_eq_ok] at h
    obtain ⟨_, -, part, hpart, rest, hrest, rfl⟩ := h
    obtain rfl := Except.ok.inj hpart
    obtain ⟨hlength, hget⟩ := parts_eq_ok hrest
    refine ⟨by simp [hlength], fun k part hk => ?_⟩
    cases k with
    | zero =>
      obtain rfl := Option.some.inj hk
      exact ⟨shape, rfl, rfl⟩
    | succ k =>
      obtain ⟨shape', hshape, rfl⟩ := hget k part hk
      refine ⟨shape', hshape, ?_⟩
      rw [List.take_succ_cons, List.map_cons, totalSize_cons, Nat.add_assoc]

variable {α : Type} [Field α] [LinearOrder α] [Elementary α] [Printed α] {w w' : Workspace α}
  {fed : States α} {b : Nat} {i : InvocationId} {p : Primitive α} {ins : List (List Nat)}
  {xs : List (Grid α)} {out : List Nat} {x y : Grid α} {v : View} {wires : List (Wire α)}
  {f : Nat → Nat → α}

/-- A tensor node realizes what its function makes of what is wired to it. -/
theorem Staged.realized_node {node : TensorNode α} (hs : Staged w fed b i p ins xs out y)
    (hfits : w'.network.sketch.Fits b) (hd : w.Draws (⟨[.tensorNode node], []⟩ ++ ⟨[], wires⟩) w')
    (hpost : ∀ e ∈ wires, e.post.object = w.next) (hsize : node.sizeOut = volume out)
    (hadds : Adds (w'.network.sketch.steady fed b) b (volume node.shapeIn) wires f)
    (hx : x.Batch b node.shapeIn) (hxv : ∀ i < b, ∀ p ∈ positions node.shapeIn,
      x.value (i :: p) = f i (offset node.shapeIn p))
    (heval : node.function.eval x = .ok y) : Realized w w' fed b (.full w.next) out y := by
  have hkind := hd.kind?_next
  obtain ⟨n, hn, -⟩ := hfits _ (List.mem_of_getElem? hkind)
  have hn' : (ObjectKind.tensorNode node).sizeIn = .ok (volume node.shapeIn) := by
    rw [hn, product_eq_ok hn]
  have hinto : w'.network.sketch.into w.next = wires := by
    rw [hd.into hs.checked (le_refl _), Sketch.into_append]
    exact List.filter_eq_self.2 fun e he => decide_eq_true (hpost e he)
  have hleads : (⟨[.tensorNode node], []⟩ ++ ⟨[], wires⟩ : Sketch α).LeadsFrom w.next :=
    fun e he => (congrArg ObjectId.index (hpost e he)).ge
  have hcarries : w'.network.sketch.Carries fed b w.next out y :=
    Sketch.settles_of_adds hkind hn' (hinto.symm ▸ hadds) fun input hi => by
      have hin : input.Holds b node.shapeIn x := Table.holds_of_values hx.shape hi.rows hi.columns
        fun i hib p hp => by rw [hi.value i hib _ (offset_lt hp), hxv i hib p hp]
      exact react_tensorNode hin (hx.shape ▸ hx.addressable) heval hs.output.shape
        hs.output.addressable hsize.symm
  refine ⟨⟨_, hd, hleads⟩, fun o ho ho' => ?_, w.next, rfl, hcarries⟩
  obtain ⟨j, hj, rfl⟩ := hd.exists_new ho ho'
  obtain rfl : j = 0 := by simpa using hj
  exact hcarries.imp fun _ h => h.1

/-- Every input is wired to its part of an object. -/
theorem Staged.wireParts {part : Sketch α} {o : ObjectId} {parts : List View} {u : PUnit}
    {w₁ : Workspace α} (hs : Staged w fed b i p ins xs out y) (hd : w.Draws part w₁)
    (hparts : inputParts.parts (.full o) 0 ins = .ok parts)
    (h : (forIn parts.zipIdx PUnit.unit fun (part, input) _ => do
        let _ ← Workspace.wireInput i part input false .identity
        pure (.yield PUnit.unit) : Step (Workspace α) PUnit).exec w₁ = (.ok u, w')) :
    ∃ wires, w.Draws (part ++ ⟨[], wires⟩) w' ∧ (∀ e ∈ wires, e.post.object = o) ∧
      ∀ value, w.Shows fed b value →
        Adds value b (totalSize (ins.map volume)) wires (packed ins xs) := by
  obtain ⟨hlength, hget⟩ := parts_eq_ok hparts
  -- the parts so far have the values of the inputs so far
  obtain ⟨wires, hd, hpost, hadds⟩ := draws_forIn hd (I := fun done _ wires =>
    (∀ e ∈ wires, e.post.object = o) ∧ ∀ value, w.Shows fed b value →
      Adds value b (totalSize (ins.map volume)) wires fun i j =>
        if j < totalSize ((ins.take done.length).map volume) then packed ins xs i j else 0)
    ⟨by simp, fun _ _ => by simpa using adds_nil⟩
    (fun done d rest _ wires w₂ r w₃ hx hI hd hround => by
      obtain ⟨view, k⟩ := d
      obtain ⟨hpost, hadds⟩ := hI
      obtain ⟨hview, rfl⟩ := getElem?_of_zipIdx_eq hx
      obtain ⟨dims, hdims, rfl⟩ := hget _ _ hview
      obtain ⟨_, w₄, hw, hround⟩ := Step.exec_bind_eq_ok.1 hround
      obtain ⟨rfl, rfl⟩ := Step.exec_pure_eq_ok.1 hround
      obtain ⟨u, _, x, hdims', hx, hc, hd, -⟩ := hs.wireInput hd hw
      obtain rfl := Option.some.inj (hdims.symm.trans hdims')
      refine ⟨_, _, rfl, hd, fun e he => ?_, fun value hvalue => ?_⟩
      · rcases List.mem_append.1 he with he | he
        · exact hpost e he
        · rw [List.mem_singleton.1 he]
      · obtain ⟨t, ht, hold⟩ := hvalue u _ x hc
        have hstart : totalSize ((ins.take (done.length + 1)).map volume) =
            totalSize ((ins.take done.length).map volume) + volume dims := by
          rw [List.take_add_one, hdims, List.map_append]
          exact List.sum_append.trans (congrArg _ (Nat.add_zero _))
        rw [List.length_append, List.length_singleton, hstart]
        refine ((hadds value hvalue).append (adds_at (o := o) (g := fun i j =>
            if totalSize ((ins.take done.length).map volume) ≤ j ∧
              j < totalSize ((ins.take done.length).map volume) + volume dims then
            packed ins xs i j else 0)
            ht ⟨hold.rows, hold.columns.trans List.length_range'.symm, fun _ _ _ _ => rfl⟩
            List.nodup_range' fun i _ j _ => ?_)).congr
          fun i _ j _ => ?_
        · rw [Nat.zero_add]
          refine ⟨fun k hk => ?_, fun hj => if_neg fun h => hj (List.mem_range'_1.2 h)⟩
          obtain ⟨hlt, rfl⟩ := List.getElem?_eq_some_iff.1 hk
          rw [List.length_range'] at hlt
          rw [List.getElem_range', Nat.one_mul, if_pos ⟨by omega, by omega⟩,
            packed_at hdims hx hlt, hold.value_cells]
        · by_cases hj : j < totalSize ((ins.take done.length).map volume)
          · rw [if_pos hj, if_neg (by omega), if_pos (by omega), add_zero]
          · by_cases hj' : j < totalSize ((ins.take done.length).map volume) + volume dims
            · rw [if_neg hj, if_pos ⟨by omega, hj'⟩, if_pos hj', zero_add]
            · rw [if_neg hj, if_neg (by omega), if_neg hj', zero_add]) h
  refine ⟨wires, hd, hpost,
    fun value hvalue => (hadds value hvalue).congr fun i _ j hj => if_pos ?_⟩
  rwa [List.length_zipIdx, hlength, List.take_length]

omit [Field α] [LinearOrder α] [Elementary α] [Printed α] in
/-- Several inputs take as many values as all of them have. -/
theorem packedShape_eq_ok {shapeIn : List Nat} (h : packedShape ins = .ok shapeIn)
    (hseveral : ins.length ≠ 1) : shapeIn = [totalSize (ins.map volume)] := by
  obtain ⟨sizes, hsizes, h⟩ := bind_eq_ok.1 h
  have hvolumes : sizes = ins.map volume := by
    rw [← List.forall₂_eq_eq_eq, List.forall₂_map_right_iff]
    exact (mapM_forall₂.1 hsizes).flip.imp fun n dims h => product_eq_ok h
  split at h
  · exact absurd rfl hseveral
  · obtain ⟨total, htotal, h⟩ := bind_eq_ok.1 h
    rw [← pure_eq_ok.1 h, sum_eq_ok htotal, hvolumes]

/-- A wrapped layer is evaluated in a tensor node. -/
theorem Staged.realized_wrapped (hs : Staged w fed b i p ins xs out y)
    (h : (convertWrapped p i).exec w = (.ok v, w')) (hfits : w'.network.sketch.Fits b) :
    Realized w w' fed b v out y := by
  rw [convertWrapped, Step.exec_get_bind] at h
  obtain ⟨layer, -, h⟩ := Step.exec_lift_bind_eq_ok.1 h
  obtain ⟨invocation, -, h⟩ := Step.exec_lift_bind_eq_ok.1 h
  obtain ⟨_, -, h⟩ := Step.exec_lift_bind_eq_ok.1 h
  obtain ⟨ins', hins, h⟩ := Step.exec_lift_bind_eq_ok.1 h
  obtain rfl := (hs.allInputDims ins' hins).symm
  obtain ⟨out', hout, h⟩ := Step.exec_lift_bind_eq_ok.1 h
  obtain rfl := (hs.outputDims out' hout).symm
  obtain ⟨shapeIn, hshapeIn, h⟩ := Step.exec_lift_bind_eq_ok.1 h
  obtain ⟨size, hsize, h⟩ := Step.exec_lift_bind_eq_ok.1 h
  obtain rfl := product_eq_ok hsize
  obtain ⟨label, -, h⟩ := Step.exec_lift_bind_eq_ok.1 h
  obtain ⟨o, w₁, hn, h⟩ := Step.exec_bind_eq_ok.1 h
  obtain ⟨rfl, hd⟩ := draws_addObject hn
  obtain ⟨parts, hparts, h⟩ := Step.exec_lift_bind_eq_ok.1 h
  obtain ⟨_, w₂, hloop, h⟩ := Step.exec_bind_eq_ok.1 h
  obtain ⟨rfl, rfl⟩ := Step.exec_pure_eq_ok.1 h
  have hmade : (p.operation.forward xs).within (.evaluatingWrapped layer.name) = .ok [y] :=
    within_eq_ok.2 hs.makes
  by_cases hone : ins.length = 1
  case pos =>
    -- the whole node takes the only input
    obtain ⟨dims, rfl⟩ := List.length_eq_one_iff.1 hone
    obtain ⟨x, _, hx, hnil, rfl⟩ := List.forall₂_cons_left_iff.1 hs.inputs
    obtain rfl := List.forall₂_nil_left_iff.1 hnil
    obtain ⟨_, -, hshapeIn⟩ := bind_eq_ok.1 hshapeIn
    obtain rfl := pure_eq_ok.1 hshapeIn
    obtain rfl := Except.ok.inj hparts
    simp only [List.zipIdx_cons, List.zipIdx_nil, List.forIn_cons] at hloop
    obtain ⟨r, w₃, hround, hloop⟩ := Step.exec_bind_eq_ok.1 hloop
    obtain ⟨_, w₄, hw, hr⟩ := Step.exec_bind_eq_ok.1 hround
    obtain ⟨rfl, rfl⟩ := Step.exec_pure_eq_ok.1 hr
    obtain ⟨-, rfl⟩ := Step.exec_pure_eq_ok.1 hloop
    obtain ⟨u, _, _, hdims', hx', hc, hd, -⟩ := hs.wireInput hd hw
    obtain rfl := Option.some.inj hdims'
    obtain rfl := Option.some.inj hx'
    obtain ⟨t, ht, hold⟩ := hd.steady (by simp [Sketch.LeadsFrom, View.full]) hc
    refine hs.realized_node hfits hd (by simp [View.full]) rfl (adds_full ht rfl hold.reads) hx
      (fun i _ p _ => (hold.value i p).symm) ?_
    exact bind_eq_ok.2 ⟨[x], rfl, bind_eq_ok.2 ⟨[y], hmade, rfl⟩⟩
  case neg =>
    obtain rfl := packedShape_eq_ok hshapeIn hone
    have hsplit : inputParts (.full w.next) ins = inputParts.parts (.full w.next) 0 ins := by
      unfold inputParts
      split
      · exact absurd rfl hone
      · rfl
    obtain ⟨wires, hd, hpost, hadds⟩ := hs.wireParts hd (hsplit ▸ hparts) hloop
    have hadds := hadds _ (hd.shows fun e he => (congrArg ObjectId.index (hpost e he)).ge)
    set total := totalSize (ins.map volume) with htotal
    obtain ⟨n, hn, hroom⟩ := hfits _ (List.mem_of_getElem? hd.kind?_next)
    obtain rfl := product_eq_ok hn
    let x : Grid α := .ofFn [b, total] fun q => packed ins xs (q.getD 0 0) (q.getD 1 0)
    have hxv : ∀ i < b, ∀ j < total, x.value [i, j] = packed ins xs i j := fun i hi j hj =>
      Grid.value_ofFn _ (mem_positions_pair.2 ⟨i, hi, j, hj, rfl⟩)
    refine hs.realized_node (x := x) hfits hd hpost rfl (by simpa using hadds)
      ⟨rfl, by simpa [x, Grid.ofFn] using (requireRoom_eq_ok.1 hroom).1⟩ (fun i hi q hq => ?_) ?_
    · obtain ⟨j, _, hj, hnil, rfl⟩ := List.forall₂_cons_right_iff.1 (mem_positions.1 hq)
      obtain rfl := List.forall₂_nil_right_iff.1 hnil
      rw [hxv i hi j hj]
      simp [offset]
    · have hcut : WrappedLayer.split ⟨layer.name, p, layer.trainable, ins⟩ x = .ok xs := by
        have hfrom : WrappedLayer.cut x b 0 ins = .ok xs :=
          cut_eq_ok rfl hs.inputs (Nat.zero_add _).le fun i hi j hj => by
            rw [Nat.zero_add, hxv i hi j hj]
        unfold WrappedLayer.split
        split
        · exact absurd (congrArg List.length ‹_›) hone
        · exact bind_eq_ok.2 ⟨b, rfl, hfrom⟩
      exact bind_eq_ok.2 ⟨xs, hcut, bind_eq_ok.2 ⟨[y], hmade, rfl⟩⟩

end Workspace
end Neuroform

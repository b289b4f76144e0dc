/-
  Neuroform — wrapped layers get their inputs back.

  The inputs of a wrapped layer are packed into consecutive parts of its tensor
  node (`Consecutive`).  The samples that arrive there are cut apart into those
  that were sent, so the layer is evaluated on its own inputs
  (`inputs_recovered`).
-/
import Neuroform.Proofs.Conversion.Simulated
import Neuroform.Proofs.Conversion.Wiring

namespace Neuroform

/-! ## Parts -/

/-- Parts of an object, of `size` columns, take inputs one behind the other and
    leave nothing out. -/
structure Consecutive (o : ObjectId) (size : Nat) (ins : List (List Nat)) (parts : List View) :
    Prop where
  length : parts.length = ins.length
  part : ∀ (k : Nat) part, parts[k]? = some part → part.object = o ∧ ∃ dims, ins[k]? = some dims ∧
    part.columns size = List.range' (totalSize ((ins.take k).map volume)) (volume dims)
  cover : parts.flatMap (·.columns size) = List.range size

namespace Rule

theorem columns_parts {o : ObjectId} {size : Nat} : ∀ {shapes : List (List Nat)} {start : Nat}
    {parts : List View}, inputParts.parts (.full o) start shapes = .ok parts →
    parts.flatMap (·.columns size) = List.range' start (totalSize (shapes.map volume))
  | [], start, parts, h => by
    obtain rfl := Except.ok.inj h
    rfl
  | shape :: shapes, start, parts, h => by
    simp only [inputParts.parts, bind_eq_ok, pure_eq_ok] at h
    obtain ⟨_, -, part, hpart, rest, hrest, rfl⟩ := h
    obtain rfl := Except.ok.inj hpart
    rw [List.flatMap_cons, columns_parts hrest, List.map_cons, totalSize_cons]
    exact List.range'_append_1

/-- The parts that take inputs are consecutive. -/
theorem consecutive_inputParts {o : ObjectId} {ins : List (List Nat)} {shapeIn : List Nat}
    {parts : List View} (hs : packedShape ins = .ok shapeIn)
    (h : inputParts (.full o) ins = .ok parts) : Consecutive o (volume shapeIn) ins parts := by
  by_cases hone : ins.length = 1
  case pos =>
    obtain ⟨dims, rfl⟩ := List.length_eq_one_iff.1 hone
    obtain ⟨_, -, hs⟩ := bind_eq_ok.1 hs
    obtain rfl := pure_eq_ok.1 hs
    obtain rfl := Except.ok.inj h
    refine ⟨rfl, fun k part hk => ?_, List.append_nil _⟩
    obtain ⟨rfl, rfl⟩ : k = 0 ∧ part = .full o := by
      cases k with
      | zero => exact ⟨rfl, (Option.some.inj hk).symm⟩
      | succ k => simp at hk
    exact ⟨rfl, dims, rfl, List.range_eq_range'⟩
  case neg =>
    obtain rfl := Workspace.packedShape_eq_ok hs hone
    have h : inputParts.parts (.full o) 0 ins = .ok parts := by
      unfold inputParts at h
      split at h
      · exact absurd rfl hone
      · exact h
    obtain ⟨hlength, hpart⟩ := Workspace.parts_eq_ok h
    refine ⟨hlength, fun k part hk => ?_, ?_⟩
    · obtain ⟨dims, hdims, rfl⟩ := hpart k part hk
      exact ⟨rfl, dims, hdims, by simp [View.columns]⟩
    · rw [columns_parts h, List.range_eq_range']
      simp

/-- The number of values that a tensor node takes is that of its samples. -/
theorem product_packedShape {ins : List (List Nat)} {shapeIn : List Nat}
    (h : packedShape ins = .ok shapeIn) : Word.product shapeIn = .ok (volume shapeIn) := by
  obtain ⟨sizes, hsizes, h⟩ := bind_eq_ok.1 h
  split at h
  case h_1 dims =>
    obtain rfl := pure_eq_ok.1 h
    obtain ⟨n, _, hn, -⟩ := List.forall₂_cons_left_iff.1 (mapM_forall₂.1 hsizes)
    rw [hn, product_eq_ok hn]
  case h_2 =>
    obtain ⟨total, htotal, h⟩ := bind_eq_ok.1 h
    obtain rfl := pure_eq_ok.1 h
    obtain ⟨hlt, hsum⟩ := ofNat_eq_ok.1 htotal
    exact foldlM_cons_eq_ok.2 ⟨total, ofNat_eq_ok.2 (by simpa [hsum] using hlt), by simp⟩

end Rule

/-! ## Cutting apart -/

section
variable {α : Type} [Zero α] {b : Nat} {ins : List (List Nat)} {xs : List (Grid α)}

/-- Values that stand one behind the other are packed. -/
theorem eq_packed {i : Nat} : ∀ {ins : List (List Nat)} {xs : List (Grid α)} {f : Nat → α},
    ins.length = xs.length →
    (∀ (k : Nat) dims x, ins[k]? = some dims → xs[k]? = some x → ∀ m < volume dims,
      f (totalSize ((ins.take k).map volume) + m) = x.cells.getD (i * volume dims + m) 0) →
    ∀ j < totalSize (ins.map volume), f j = packed ins xs i j
  | [], _, _, _, _, j, hj => absurd hj (by simp)
  | dims :: ins, x :: xs, f, hlength, hf, j, hj => by
    rw [packed]
    split
    case isTrue hj' => simpa using hf 0 dims x rfl rfl j hj'
    case isFalse hj' =>
      rw [List.map_cons, totalSize_cons] at hj
      have hrest : f (volume dims + (j - volume dims)) = packed ins xs i (j - volume dims) := by
        refine eq_packed (f := fun j => f (volume dims + j)) (by simpa using hlength)
          (fun k dims' x' hk hx m hm => ?_) _ (by omega)
        rw [← hf (k + 1) dims' x' hk hx m hm, List.take_succ_cons, List.map_cons, totalSize_cons,
          Nat.add_assoc]
      rw [← hrest, Nat.add_sub_cancel' (Nat.not_lt.1 hj')]

/-- What is cut apart are batches of the given samples. -/
theorem WrappedLayer.batches_of_cut : ∀ {ins : List (List Nat)} {start : Nat} {xs : List (Grid α)}
    {input : Grid α}, cut input b start ins = .ok xs →
      List.Forall₂ (fun dims x => Grid.Batch x b dims) ins xs
  | [], _, xs, _, h => by
    obtain rfl := Except.ok.inj h
    exact .nil
  | dims :: ins, start, xs, _, h => by
    obtain ⟨part, -, h⟩ := bind_eq_ok.1 h
    obtain ⟨x, hx, h⟩ := bind_eq_ok.1 h
    obtain ⟨rest, hrest, h⟩ := bind_eq_ok.1 h
    obtain rfl := pure_eq_ok.1 h
    obtain ⟨ha, hshape, -⟩ := Grid.reshape_eq_ok.1 hx
    exact .cons ⟨hshape, hshape ▸ ha⟩ (batches_of_cut hrest)

/-- **What was packed is recovered** from the samples that were put together. -/
theorem WrappedLayer.split_assembled {layer : WrappedLayer α} {t : Table α} {x : Grid α}
    {shapeIn : List Nat} {parts : List View} {o : ObjectId}
    (hxs : List.Forall₂ (fun dims x => Grid.Batch x b dims) layer.inputShapes xs)
    (hshape : Rule.packedShape layer.inputShapes = .ok shapeIn)
    (hparts : Consecutive o (volume shapeIn) layer.inputShapes parts)
    (ht : t.Assembled b (volume shapeIn) parts layer.inputShapes xs)
    (hx : t.toGrid.reshape (b :: shapeIn) = .ok x) : layer.split x = .ok xs := by
  obtain ⟨name, p, trainable, ins⟩ := layer
  obtain ⟨-, hxshape, hcells⟩ := Grid.reshape_eq_ok.1 hx
  -- the columns of a part are consecutive
  have hvalue : ∀ i < b, ∀ (k : Nat) dims x, ins[k]? = some dims → xs[k]? = some x →
      ∀ m < volume dims, t.value i (totalSize ((ins.take k).map volume) + m) =
        x.cells.getD (i * volume dims + m) 0 := by
    intro i hi k dims x hdims hx m hm
    have hk : k < parts.length := hparts.length ▸ (List.getElem?_eq_some_iff.1 hdims).1
    have hpart := List.getElem?_eq_getElem hk
    obtain ⟨-, dims', hdims', hcolumns⟩ := hparts.part k _ hpart
    obtain rfl := Option.some.inj (hdims.symm.trans hdims')
    rw [← ht.value k _ dims x hpart hdims hx i hi m hm, hcolumns,
      List.getD_eq_getElem _ _ (by simpa using hm)]
    simp
  by_cases hone : ins.length = 1
  case pos =>
    obtain ⟨dims, rfl⟩ := List.length_eq_one_iff.1 hone
    obtain ⟨x₁, _, hx₁, hnil, rfl⟩ := List.forall₂_cons_left_iff.1 hxs
    obtain rfl := List.forall₂_nil_left_iff.1 hnil
    obtain ⟨_, -, hshape⟩ := bind_eq_ok.1 hshape
    obtain rfl := pure_eq_ok.1 hshape
    have hholds : t.Holds b dims x₁ := Table.holds_of_values hx₁.shape ht.rows ht.columns
      fun i hi p hp => by
        have hread := hvalue i hi 0 dims x₁ rfl rfl _ (offset_lt hp)
        rw [← hx₁.value_cells] at hread
        simpa using hread
    have hreshaped := reshape_of_holds hholds (hx₁.shape ▸ hx₁.addressable)
    obtain rfl := Except.ok.inj (hreshaped.symm.trans hx)
    rfl
  case neg =>
    obtain rfl := Workspace.packedShape_eq_ok hshape hone
    have hcut : cut x b 0 ins = .ok xs := by
      refine cut_eq_ok hxshape hxs (by simp) fun i hi j hj => ?_
      rw [Nat.zero_add, ← eq_packed (f := t.value i) hxs.length_eq (hvalue i hi) j hj]
      simp [Grid.value, Table.value, hxshape, hcells, offset, ht.columns, Table.toGrid]
    unfold split
    split
    case h_1 hsingle => exact absurd (congrArg List.length hsingle) hone
    case h_2 => exact bind_eq_ok.2 ⟨b, by simp [hxshape, orFault], hcut⟩

end

/-! ## Wrapping -/

namespace Rule

section
variable {α : Type} [Scalar α] {w w' : Workspace α} {p : Primitive α} {i : InvocationId} {v : View}

/-- A wrapped layer is evaluated in a tensor node, to parts of which its inputs
    are wired. -/
theorem draws_convertWrapped (hc : w.network.sketch.Checked)
    (h : (convertWrapped p i).exec w = (.ok v, w')) :
    ∃ inv layer out shapeIn parts, w.graph.record? i = some inv ∧ layer.layer = p ∧
      List.Forall₂ w.graph.Dims inv.inputs layer.inputShapes ∧ w.graph.OutputDims i out ∧
      packedShape layer.inputShapes = .ok shapeIn ∧
      inputParts (.full w.next) layer.inputShapes = .ok parts ∧ v = .full w.next ∧ w.Framed w' ∧
      w'.network.sketch.kind? w.next =
        some (.tensorNode ⟨shapeIn, volume out, .layer layer⟩) ∧
      w'.Wired inv.inputs parts (w'.network.sketch.into w.next) := by
  rw [convertWrapped, Step.exec_get_bind] at h
  obtain ⟨layer, -, h⟩ := Step.exec_lift_bind_eq_ok.1 h
  obtain ⟨_, -, h⟩ := Step.exec_lift_bind_eq_ok.1 h
  obtain ⟨_, -, h⟩ := Step.exec_lift_bind_eq_ok.1 h
  obtain ⟨ins, hins, h⟩ := Step.exec_lift_bind_eq_ok.1 h
  obtain ⟨inv, hr, hdims⟩ := Workspace.allInputDims_eq_ok hins
  obtain ⟨out, hout, h⟩ := Step.exec_lift_bind_eq_ok.1 h
  obtain ⟨shapeIn, hshapeIn, h⟩ := Step.exec_lift_bind_eq_ok.1 h
  obtain ⟨size, hsize, h⟩ := Step.exec_lift_bind_eq_ok.1 h
  obtain rfl := product_eq_ok hsize
  obtain ⟨label, -, h⟩ := Step.exec_lift_bind_eq_ok.1 h
  obtain ⟨o, w₁, hn, h⟩ := Step.exec_bind_eq_ok.1 h
  obtain ⟨rfl, hd⟩ := Workspace.draws_addObject hn
  obtain ⟨parts, hparts, h⟩ := Step.exec_lift_bind_eq_ok.1 h
  obtain ⟨_, w₂, hloop, h⟩ := Step.exec_bind_eq_ok.1 h
  obtain ⟨rfl, rfl⟩ := Step.exec_pure_eq_ok.1 h
  have hconsecutive := consecutive_inputParts hshapeIn hparts
  -- the inputs so far are wired to the parts so far
  obtain ⟨wires, hd, hwired⟩ := Workspace.draws_forIn hd (I := fun done _ wires =>
    w.Wired (inv.inputs.take done.length) (parts.take done.length) wires) .nil
    (fun done d rest _ wires w₂ r w₃ hx hI hd hround => by
      obtain ⟨part, k⟩ := d
      obtain ⟨hpart, rfl⟩ := getElem?_of_zipIdx_eq hx
      obtain ⟨_, w₄, hw, hround⟩ := Step.exec_bind_eq_ok.1 hround
      obtain ⟨rfl, rfl⟩ := Step.exec_pure_eq_ok.1 hround
      obtain ⟨pre, hpre, hd', -⟩ := Workspace.draws_wireInput hw
      rw [hd.framed.inputView] at hpre
      obtain ⟨inv', t, hr', ht, hview⟩ := Workspace.inputView_eq_ok.1 hpre
      obtain rfl := Option.some.inj (hr.symm.trans hr')
      refine ⟨_, _, rfl, hd.trans hd', ?_⟩
      rw [List.length_append, List.length_singleton, List.take_add_one, List.take_add_one, ht, hpart]
      exact hI.snoc hview part) hloop
  have hlength := hconsecutive.length.trans hdims.length_eq.symm
  rw [List.length_zipIdx, List.take_length, hlength, List.take_length] at hwired
  have hpost : ∀ e ∈ wires, e.post.object = w.next := by
    intro e he
    have hmem : e.post ∈ parts := hwired.map_post ▸ List.mem_map_of_mem he
    obtain ⟨k, hk⟩ := List.mem_iff_getElem?.1 hmem
    exact (hconsecutive.part k _ hk).1
  refine ⟨inv, ⟨layer.name, p, layer.trainable, ins⟩, out, shapeIn, parts, hr, rfl, hdims,
    Workspace.outputDims_eq_ok.1 hout, hshapeIn, hparts, rfl, hd.framed, hd.kind?_next, ?_⟩
  rw [hd.into_next hc hpost]
  exact hwired.mono fun t v hv => (hd.framed.tensorView t).trans hv

end

section
variable {α : Type} [Scalar α] {w w' : Workspace α} {p : Primitive α} {i : InvocationId} {v : View}

/-- **Packing round-trips.**  Wrapping an invocation of a layer wires its inputs to
    consecutive parts of a tensor node, which leave nothing of it out.  Whatever
    batches the inputs show, the input of the node is put together from what
    arrives of them, which are the batches themselves unless adding to zero
    changes a value; and whenever the batches that it is put together from can be
    laid out as samples, these are split into the batches again, so the layer is
    evaluated on them. -/
theorem inputs_recovered (hc : w.network.sketch.Checked)
    (h : (convertWrapped p i).exec w = (.ok v, w')) :
    ∃ inv layer out shapeIn parts, w.graph.record? i = some inv ∧ layer.layer = p ∧
      List.Forall₂ w.graph.Dims inv.inputs layer.inputShapes ∧ w.graph.OutputDims i out ∧
      v = .full w.next ∧ w'.network.sketch.kind? w.next =
        some (.tensorNode ⟨shapeIn, volume out, .layer layer⟩) ∧
      packedShape layer.inputShapes = .ok shapeIn ∧ Word.product shapeIn = .ok (volume shapeIn) ∧
      w'.Wired inv.inputs parts (w'.network.sketch.into w.next) ∧
      Consecutive w.next (volume shapeIn) layer.inputShapes parts ∧
      ∀ (b : Nat) (xs : List (Grid α)),
        List.Forall₂ (fun dims x => Grid.Batch x b dims) layer.inputShapes xs →
        (∀ states, List.Forall₂ (w'.ShowsBatch states b) inv.inputs xs →
          ∃ t, w'.network.inputOf states b w.next (volume shapeIn) = .ok t ∧
            t.Assembled b (volume shapeIn) parts layer.inputShapes (xs.map Grid.arrived) ∧
            ((∀ x ∈ xs, ∀ v ∈ x.toList, 0 + v = v) →
              t.Assembled b (volume shapeIn) parts layer.inputShapes xs)) ∧
        ∀ t : Table α, t.Assembled b (volume shapeIn) parts layer.inputShapes xs →
          ((∃ x, t.toGrid.reshape (b :: shapeIn) = .ok x) ↔ addressable (b :: shapeIn)) ∧
          ∀ x, t.toGrid.reshape (b :: shapeIn) = .ok x → layer.split x = .ok xs ∧
            ∀ y, layer.eval x = .ok y ↔
              ∃ ys, p.operation.forward xs = .ok ys ∧ ys.head? = some y := by
  obtain ⟨inv, layer, out, shapeIn, parts, hr, rfl, hdims, hout, hshapeIn, hparts, hv, hframed,
    hkind, hwired⟩ := draws_convertWrapped hc h
  have hconsecutive := consecutive_inputParts hshapeIn hparts
  refine ⟨inv, layer, out, shapeIn, parts, hr, rfl, hdims, hout, hv, hkind,
    hshapeIn, product_packedShape hshapeIn, hwired, hconsecutive,
    fun b xs hxs => ⟨fun states hstates => ?_, fun t ht => ⟨⟨?_, fun ha => ?_⟩, fun x hx => ?_⟩⟩⟩
  · have hfit : List.Forall₂ (fun dims part =>
        (View.columns part (volume shapeIn)).length = volume dims) layer.inputShapes parts := by
      refine forall₂_of_getElem? hconsecutive.length.symm fun k dims part hk hpart => ?_
      obtain ⟨-, dims', hk', hcolumns⟩ := hconsecutive.part k part hpart
      obtain rfl := Option.some.inj (hk.symm.trans hk')
      rw [hcolumns, List.length_range']
    obtain ⟨t, ht, harrived⟩ := hwired.inputOf hstates (hframed.graph ▸ hdims)
      (.of_eq hconsecutive.cover) hfit
    exact ⟨t, ht, harrived, fun hkept => Grid.map_arrived hkept ▸ harrived⟩
  · rintro ⟨x, hx⟩
    exact (Grid.reshape_eq_ok.1 hx).1
  · have hsize : t.cells.size = volume (b :: shapeIn) := by
      rw [t.size_cells, ht.rows, ht.columns, volume_cons]
    exact ⟨⟨b :: shapeIn, t.cells, hsize⟩, Grid.reshape_eq_ok.2 ⟨ha, rfl, rfl⟩⟩
  · have hsplit := WrappedLayer.split_assembled hxs hshapeIn hconsecutive ht hx
    refine ⟨hsplit, fun y => ?_⟩
    simp only [WrappedLayer.eval, hsplit, bind_eq_ok, within_eq_ok, orRefuse_eq_ok,
      Except.ok.injEq, exists_eq_left']

/-- A session that has constant nodes for the two inputs of a concatenation. -/
def pair : Workspace ℚ :=
  ⟨Graph.build [.input "a" [2], .input "b" [1], .wire "c" (.concatenate ⟨-1⟩) [⟨0⟩, ⟨1⟩]],
    .standard, Network.build "net" [.add (.node (.constant [0, 0])) "a",
      .add (.node (.constant [0])) "b"],
    [(⟨⟨0⟩, 0⟩, [.full ⟨0⟩]), (⟨⟨1⟩, 0⟩, [.full ⟨1⟩])], []⟩

/-- Two values and one, packed into a tensor node of three and taken apart
    again. -/
theorem inputs_recovered_pair : ∃ w' layer t x,
    pair.network.sketch.Checked ∧
    (convertWrapped (.concatenate ⟨-1⟩) ⟨⟨2⟩, 0⟩).exec pair = (.ok (.full ⟨2⟩), w') ∧
    w'.network.inputOf [(⟨0⟩, ⟨1, 2, #[1, 2], rfl⟩), (⟨1⟩, ⟨1, 1, #[3], rfl⟩)] 1 ⟨2⟩ 3 = .ok t ∧
    t.toGrid.reshape [1, 3] = .ok x ∧
    WrappedLayer.split layer x = .ok [⟨[1, 2], #[1, 2], rfl⟩, ⟨[1, 1], #[3], rfl⟩] := by
  have hc : pair.network.sketch.Checked := fun e he => absurd he (by
    change e ∉ []
    simp)
  have hran : ((convertWrapped (.concatenate ⟨-1⟩) ⟨⟨2⟩, 0⟩).exec pair).1.toOption =
      some (.full ⟨2⟩) := by decide +kernel
  have h := Prod.ext (toOption_eq_some.1 hran) rfl
  obtain ⟨inv, layer, out, shapeIn, parts, hr, -, hdims, -, -, -, hshapeIn, -, -, -, hrun⟩ :=
    inputs_recovered hc h
  have hinv : pair.graph.record? ⟨⟨2⟩, 0⟩ = some ⟨[⟨0⟩, ⟨1⟩], [⟨2⟩]⟩ := by decide +kernel
  obtain rfl := Option.some.inj (hinv.symm.trans hr)
  have ha : pair.graph.Dims ⟨0⟩ [2] := ⟨⟨[none, some 2]⟩, by decide +kernel, rfl⟩
  have hb : pair.graph.Dims ⟨1⟩ [1] := ⟨⟨[none, some 1]⟩, by decide +kernel, rfl⟩
  have hins : [[2], [1]] = layer.inputShapes := List.right_unique_forall₂'
    (show Relator.RightUnique pair.graph.Dims from fun _ _ _ => Graph.Dims.unique)
    (.cons ha (.cons hb .nil)) hdims
  rw [← hins] at hshapeIn hrun
  obtain rfl := Except.ok.inj ((rfl : packedShape [[2], [1]] = .ok [3]).symm.trans hshapeIn)
  obtain ⟨harrive, hrecover⟩ := hrun 1 [⟨[1, 2], #[1, 2], rfl⟩, ⟨[1, 1], #[3], rfl⟩]
    (.cons ⟨rfl, by decide⟩ (.cons ⟨rfl, by decide⟩ .nil))
  obtain ⟨t, ht, -, hkept⟩ := harrive [(⟨0⟩, ⟨1, 2, #[1, 2], rfl⟩), (⟨1⟩, ⟨1, 1, #[3], rfl⟩)]
    (.cons ⟨[2], .full ⟨0⟩, _, _, ⟨⟨[none, some 2]⟩, by decide +kernel, rfl⟩, ⟨rfl, by decide⟩,
      toOption_eq_some.1 (by decide +kernel), rfl, rfl, rfl, rfl, rfl, rfl⟩
    (.cons ⟨[1], .full ⟨1⟩, _, _, ⟨⟨[none, some 1]⟩, by decide +kernel, rfl⟩, ⟨rfl, by decide⟩,
      toOption_eq_some.1 (by decide +kernel), rfl, rfl, rfl, rfl, rfl, rfl⟩ .nil))
  obtain ⟨hlaid, hsplit⟩ := hrecover t (hkept fun _ _ v _ => zero_add v)
  obtain ⟨x, hx⟩ := hlaid.2 (by decide)
  exact ⟨_, layer, t, x, hc, h, ht, hx, (hsplit x hx).1⟩

end
end Rule
end Neuroform

/-
  Neuroform — conversion of convolutions realizes them.

  A convolution on a wire maps every sample of a batch (`adds_convolution`), so
  the kernel of a layer is applied as by the layer itself.  Biases reach all
  positions of a filter through a relay node (`relayPart`).
-/
import Neuroform.Proofs.Conversion.Affine
import Neuroform.Proofs.Conversion.Moving

namespace Neuroform

section
variable {α : Type} [Zero α] {t : Table α} {x : Grid α} {b i : Nat} {dims : List Nat}

/-- A row of a table that holds a batch is laid out as a sample. -/
theorem reshape_row (hold : t.Holds b dims x) (ha : addressable dims) :
    (Grid.ofList (t.row i)).reshape dims = .ok (x.sample i) := by
  refine Grid.reshape_eq_ok.2 ⟨ha, congrArg List.tail hold.shape, ?_⟩
  rw [Grid.sample, Grid.cells_ofFn, hold.shape, Grid.ofList, Table.row, hold.columns,
    ← map_offset_positions, List.map_map]
  exact congrArg _ (List.map_congr_left fun p _ => (hold.value i p).symm)

omit [Zero α] in
/-- The samples of a batch have a shape that arrays have. -/
theorem Grid.Batch.addressable_sample (h : x.Batch b dims) (hb : 0 < b) :
    Neuroform.addressable dims := by
  have ha := h.addressable
  rw [h.shape] at ha
  exact addressable_tail hb ha

end

section
variable {α : Type} [Field α] [LinearOrder α] [Elementary α] [Printed α]
  {value : ObjectId → Option (Table α)} {b n : Nat} {o u : ObjectId} {t : Table α}
  {x : Grid α} {f : Nat → Nat → α} {c : ConvolutionTransform α}

/-- A wire with a convolution adds what it makes of every sample. -/
theorem adds_convolution (ht : value u = some t) (hold : t.Holds b c.inputShape x)
    (hx : addressable c.inputShape) (hin : c.sizeIn = .ok (volume c.inputShape))
    (hout : c.sizeOut = .ok n) (hroom : requireRoom valueBytes [b, n] = .ok ())
    (hconv : ∀ i < b, ∃ z, convolve c.layout c.geometry (x.sample i) c.kernel = .ok z ∧
      ∀ j < n, z.cells.getD j 0 = f i j) :
    Adds value b n [⟨.full u, .full o, .convolution c⟩] f := by
  have : Nonempty (Grid α) := ⟨x⟩
  choose! z hz hv using hconv
  have hrows : List.Forall₂ (fun i y => c.applyRow (t.row i) = .ok y) (List.range b)
      ((List.range b).map z) :=
    List.forall₂_map_right_iff.2 (List.forall₂_same.2 fun i hi =>
      bind_eq_ok.2 ⟨x.sample i, reshape_row hold hx, hz i (List.mem_range.1 hi)⟩)
  obtain ⟨y, hy, hr, hc, hread⟩ := apply_convolution hin hout hold.rows hold.columns hroom hrows
  refine adds_full ht hy ⟨hr, hc, fun i hi j hj => ?_⟩
  rw [hread i hi j hj (z i) (by simp [hi]), hv i hi j hj]

end

/-! ## Biases -/

section
variable {α : Type} [Scalar α] {w w' : Workspace α} {c : Conv α} {i : InvocationId} {o : ObjectId}
  {bias : List α}

/-- Wiring the kernel of a convolution to an output. -/
theorem Workspace.wireKernel_eq_ok {output v : View} (h : (do
      let dims ← (← get).inputDims i
      let _ ← wireInput i output 0 true (.convolution (← Rule.convTransform c dims))
      return output : Step (Workspace α) View).exec w = (.ok v, w')) :
    v = output ∧ ∃ dims ct connection, w.inputDims i = .ok dims ∧
      Rule.convTransform c dims = .ok ct ∧
      (wireInput i output 0 true (.convolution ct)).exec w = (.ok connection, w') := by
  rw [Step.exec_get_bind] at h
  obtain ⟨dims, hdims, h⟩ := Step.exec_lift_bind_eq_ok.1 h
  obtain ⟨ct, hct, h⟩ := Step.exec_lift_bind_eq_ok.1 h
  obtain ⟨connection, _, hw, h⟩ := Step.exec_bind_eq_ok.1 h
  obtain ⟨rfl, rfl⟩ := Step.exec_pure_eq_ok.1 h
  exact ⟨rfl, dims, ct, connection, hdims, hct, hw⟩

/-- A constant node, a relay node that it feeds the biases to, and the wire from
    there to all positions of an output. -/
def relayPart (first o : ObjectId) (bias : List α) (filters : Nat) (s : SparseTransform α) :
    Sketch α :=
  ⟨[.node (.constant [1]), .node (.passthrough filters)],
    [⟨.full first, .full ⟨first.index + 1⟩, .dense (Table.ofColumn bias)⟩,
      ⟨.full ⟨first.index + 1⟩, .full o, .sparse s⟩]⟩

theorem Workspace.draws_wireBiases {u : Unit}
    (h : (Rule.wireBiases c i (.full o) bias).exec w = (.ok u, w')) : ∃ dims,
      w.outputDims i = .ok dims ∧ w.Draws (relayPart w.next o bias c.filters
        (Rule.channelSpread c.layout dims c.filters)) w' ∧
      (Transform.sparse (Rule.channelSpread c.layout dims c.filters) : Transform α).checkEntries =
        .ok () := by
  rw [Rule.wireBiases, Step.exec_get_bind] at h
  obtain ⟨label, -, h⟩ := Step.exec_lift_bind_eq_ok.1 h
  obtain ⟨dims, hdims, h⟩ := Step.exec_lift_bind_eq_ok.1 h
  obtain ⟨node, w₁, hn, h⟩ := Step.exec_bind_eq_ok.1 h
  obtain ⟨rfl, hdn⟩ := draws_addObject hn
  obtain ⟨relay, w₂, hr, h⟩ := Step.exec_bind_eq_ok.1 h
  obtain ⟨rfl, hdr⟩ := draws_addObject hr
  obtain ⟨_, w₃, hc, h⟩ := Step.exec_bind_eq_ok.1 h
  obtain ⟨hdc, -⟩ := draws_connect hc
  obtain ⟨_, -, h⟩ := Step.exec_lift_bind_eq_ok.1 h
  obtain ⟨_, w₄, hs, h⟩ := Step.exec_bind_eq_ok.1 h
  obtain ⟨hds, hjoins⟩ := draws_connect hs
  obtain ⟨-, rfl⟩ := Step.exec_pure_eq_ok.1 h
  refine ⟨dims, hdims, ?_, ?_⟩
  · have hd := ((hdn.trans hdr).trans hdc).trans hds
    rw [hdn.next] at hd
    exact hd
  · obtain ⟨_, _, _, _, _, -, -, -, -, -, hcheck⟩ := hjoins
    simp only [Transform.check, bind_eq_ok] at hcheck
    obtain ⟨_, -, _, -, _, -, hentries⟩ := hcheck
    exact hentries

end

section
variable {α : Type} [Field α] [LinearOrder α] [Elementary α] [Printed α]
  {b channels : Nat} {l : Layout} {dims : List Nat} {x : Table α} {f : Nat → Nat → α}

omit [Field α] [LinearOrder α] [Elementary α] [Printed α] in
/-- The entry of a place of an output. -/
theorem mem_channelSpread [Scalar α] {p : List Nat} (hp : p ∈ positions dims) :
    ((offset dims p, p.getD (l.channelAxis dims.length) 0), 1) ∈
      List.zip (Rule.channelSpread l dims channels : SparseTransform α).indices
        (Rule.channelSpread l dims channels : SparseTransform α).values := by
  refine List.mem_iff_getElem?.2 ⟨offset dims p, List.getElem?_zip_eq_some.2 ⟨?_, ?_⟩⟩
  · simp [Rule.channelSpread, getElem?_positions hp]
  · simpa [Rule.channelSpread, length_positions, List.getElem?_replicate] using offset_lt hp

/-- Every place of an output gets the value of its channel. -/
theorem apply_channelSpread (hx : x.Reads b channels f)
    (hentries : (Transform.sparse (Rule.channelSpread l dims channels) : Transform α).checkEntries =
      .ok ()) (hroom : requireRoom valueBytes [b, volume dims] = .ok ()) :
    ∃ y, (Transform.sparse (Rule.channelSpread l dims channels)).apply x = .ok y ∧
      y.Reads b (volume dims) fun i j => f i (coordinate dims (l.channelAxis dims.length) j) := by
  have hcount : (Rule.channelSpread l dims channels : SparseTransform α).rows = volume dims := by
    simp [Rule.channelSpread, length_positions]
  have hrows : ((Rule.channelSpread l dims channels : SparseTransform α).indices.map
      Prod.fst).Nodup := by
    have hplaces : (Rule.channelSpread l dims channels : SparseTransform α).indices.map Prod.fst =
        List.range' 0 (positions dims).length :=
      List.map_map.trans (List.zipIdx_map_snd 0 (positions dims))
    exact hplaces ▸ List.nodup_range'
  rw [← hcount] at hroom ⊢
  obtain ⟨y, hy, hr, hc, hv⟩ := apply_sparse hx hroom hentries hrows
  refine ⟨y, hy, hr, hc, fun i hi j hj => ?_⟩
  rw [hcount] at hj
  obtain ⟨p, hp, rfl⟩ := exists_position hj
  rw [hv i hi _ (mem_channelSpread hp), coordinate_offset hp, zero_add, one_mul]

end

section
variable {α : Type} [Field α] [LinearOrder α] [Elementary α] [Printed α] {s : Sketch α}
  {fed : States α} {b filters : Nat} {first relay : ObjectId} {bias : List α}

/-- A relay node settles on the biases. -/
theorem settles_relay (hnode : s.kind? first = some (.node (.constant [1])))
    (hrelay : s.kind? relay = some (.node (.passthrough filters))) (hfirst : s.into first = [])
    (hinto : s.into relay = [⟨.full first, .full relay, .dense (Table.ofColumn bias)⟩])
    (hfed : fed.lookup first = none) (hlength : bias.length = filters)
    (hroom : requireRoom valueBytes [b, filters] = .ok ()) :
    ∃ t, s.Settles fed b relay t ∧ t.Reads b filters fun _ j => bias.getD j 0 :=
  Sketch.settles_of_adds hrelay rfl
    (hinto ▸ hlength ▸ Workspace.adds_bias hnode hfirst hfed (hlength ▸ hroom))
    fun input hi => ⟨input, react_passthrough, hi⟩

end

/-! ## Convolutions -/

section
variable {α : Type} [Field α] [LinearOrder α] [Elementary α] [Printed α] {c : Conv α}

omit [Field α] [LinearOrder α] [Elementary α] [Printed α] in
theorem Conv.length_kernelSize (c : Conv α) : c.kernelSize.length = c.rank := by
  rw [Conv.kernelSize, List.length_take, Conv.rank, Grid.rank]
  omega

omit [Field α] [LinearOrder α] [Elementary α] [Printed α] in
theorem Conv.length_bias_eq {bias : List α} (h : c.bias = some bias) : bias.length = c.filters := by
  have hrank := c.rank_kernel.1
  rw [c.length_bias bias h, Conv.filters, Conv.rank]
  congr 1
  omega

omit [LinearOrder α] [Elementary α] [Printed α] in
/-- Places whose channel has no bias are left alone: they get a zero. -/
theorem Conv.addBias_eq (l : Layout) (bias : List α) (y : Grid α) : Conv.addBias l bias y =
    Grid.ofFn y.shape fun p => y.value p + bias.getD (p.getD (l.channelAxis y.rank) 0) 0 := by
  refine Grid.ofFn_congr fun p _ => ?_
  rw [List.getD_eq_getElem?_getD (l := bias)]
  cases bias[p.getD (l.channelAxis y.rank) 0]? with
  | none => exact (add_zero _).symm
  | some b => rfl

/-- A convolution layer convolves every sample, adds the biases of the filters
    and applies its activation. -/
theorem Conv.value_convolved {x y : Grid α} {b : Nat} {dims out : List Nat} (hb : 0 < b)
    (hx : x.Batch b dims) (hf : c.forward [x] = .ok [y]) (hy : y.Batch b out) :
    ∃ z, z.Batch b out ∧ c.activation.apply z = .ok y ∧ ∀ i < b, ∃ v,
      convolve c.layout c.geometry (x.sample i) c.kernel = .ok v ∧ v.shape = out ∧
      ∀ p ∈ positions out, z.value (i :: p) =
        v.value p + c.bias.elim 0 (·.getD (p.getD (c.layout.channelAxis out.length) 0) 0) := by
  obtain ⟨z, y', hz, hy', hsingle⟩ := Conv.forward_eq_ok hf
  obtain rfl := List.singleton_inj.1 hsingle
  obtain ⟨out', hzout, hsample⟩ := Grid.mapSamples_eq_ok hb hx.shape hz
  obtain rfl : out' = out := by
    have := hy.shape.symm.trans ((Activation.shape_apply hy').trans hzout.shape)
    exact (List.cons.inj this).2.symm
  refine ⟨z, hzout, hy', fun i hi => ?_⟩
  obtain ⟨v', hv', hshape, hvalue⟩ := hsample i hi
  obtain ⟨v, hv, hv'⟩ := bind_eq_ok.1 hv'
  obtain rfl := pure_eq_ok.1 hv'
  cases hbias : c.bias with
  | none =>
    simp only [hbias, Option.elim_none] at hshape hvalue
    exact ⟨v, hv, hshape, fun p hp => (hvalue p hp).trans (add_zero _).symm⟩
  | some bias =>
    simp only [hbias, Option.elim_some] at hshape hvalue
    have hshape : v.shape = out' := hshape
    refine ⟨v, hv, hshape, fun p hp => (hvalue p hp).trans ?_⟩
    rw [addBias_eq, Grid.value_ofFn _ (hshape ▸ hp), Grid.rank, hshape]
    rfl

end

namespace Workspace

open Rule

variable {α : Type} [Field α] [LinearOrder α] [Elementary α] [Printed α] {w w' : Workspace α}
  {fed : States α} {b : Nat} {i : InvocationId} {ins : List (List Nat)}
  {xs : List (Grid α)} {out : List Nat} {x y : Grid α} {v : View} {c : Conv α}
  {rest : Sketch α} {n : Nonlinearity α} {biases : Option (List α)}

/-- A convolution that is wired to a target has the sizes of its input and of
    the target. -/
theorem Draws.convolution_sizes {ct : ConvolutionTransform α} {pre : View}
    (hd : w.Draws (targetPart w.next out biases n ++ rest) w')
    (hj : w'.network.sketch.Joins ⟨pre, .full w.next, .convolution ct⟩) :
    ct.sizeIn = .ok (volume ct.inputShape) ∧ ct.sizeOut = .ok (volume out) := by
  obtain ⟨_, k, _, size, _, -, -, hk, hsize, hshows, hcheck⟩ := hj
  obtain rfl := View.shows_full.1 hshows
  obtain rfl := hd.sizeIn_target hk hsize
  simp only [Transform.check, Transform.sizeIn?, Transform.sizeOut?, bind_eq_ok,
    map_eq_ok] at hcheck
  obtain ⟨_, ⟨n, hn, rfl⟩, _, ⟨m, hm, rfl⟩, _, hsizes, -⟩ := hcheck
  obtain ⟨-, rfl⟩ := require_eq_ok.1 hsizes
  exact ⟨product_eq_ok hn ▸ hn, hm⟩

/-- The convolved input is wired to the target. -/
theorem Staged.wireKernel {dims : List Nat} {w₁ : Workspace α} {conv : Nat → Grid α}
    (hs : Staged w fed b i (.conv c) [dims] [x] out y)
    (hdilations : c.dilationRate.map Word.signed = List.replicate c.rank 1)
    (hconv : ∀ i < b, convolve c.layout c.geometry (x.sample i) c.kernel = .ok (conv i))
    (hd : w.Draws (targetPart w.next out biases n ++ rest) w₁)
    (hrest : rest.LeadsFrom w.next)
    (h : (do
        let dims ← (← get).inputDims i
        let _ ← Workspace.wireInput i (.full w.next) 0 true (.convolution (← convTransform c dims))
        return .full w.next : Step (Workspace α) View).exec w₁ = (.ok v, w'))
    (hfits : w'.network.sketch.Fits b) : v = .full w.next ∧ ∃ e : Wire α,
      e.post = .full w.next ∧
      w.Draws (targetPart w.next out biases n ++ (rest ++ ⟨[], [e]⟩)) w' ∧
      Adds (w'.network.sketch.steady fed b) b (volume out) [e]
        fun i j => (conv i).cells.getD j 0 := by
  have hx : x.Batch b dims := (List.forall₂_cons.1 hs.inputs).1
  obtain ⟨rfl, dims', ct, _, hlooked, hct, hw⟩ := wireKernel_eq_ok h
  rw [hd.framed.inputDims] at hlooked
  obtain rfl := List.singleton_inj.1 (hs.inputDims dims' hlooked)
  obtain ⟨u, _, _, hu, hu', hcarried, hd', hjoins⟩ := hs.wireInput hd hw
  obtain rfl := Option.some.inj hu
  obtain rfl := Option.some.inj hu'
  obtain ⟨hin, hout⟩ := hd.convolution_sizes hjoins
  rw [Sketch.append_assoc] at hd'
  refine ⟨rfl, _, rfl, hd', ?_⟩
  obtain ⟨t, ht, hold⟩ :=
    hd'.steady (leadsFrom_target (hrest.append Sketch.leadsFrom_wire)) hcarried
  obtain ⟨_, -, hct⟩ := bind_eq_ok.1 hct
  obtain ⟨_, -, hct⟩ := bind_eq_ok.1 hct
  obtain rfl := pure_eq_ok.1 hct
  refine adds_convolution ht hold (hx.addressable_sample hs.batch) hin hout (hd'.room_target hfits)
    fun i hi => ⟨conv i, ?_, fun _ _ => rfl⟩
  have hgeometry : ConvolutionTransform.geometry
      ⟨c.filters, dims, c.kernelSize, c.strides, c.padding,
      c.layout, c.kernel⟩ = c.geometry.undilated := by
    have hlength : c.dilationRate.length = c.rank := by simpa using congrArg List.length hdilations
    rw [ConvolutionTransform.geometry, c.length_kernelSize, ← hlength]
    rfl
  rw [hgeometry]
  exact convolve_undilated (hconv i hi) fun dil hdil =>
    List.eq_of_mem_replicate (hdilations ▸ List.mem_map_of_mem hdil)

section
variable {bias : List α} {spread : SparseTransform α} {e : Wire α} {filters : Nat}
  {f : Nat → Nat → α} {z : Grid α} {p : Primitive α}

/-- A target to which biases are relayed behind another wire. -/
theorem Staged.realized_relayed (hs : Staged w fed b i p ins xs out y)
    (hfits : w'.network.sketch.Fits b)
    (hd : w.Draws (targetPart w.next out none n ++ (relayPart ⟨w.next.index + 1⟩ w.next bias filters
      (channelSpread c.layout out filters) ++ ⟨[], [e]⟩)) w')
    (he : e.post = .full w.next) (hlength : bias.length = filters)
    (hentries : (Transform.sparse (channelSpread c.layout out filters) : Transform α).checkEntries =
      .ok ())
    (hadds : Adds (w'.network.sketch.steady fed b) b (volume out) [e] f)
    (hz : z.Batch b out) (hzv : ∀ i < b, ∀ p ∈ positions out, z.value (i :: p) =
      f i (offset out p) + bias.getD (p.getD (c.layout.channelAxis out.length) 0) 0)
    (hacts : n.Acts z y) : Realized w w' fed b (.full w.next) out y := by
  have hnode := hd.kind?_behind 0
  have hrelay := hd.kind?_behind 1
  rw [targetPart_none.1] at hnode hrelay
  have hfirst : w'.network.sketch.into ⟨w.next.index + 1⟩ = [] := by
    rw [hd.into hs.checked (Nat.le_add_right _ _)]
    simp [Sketch.into, targetPart_none.2, relayPart, he, View.full, (next_ne w 0).symm]
  have hinto : w'.network.sketch.into ⟨w.next.index + 2⟩ = [⟨.full ⟨w.next.index + 1⟩,
      .full ⟨w.next.index + 2⟩, .dense (Table.ofColumn bias)⟩] := by
    rw [hd.into hs.checked (Nat.le_add_right _ _)]
    simp [Sketch.into, targetPart_none.2, relayPart, he, View.full, (next_ne w 1).symm]
  have hfed := hs.unfed ⟨w.next.index + 1⟩ (Nat.le_add_right _ _)
  obtain ⟨t₁, hfirstt, -⟩ := settles_constant (b := b) hnode hfirst hfed
  obtain ⟨_, hsize, hroom⟩ := hfits _ (List.mem_of_getElem? hrelay)
  obtain rfl := Except.ok.inj hsize
  obtain ⟨t₂, hrelayt, hread⟩ :=
    settles_relay (b := b) hnode hrelay hfirst hinto hfed hlength hroom
  obtain ⟨y', happly, hread⟩ := apply_channelSpread hread hentries (hd.room_target hfits)
  refine hs.realized_target (f := fun i j =>
    bias.getD (coordinate out (c.layout.channelAxis out.length) j) 0 + f i j) hfits hd (by simp)
    (fun e' he' => ?_) (fun j hj => ?_) ?_ hz (fun i hi p hp => ?_) hacts
  · have he' : e' ∈ [_, _, e] := he'
    rw [targetPart_none.1]
    rcases he' with _ | ⟨_, _ | ⟨_, _ | ⟨_, ⟨⟩⟩⟩⟩
    · exact .inr (Nat.le_succ _)
    · exact .inl rfl
    · exact .inl (congrArg View.object he)
  · rw [targetPart_none.1]
    obtain rfl | rfl : j = 0 ∨ j = 1 := by simp [relayPart] at hj; omega
    · exact ⟨t₁, hfirstt⟩
    · exact ⟨t₂, hrelayt⟩
  · have hwires : (relayPart ⟨w.next.index + 1⟩ w.next bias filters
        (channelSpread c.layout out filters) ++ ⟨[], [e]⟩).into w.next =
        [⟨.full ⟨w.next.index + 2⟩, .full w.next,
          .sparse (channelSpread c.layout out filters)⟩] ++ [e] := by
      simp [Sketch.into, relayPart, he, View.full, next_ne w 1]
    rw [hwires]
    exact (adds_full (Sketch.steady_eq_some.2 hrelayt) happly hread).append hadds
  · rw [hzv i hi p hp, coordinate_offset hp, add_comm]
    exact (add_zero _).symm

end

/-- A convolution layer is the target of its convolved input and its biases. -/
theorem Staged.realized_conv (hs : Staged w fed b i (.conv c) ins xs out y)
    (hdilations : c.dilationRate.map Word.signed = List.replicate c.rank 1)
    (h : (convertConv c i).exec w = (.ok v, w')) (hfits : w'.network.sketch.Fits b) :
    Realized w w' fed b v out y := by
  obtain ⟨dims, x, s, s', rfl, rfl, hx, hdims, ho, hout⟩ := hs.single fun shapes outs ho => by
    obtain ⟨s, hs, -⟩ := bind_eq_ok.1 ho
    exact ⟨s, onlyInput_eq_ok.1 hs⟩
  obtain ⟨z, hz, hacts, hconv⟩ := Conv.value_convolved hs.batch hx hs.makes hs.output
  have : Nonempty (Grid α) := ⟨x⟩
  choose! conv hconv hshape hvalue using hconv
  obtain ⟨output, w₁, ht, h⟩ := Step.exec_bind_eq_ok.1 h
  obtain ⟨-, rfl, hd⟩ := hs.buildTarget ht
  -- the convolved samples, value by value
  have hread : ∀ i < b, ∀ p ∈ positions out,
      (conv i).value p = (conv i).cells.getD (offset out p) 0 := fun i hi p _ => by
    rw [Grid.value, hshape i hi]
  cases hbias : c.bias with
  | none =>
    rw [hbias] at h
    obtain ⟨rfl, e, he, hd, hadds⟩ := hs.wireKernel hdilations hconv
      (hd.trans .refl) (by simp [Sketch.LeadsFrom]) h hfits
    refine hs.realized_wired hfits hd (by simp) (by simp [he, View.full]) hadds hz
      (fun i hi p hp => ?_) (Nonlinearity.acts_native hacts)
    rw [hvalue i hi p hp, hbias, hread i hi p hp]
    rfl
  | some bias =>
    rw [hbias] at h
    obtain ⟨_, w₂, hw, h⟩ := Step.exec_bind_eq_ok.1 h
    obtain ⟨dims', hdims', hdr, hentries⟩ := draws_wireBiases hw
    obtain rfl := hs.outputDims _ (hd.framed.outputDims i ▸ hdims')
    have hnext : w₁.next = ⟨w.next.index + 1⟩ := by rw [hd.next, targetPart_none.1]
    rw [hnext] at hdr
    obtain ⟨rfl, e, he, hd', hadds⟩ := hs.wireKernel hdilations hconv (hd.trans hdr)
      (by simp [Sketch.LeadsFrom, relayPart, View.full]; omega) h hfits
    refine hs.realized_relayed hfits hd' he (Conv.length_bias_eq hbias) hentries hadds hz
      (fun i hi p hp => ?_) (Nonlinearity.acts_native hacts)
    rw [hvalue i hi p hp, hbias, hread i hi p hp]
    rfl

end Workspace
end Neuroform

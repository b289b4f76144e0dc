/-
  Neuroform — convolutions with relayed biases.

  The target of a convolution layer receives the convolved values of a sample and,
  if there are biases, those of a relay with a value for each filter, which a
  sparse transform spreads over all positions of the filter (`Conv.received`).
  Both add up to what the layer makes of the sample before its activation
  (`Conv.preactivation`), and there is a sum whenever there is that.
-/
import Neuroform.Proofs.Conversion.Convolving
import Neuroform.Proofs.Network.Matrix

namespace Neuroform

variable {α : Type}

/-! ## Rows -/

/-- A row as a table. -/
def Table.ofRow (xs : List α) : Table α := ⟨1, xs.length, xs.toArray, by simp⟩

section
variable [Zero α]

theorem Table.row_ofRow (xs : List α) : (Table.ofRow xs).row 0 = xs :=
  List.ext_getElem (by simp [row, ofRow]) fun j hj hj' => by simp [row, ofRow, value, hj']

theorem Table.reads_ofRow (xs : List α) :
    (Table.ofRow xs).Reads 1 xs.length fun _ j => xs.getD j 0 :=
  ⟨rfl, rfl, fun i hi j _ => by
    obtain rfl := Nat.lt_one_iff.1 hi
    simp [ofRow, value, List.getD_eq_getElem?_getD]⟩

/-- A row that has a value for every position of a box. -/
theorem Table.Reads.row_eq {t : Table α} {r : Nat} {dims : List Nat} {f : Nat → Nat → α}
    (h : t.Reads r (volume dims) f) {i : Nat} (hi : i < r) :
    t.row i = (positions dims).map fun p => f i (offset dims p) := by
  rw [row, h.columns, ← map_offset_positions, List.map_map]
  exact List.map_congr_left fun p hp => h.value i hi _ (offset_lt hp)

theorem Grid.toList_eq (x : Grid α) : x.toList = (positions x.shape).map x.value := by
  conv_lhs => rw [← x.ofFn_value]
  rfl

end

/-! ## Convolutions of one row -/

namespace ConvolutionTransform
variable {c : ConvolutionTransform α}

theorem WellFormed.sizeOut_eq (h : c.WellFormed)
    (hf : c.geometry.Fits (c.layout.spatial c.inputShape) c.filters) :
    c.sizeOut = .ok (volume c.windows) := by
  have houtput := hf.output
  rw [← requireRoom_perm (c.layout.join_perm _ _)] at houtput
  refine bind_eq_ok.2 ⟨_, ?_, product_of_addressable (requireRoom_eq_ok.1 houtput).1⟩
  rw [windows, ← Geometry.outputDims_sliding]
  exact bind_eq_ok.2 ⟨_, (h.slides.axes_eq_ok_iff h.taps).2 ⟨hf.axes, rfl⟩, rfl⟩

/-- A table of one row is convolved if and only if the row is. -/
theorem WellFormed.apply_ofRow_iff [CommSemiring α] (h : c.WellFormed)
    (ha : addressable c.inputShape) {row v : List α} (hrow : row.length = volume c.inputShape) :
    (∃ u, (Transform.convolution c).apply (Table.ofRow row) = .ok u ∧ u.row 0 = v) ↔
      ∃ z, c.applyRow row = .ok z ∧ z.toList = v := by
  have hin : c.sizeIn = .ok (volume c.inputShape) := product_of_addressable ha
  constructor
  · rintro ⟨u, hu, rfl⟩
    obtain ⟨_, hsize, hrest⟩ := bind_eq_ok.1 hu
    obtain ⟨_, -, rfl⟩ := map_eq_ok.1 hsize
    obtain ⟨_, -, hrest⟩ := bind_eq_ok.1 hrest
    obtain ⟨n, hout, -⟩ := bind_eq_ok.1 hrest
    obtain ⟨z, hz, -, hvalues⟩ := Transform.convolution_rows h hin hout hrow hu Nat.one_pos
    rw [Table.row_ofRow] at hz
    exact ⟨z, hz, hvalues.symm⟩
  · rintro ⟨z, hz, rfl⟩
    have hlaid := ((h.applyRow_eq_ok_iff hrow).1 hz).1
    have hout := h.sizeOut_eq hlaid.windows
    have hroom : requireRoom valueBytes [1, volume c.windows] = .ok () := by
      have houtput := hlaid.windows.output
      rw [← requireRoom_perm (c.layout.join_perm _ _)] at houtput
      rw [requireRoom_cons_one]
      exact requireRoom_single.2 (requireRoom_eq_ok.1 houtput).2
    have hrows : List.Forall₂ (fun i y => c.applyRow ((Table.ofRow row).row i) = .ok y)
        (List.range 1) [z] := .cons ((Table.row_ofRow row).symm ▸ hz) .nil
    have hu := (apply_convolution_eq_ok_iff hin hout hrow).2 ⟨hroom, [z], hrows, rfl⟩
    obtain ⟨z', hz', -, hvalues⟩ := Transform.convolution_rows h hin hout hrow hu Nat.one_pos
    rw [Table.row_ofRow, hz] at hz'
    obtain rfl := Except.ok.inj hz'
    exact ⟨_, hu, hvalues⟩

end ConvolutionTransform

/-! ## Biases of places -/

section
variable {l : Layout} {dims : List Nat} {channels : Nat}

/-- There is one entry for each place, which points at the channel of the place. -/
theorem indices_channelSpread [Scalar α] :
    (Rule.channelSpread l dims channels : SparseTransform α).indices =
      (positions dims).map fun p => (offset dims p, p.getD (l.channelAxis dims.length) 0) := by
  refine List.ext_getElem? fun k => ?_
  rw [Rule.channelSpread, List.getElem?_map, List.getElem?_map, List.getElem?_zipIdx]
  cases hp : (positions dims)[k]? with
  | none => rfl
  | some p => simp [offset_of_getElem? hp]

theorem values_channelSpread [Scalar α] :
    (Rule.channelSpread l dims channels : SparseTransform α).values =
      List.replicate (volume dims) 1 := by
  simp [Rule.channelSpread, length_positions]

/-- The entries point at channels that there are, so that the map is one from
    channels to places. -/
theorem check_channelSpread [Scalar α] (hc : l.channel? dims = some channels) :
    (Transform.sparse (Rule.channelSpread l dims channels) : Transform α).check channels
      (volume dims) = .ok () := by
  have hrows : (Rule.channelSpread l dims channels : SparseTransform α).rows = volume dims := by
    simp [Rule.channelSpread, length_positions]
  refine Transform.check_eq_ok.2 ⟨_, _, rfl, rfl, rfl, hrows, bind_eq_ok.2 ⟨(), ?_, ?_⟩⟩
  · rw [require_eq_ok, indices_channelSpread, values_channelSpread]
    simp [length_positions]
  · rw [require_eq_ok, indices_channelSpread, hrows, List.all_map, List.all_eq_true]
    intro p hp
    have hchannel := getD_lt_of_mem_positions hp (Layout.channelAxis_lt hc)
    rw [Layout.getD_channelAxis hc] at hchannel
    simpa using ⟨offset_lt hp, hchannel⟩

end

section
variable [Field α] [LinearOrder α] [Elementary α] [Printed α] {l : Layout} {dims : List Nat}
  {bias : List α}

/-- A relay of the biases, spread over the places of their channels. -/
theorem exists_relayed (hc : l.channel? dims = some bias.length)
    (hbias : requireRoom valueBytes [bias.length] = .ok ())
    (hroom : requireRoom valueBytes [volume dims] = .ok ()) : ∃ relay spreaded,
      (Transform.dense (Table.ofColumn bias)).apply (Table.ofRow [1]) = .ok relay ∧
      (Transform.sparse (Rule.channelSpread l dims bias.length)).apply relay = .ok spreaded ∧
      spreaded.row 0 = (positions dims).map fun p =>
        bias.getD (p.getD (l.channelAxis dims.length) 0) 0 := by
  obtain ⟨relay, hrelay, hread⟩ := apply_dense (Table.ofColumn bias) (Table.reads_ofRow [(1 : α)])
    ((requireRoom_cons_one _ _).trans hbias)
  obtain ⟨_, _, -, -, -, -, hentries⟩ := Transform.check_eq_ok.1 (check_channelSpread (α := α) hc)
  obtain ⟨spreaded, hspreaded, hvalues⟩ := apply_channelSpread (f := fun _ j => bias.getD j 0)
    (hread.congr fun i _ j _ => by simp [Table.dot, Table.ofColumn, Table.value]) hentries
    ((requireRoom_cons_one _ _).trans hroom)
  refine ⟨relay, spreaded, hrelay, hspreaded, ?_⟩
  rw [hvalues.row_eq Nat.one_pos]
  exact List.map_congr_left fun p hp => by rw [coordinate_offset hp]

end

/-! ## Layers -/

namespace Conv
variable [Field α] [LinearOrder α] [Elementary α] [Printed α] {c : Conv α} {dims : List Nat}
  {x y : Grid α}

/-- What a layer makes of a sample before its activation. -/
def preactivation (c : Conv α) (x : Grid α) : Outcome (Grid α) := do
  let y ← convolve c.layout c.geometry x c.kernel
  return c.bias.elim y (addBias c.layout · y)

/-- The convolution on the wire from samples with dimensions `dims`. -/
def transform (c : Conv α) (dims : List Nat) : ConvolutionTransform α :=
  ⟨c.filters, dims, c.kernelSize, c.strides, c.padding, c.layout, c.kernel⟩

/-- What the target of a layer receives for the values of a sample with dimensions
    `dims`, as `Rule.convertConv` and `Rule.wireBiases` wire it: the convolved values
    and, if there are biases, those of the relay, spread over the positions of samples
    with dimensions `out`. -/
def received (c : Conv α) (dims out : List Nat) (row : List α) : Outcome (List α) := do
  let convolved ← (Transform.convolution (← Rule.convTransform c dims)).apply (Table.ofRow row)
  match c.bias with
  | none => return convolved.row 0
  | some bias =>
    let relay ← (Transform.dense (Table.ofColumn bias)).apply (Table.ofRow [1])
    let spreaded ← (Transform.sparse (Rule.channelSpread c.layout out c.filters)).apply relay
    return List.zipWith (· + ·) (spreaded.row 0) (convolved.row 0)

omit [Field α] [LinearOrder α] [Elementary α] [Printed α] in
theorem shape_kernel (c : Conv α) : c.kernel.shape = c.kernelSize ++ [c.channels, c.filters] := by
  have hrank : c.kernel.shape.length = c.rank + 2 :=
    (Nat.sub_add_cancel (Nat.le_of_succ_le c.rank_kernel.1)).symm
  rw [kernelSize, channels, filters, ← drop_eq_pair hrank, List.take_append_drop]

/-- The windows of a layer slide without gaps over samples with dimensions `dims`,
    and its kernel has their channels. -/
structure Covers (c : Conv α) (dims : List Nat) (axes : List SlidingAxis) : Prop where
  undilated : c.dilationRate = List.replicate c.rank 1
  channels : c.layout.channel? dims = some c.channels
  windows : (c.layout.spatial dims).length = c.rank
  sliding : c.geometry.axes (c.layout.spatial dims) = .ok axes

namespace Covers
variable {axes : List SlidingAxis} {ct : ConvolutionTransform α}

section
omit [Field α] [LinearOrder α] [Elementary α] [Printed α]

theorem taps (h : c.Covers dims axes) : ∀ k ∈ c.kernelSize, 0 < k := fun k hk => by
  obtain ⟨i, hi, rfl⟩ := List.mem_iff_getElem.1 hk
  have hlt : i < (c.layout.spatial dims).length := by rwa [h.windows, ← c.length_kernelSize]
  obtain ⟨k, dil, s, a, hk, -, -, ha, -⟩ :=
    (Geometry.axes_eq_ok h.sliding).2 i _ (List.getElem?_eq_getElem hlt)
  obtain rfl := Option.some.inj ((List.getElem?_eq_getElem hi).symm.trans hk)
  exact (Padding.axis_pos ha).1

theorem slides (h : c.Covers dims axes) (hs : c.strides.length = c.rank) :
    c.geometry.Slides (c.layout.spatial dims) := by
  refine ⟨c.length_kernelSize.trans h.windows.symm, hs.trans h.windows.symm, ?_, fun s hmem => ?_⟩
  · rw [h.windows, geometry, h.undilated, List.length_replicate]
  · obtain ⟨i, hi, rfl⟩ := List.mem_iff_getElem.1 hmem
    have hlt : i < (c.layout.spatial dims).length := by rwa [h.windows, ← hs]
    obtain ⟨k, dil, s, a, -, -, hstride, ha, -⟩ :=
      (Geometry.axes_eq_ok h.sliding).2 i _ (List.getElem?_eq_getElem hlt)
    obtain rfl := Option.some.inj ((List.getElem?_eq_getElem hi).symm.trans hstride)
    exact (Padding.axis_pos ha).2

/-- The convolution on the wire is made if there is a stride for every axis. -/
theorem convTransform_eq_ok (h : c.Covers dims axes) :
    Rule.convTransform c dims = .ok ct ↔ c.strides.length = c.rank ∧ ct = c.transform dims := by
  have hlength : dims.length = c.rank + 1 := by
    rw [← Layout.join_spatial h.channels, Layout.length_join, h.windows]
  have hkernel : c.kernel.shape = c.kernelSize ++ [(c.layout.channel? dims).getD 0, c.filters] := by
    rw [h.channels]
    exact c.shape_kernel
  simp only [Rule.convTransform, ConvolutionTransform.make, bind_eq_ok, require_eq_ok, pure_eq_ok]
  constructor
  · rintro ⟨_, ⟨-, hs⟩, _, -, rfl⟩
    exact ⟨hs.trans c.length_kernelSize, rfl⟩
  · rintro ⟨hs, rfl⟩
    exact ⟨(), ⟨c.length_kernelSize.symm ▸ hlength, hs.trans c.length_kernelSize.symm⟩, (), hkernel,
      rfl⟩

theorem geometry_transform (h : c.Covers dims axes) :
    (c.transform dims).geometry = c.geometry := by
  rw [ConvolutionTransform.geometry, geometry, h.undilated, ← c.length_kernelSize]
  rfl

theorem wellFormed (h : c.Covers dims axes) (hs : c.strides.length = c.rank) :
    (c.transform dims).WellFormed :=
  ⟨h.convTransform_eq_ok.2 ⟨hs, rfl⟩, h.taps, (h.slides hs).moves⟩

end

omit [LinearOrder α] [Elementary α] [Printed α] in
/-- A sample is convolved if there is a stride for every axis and its windows fit. -/
theorem exists_convolved_iff (h : c.Covers x.shape axes) :
    (∃ z, convolve c.layout c.geometry x c.kernel = .ok z) ↔
      c.strides.length = c.rank ∧ c.geometry.Fits (c.layout.spatial x.shape) c.filters := by
  have haccepts (hs : c.strides.length = c.rank) : c.geometry.Accepts (x.toLast c.layout) c.kernel
      (c.layout.spatial x.shape) c.channels c.filters :=
    { h.slides hs with
      input := (List.dropLast_append_getLast? _ h.channels).symm
      kernel := c.shape_kernel }
  constructor
  · rintro ⟨z, hz⟩
    obtain ⟨y, hy, -⟩ := Grid.throughLast_eq_ok hz
    obtain ⟨ds, _, _, _, haccepted, -⟩ := convolveLast_eq_ok hy
    obtain rfl : c.layout.spatial x.shape = ds :=
      (congrArg List.dropLast haccepted.input).trans List.dropLast_concat
    have hs : c.strides.length = c.rank := haccepted.strides.trans h.windows
    exact ⟨hs, (((haccepts hs).convolveLast_eq_ok_iff h.taps).1 hy).1⟩
  · rintro ⟨hs, hfits⟩
    exact ⟨_, Grid.throughLast_of_channel h.channels
      (((haccepts hs).convolveLast_eq_ok_iff h.taps).2 ⟨hfits, rfl⟩)⟩

omit [LinearOrder α] [Elementary α] [Printed α] in
/-- The convolution on the wire makes of the values of a sample those of the
    convolved sample. -/
theorem convolved_row_iff (h : c.Covers x.shape axes) (ha : addressable x.shape) {v : List α} :
    (∃ ct u, Rule.convTransform c x.shape = .ok ct ∧
      (Transform.convolution ct).apply (Table.ofRow x.toList) = .ok u ∧ u.row 0 = v) ↔
      ∃ z, convolve c.layout c.geometry x c.kernel = .ok z ∧ z.toList = v := by
  have hrow : x.toList.length = volume (c.transform x.shape).inputShape := x.size_cells
  have happly (hs : c.strides.length = c.rank) :=
    (h.wellFormed hs).apply_ofRow_iff ha hrow (v := v)
  simp only [ConvolutionTransform.applyRow_toList (c := c.transform x.shape) rfl ha,
    h.geometry_transform] at happly
  constructor
  · rintro ⟨ct, u, hct, hu⟩
    obtain ⟨hs, rfl⟩ := h.convTransform_eq_ok.1 hct
    exact (happly hs).1 ⟨u, hu⟩
  · rintro ⟨z, hz⟩
    have hs := (h.exists_convolved_iff.1 ⟨z, hz.1⟩).1
    obtain ⟨u, hu⟩ := (happly hs).2 ⟨z, hz⟩
    exact ⟨_, u, h.convTransform_eq_ok.2 ⟨hs, rfl⟩, hu⟩

omit [LinearOrder α] [Elementary α] [Printed α] in
/-- The convolved sample has a value for every window and filter, which memory can
    hold. -/
theorem shape_convolved (h : c.Covers x.shape axes)
    (hz : convolve c.layout c.geometry x c.kernel = .ok y) :
    y.shape = c.layout.join c.filters (outputDims axes) ∧ requireRoom valueBytes y.shape = .ok () := by
  obtain ⟨axes', haxes, hshape⟩ := shape_convolve hz
  obtain rfl := Except.ok.inj (h.sliding.symm.trans haxes)
  rw [h.windows] at hshape
  obtain ⟨hs, hfits⟩ := h.exists_convolved_iff.1 ⟨y, hz⟩
  obtain ⟨-, hsliding⟩ := ((h.slides hs).axes_eq_ok_iff h.taps).1 h.sliding
  refine ⟨hshape, ?_⟩
  rw [hshape, requireRoom_perm (c.layout.join_perm _ _), hsliding, Geometry.outputDims_sliding]
  exact hfits.output

end Covers

omit [LinearOrder α] [Elementary α] [Printed α] in
/-- The biases of the channels are added to the values in a row. -/
theorem toList_addBias (l : Layout) (bias : List α) (y : Grid α) :
    (addBias l bias y).toList = List.zipWith (· + ·)
      ((positions y.shape).map fun p => bias.getD (p.getD (l.channelAxis y.shape.length) 0) 0)
      y.toList := by
  rw [y.toList_eq, addBias_eq, List.zipWith_map, List.zipWith_self]
  exact List.map_congr_left fun p _ => add_comm _ _

/-- The target receives what the layer makes before its activation. -/
theorem Covers.received_eq_ok_iff {axes : List SlidingAxis} (h : c.Covers x.shape axes)
    (ha : addressable x.shape)
    (hbias : ∀ bias ∈ c.bias, requireRoom valueBytes [bias.length] = .ok ()) {zs : List α} :
    c.received x.shape (c.layout.join c.filters (outputDims axes)) x.toList = .ok zs ↔
      ∃ z, c.preactivation x = .ok z ∧ zs = z.toList := by
  have hconvolved := fun v => h.convolved_row_iff ha (v := v)
  simp only [received, preactivation, bind_eq_ok]
  cases hb : c.bias with
  | none =>
    simp only [pure_eq_ok, Option.elim_none]
    constructor
    · rintro ⟨ct, hct, u, hu, rfl⟩
      obtain ⟨z, hz, hzu⟩ := (hconvolved _).1 ⟨ct, u, hct, hu, rfl⟩
      exact ⟨z, ⟨z, hz, rfl⟩, hzu.symm⟩
    · rintro ⟨_, ⟨z, hz, rfl⟩, rfl⟩
      obtain ⟨ct, u, hct, hu, hrow⟩ := (hconvolved _).2 ⟨z, hz, rfl⟩
      exact ⟨ct, hct, u, hu, hrow⟩
  | some bias =>
    have hfilters := length_bias_eq hb
    -- what the biases add is known as soon as there is a convolved sample
    have hrelayed : ∀ {z}, convolve c.layout c.geometry x c.kernel = .ok z → ∃ relay spreaded,
        (Transform.dense (Table.ofColumn bias)).apply (Table.ofRow [1]) = .ok relay ∧
        (Transform.sparse (Rule.channelSpread c.layout
          (c.layout.join c.filters (outputDims axes)) c.filters)).apply relay = .ok spreaded ∧
        List.zipWith (· + ·) (spreaded.row 0) z.toList = (addBias c.layout bias z).toList := by
      intro z hz
      obtain ⟨hshape, hroom⟩ := h.shape_convolved hz
      have hchannels : c.layout.channel? z.shape = some bias.length := by
        rw [hshape, Layout.channel?_join, hfilters]
      obtain ⟨relay, spreaded, hrelay, hspreaded, hrow⟩ := exists_relayed hchannels
        (hbias bias hb) (requireRoom_single.2 (requireRoom_eq_ok.1 hroom).2)
      rw [hshape, hfilters] at hspreaded
      exact ⟨relay, spreaded, hrelay, hspreaded, by rw [toList_addBias, hrow]⟩
    simp only [bind_eq_ok, pure_eq_ok, Option.elim_some]
    constructor
    · rintro ⟨ct, hct, u, hu, relay, hrelay, spreaded, hspreaded, rfl⟩
      obtain ⟨z, hz, hzu⟩ := (hconvolved _).1 ⟨ct, u, hct, hu, rfl⟩
      obtain ⟨relay', spreaded', hrelay', hspreaded', hsum⟩ := hrelayed hz
      obtain rfl := Except.ok.inj (hrelay.symm.trans hrelay')
      obtain rfl := Except.ok.inj (hspreaded.symm.trans hspreaded')
      exact ⟨_, ⟨z, hz, rfl⟩, hzu ▸ hsum⟩
    · rintro ⟨_, ⟨z, hz, rfl⟩, rfl⟩
      obtain ⟨ct, u, hct, hu, hrow⟩ := (hconvolved _).2 ⟨z, hz, rfl⟩
      obtain ⟨relay, spreaded, hrelay, hspreaded, hsum⟩ := hrelayed hz
      exact ⟨ct, hct, u, hu, relay, hrelay, spreaded, hspreaded, hrow ▸ hsum⟩

/-- **Biases are relayed.**  Of samples that a layer without dilation accepts, the
    sparse transform has one entry for every position of the inferred shape, which
    points at the channel of the position, and passes its check.  The layer applies
    its activation to what it makes of each sample before; this exists if and only if
    there is a stride for every axis and the windows fit, and then the values are
    those that the target receives. -/
theorem relayed {s : Shape} {outs : List Shape} (hd : c.dilationRate = List.replicate c.rank 1)
    (hs : s.Samples dims) (ho : c.outputShapes [s] = .ok outs) : ∃ out s', outs = [s'] ∧
      s'.Samples out ∧
      (Rule.channelSpread c.layout out c.filters : SparseTransform α).indices =
        (positions out).map (fun p => (offset out p, p.getD (c.layout.channelAxis out.length) 0)) ∧
      (Rule.channelSpread c.layout out c.filters : SparseTransform α).values =
        List.replicate (volume out) 1 ∧
      (Transform.sparse (Rule.channelSpread c.layout out c.filters) : Transform α).check c.filters
        (volume out) = .ok () ∧
      (∀ x, c.forward [x] = do return [← c.activation.apply (← x.mapSamples c.preactivation)]) ∧
      ∀ x : Grid α, x.shape = dims → addressable dims →
        (∀ bias ∈ c.bias, requireRoom valueBytes [bias.length] = .ok ()) →
        ((∃ z, c.preactivation x = .ok z) ↔ c.strides.length = c.rank ∧
          c.geometry.Fits (c.layout.spatial dims) c.filters) ∧
        ∀ zs, c.received dims out x.toList = .ok zs ↔
          ∃ z, c.preactivation x = .ok z ∧ zs = z.toList := by
  obtain ⟨axes, s', hchannels, hwindows, haxes, rfl, hs'⟩ := exists_axes hs ho
  refine ⟨_, s', rfl, hs', indices_channelSpread, values_channelSpread,
    check_channelSpread (Layout.channel?_join ..), fun x => rfl, fun x hx ha hbias => ?_⟩
  subst hx
  have h : c.Covers x.shape axes := ⟨hd, hchannels, hwindows, haxes⟩
  refine ⟨?_, fun zs => h.received_eq_ok_iff ha hbias⟩
  rw [← h.exists_convolved_iff]
  constructor
  · rintro ⟨_, hz⟩
    obtain ⟨z, hz, -⟩ := bind_eq_ok.1 hz
    exact ⟨z, hz⟩
  · rintro ⟨z, hz⟩
    exact ⟨_, bind_eq_ok.2 ⟨z, hz, rfl⟩⟩

/-- Differences and weighted sums of neighbours, with a bias for each, in two
    channels that come first. -/
def twoFilters : Conv ℚ where
  kernel := ⟨[2, 1, 2], #[1, 2, -1, 1], rfl⟩
  bias := some [10, 20]
  activation := .linear
  strides := [1]
  dilationRate := [1]
  padding := .same
  layout := .channelsFirst
  regularization := default
  rank_kernel := by decide
  length_bias := by rintro _ ⟨⟩; rfl

/-- Three values, of which the last has only padding behind it. -/
theorem relayed_twoFilters : twoFilters.dilationRate = List.replicate twoFilters.rank 1 ∧
    Shape.Samples ⟨[none, some 1, some 3]⟩ [1, 3] ∧
    twoFilters.outputShapes [⟨[none, some 1, some 3]⟩] = .ok [⟨[none, some 2, some 3]⟩] ∧
    (∀ bias ∈ twoFilters.bias, requireRoom valueBytes [bias.length] = .ok ()) ∧
    (Rule.channelSpread .channelsFirst [2, 3] 2 : SparseTransform ℚ).indices =
      [(0, 0), (1, 0), (2, 0), (3, 1), (4, 1), (5, 1)] ∧
    ∃ z, twoFilters.preactivation ⟨[1, 3], #[1, 2, 4], rfl⟩ = .ok z ∧
      z.toList = [9, 8, 14, 24, 28, 28] ∧
      twoFilters.received [1, 3] [2, 3] [1, 2, 4] = .ok [9, 8, 14, 24, 28, 28] := by
  have hs : Shape.Samples ⟨[none, some 1, some 3]⟩ [1, 3] := ⟨none, rfl⟩
  have ho : twoFilters.outputShapes [⟨[none, some 1, some 3]⟩] =
      .ok [⟨[none, some 2, some 3]⟩] := rfl
  have hbias : ∀ bias ∈ twoFilters.bias, requireRoom valueBytes [bias.length] = .ok () := by
    rintro _ ⟨⟩
    rfl
  obtain ⟨out, s', hsingle, hs', hindices, -, -, -, h⟩ := relayed rfl hs ho
  obtain rfl := List.singleton_inj.1 hsingle
  obtain rfl := hs'.unique (⟨none, rfl⟩ : Shape.Samples ⟨[none, some 2, some 3]⟩ [2, 3])
  have hvalues : (twoFilters.preactivation ⟨[1, 3], #[1, 2, 4], rfl⟩).toOption.map Grid.toList =
      some [9, 8, 14, 24, 28, 28] := by decide +kernel
  obtain ⟨z, hz, hlist⟩ := Option.map_eq_some_iff.1 hvalues
  have hz := toOption_eq_some.1 hz
  have hreceived := ((h ⟨[1, 3], #[1, 2, 4], rfl⟩ rfl rfl hbias).2 z.toList).2 ⟨z, hz, rfl⟩
  rw [hlist] at hreceived
  exact ⟨rfl, hs, ho, hbias, hindices.trans (by decide), z, hz, hlist, hreceived⟩

end Conv
end Neuroform

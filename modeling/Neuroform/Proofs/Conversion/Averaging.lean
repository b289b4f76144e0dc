/-
  Neuroform — average poolings are convolutions.

  The convolution that replaces an average pooling in a network is made whenever
  its window has the axes of the samples and memory can hold its kernel
  (`Pool.Converts`).  It then gives, for the values of every sample in a row,
  the values of the pooled sample in a row.
-/
import Neuroform.Proofs.Conversion.Pooling
import Neuroform.Proofs.Pooling

namespace Neuroform

/-! ## Sizes without padding -/

theorem ceilDiv_le (n step : Nat) : ceilDiv n step ≤ n := by
  rcases Nat.eq_zero_or_pos (ceilDiv n step) with h | h
  · omega
  have hlast := ceilDiv_lt h
  rcases Nat.eq_zero_or_pos step with rfl | hs
  · have hone : ceilDiv n 0 ≤ 1 := by
      unfold ceilDiv
      split <;> simp
    omega
  · have := Nat.le_mul_of_pos_right (ceilDiv n step - 1) hs
    omega

/-- Without padding there are no more windows than cells. -/
theorem WindowAxis.output_valid_le (w : WindowAxis) : w.output .valid ≤ w.length := by
  have hreach : 0 < w.reach := Nat.succ_pos _
  exact (ceilDiv_le _ _).trans (by omega)

/-- Without padding a tap lies where its coordinate says. -/
theorem not_fallsShort_valid : ∀ {ws : List WindowAxis} {o k : List Nat},
    ¬ FallsShort .valid ws o k
  | [], _, _ | _ :: _, [], _ | _ :: _, _ :: _, [] => id
  | w :: ws, o :: os, k :: ks => by
    have hbefore : w.before .valid = 0 := Nat.zero_div 2
    rintro (⟨hlt, hle⟩ | ⟨-, hrest⟩)
    · rw [hbefore] at hle
      omega
    · exact not_fallsShort_valid hrest

/-- A box that is no longer on any axis than one that has cells needs no more
    memory. -/
theorem requireRoom_le {bytes : Nat} {ds es : List Nat} (h : List.Forall₂ (· ≤ ·) ds es)
    (hpos : ∀ e ∈ es, 0 < e) (hroom : requireRoom bytes es = .ok ()) :
    requireRoom bytes ds = .ok () := by
  have hle : volume (ds.filter (0 < ·)) ≤ volume es := by
    clear hroom
    induction h with
    | nil => exact le_rfl
    | @cons d e ds es hd _ ih =>
      have ih := ih fun e he => hpos e (List.mem_cons_of_mem _ he)
      rw [List.filter_cons]
      split
      · exact Nat.mul_le_mul hd ih
      · exact ih.trans (Nat.le_mul_of_pos_left _ (hpos e (by simp)))
  have hself : es.filter (0 < ·) = es := List.filter_eq_self.2 fun e he => by simpa using hpos e he
  obtain ⟨ha, hlt⟩ := requireRoom_eq_ok.1 hroom
  have ha : volume (es.filter (0 < ·)) < Word.signLimit := of_decide_eq_true ha
  rw [hself] at ha
  exact requireRoom_eq_ok.2 ⟨decide_eq_true (hle.trans_lt ha),
    (Nat.mul_le_mul_right _ ((volume_le_filter_pos ds).trans hle)).trans_lt hlt⟩

/-- Parts of a box are boxes. -/
theorem addressable_append {ds es : List Nat} (h : addressable (ds ++ es)) : addressable ds := by
  have hlt : volume ((ds ++ es).filter (0 < ·)) < Word.signLimit := of_decide_eq_true h
  rw [List.filter_append, volume_append] at hlt
  exact decide_eq_true ((Nat.le_mul_of_pos_right _ (volume_filter_pos es)).trans_lt hlt)

theorem requireRoom_append {bytes : Nat} {es : List Nat} : ∀ {ds : List Nat}, (∀ d ∈ ds, 0 < d) →
    requireRoom bytes (ds ++ es) = .ok () → requireRoom bytes es = .ok ()
  | [], _, h => h
  | _ :: _, hpos, h => requireRoom_append (fun d hd => hpos d (List.mem_cons_of_mem _ hd))
    (requireRoom_tail (hpos _ (by simp)) h)

/-- Windows without padding or gaps fit if the input does. -/
theorem Geometry.Slides.fits_valid {g : Geometry} {dims : List Nat} {channels : Nat}
    (h : g.Slides dims) (hg : g.padding = .valid) (hk : ∀ k ∈ g.kernel, 0 < k)
    (hlimit : ∀ k ∈ g.kernel, k < Word.signLimit) (hone : ∀ d ∈ g.dilations, d = 1)
    (hpos : ∀ d ∈ dims ++ [channels], 0 < d)
    (hroom : requireRoom valueBytes (dims ++ [channels]) = .ok ()) : g.Fits dims channels := by
  obtain ⟨hlengths, -⟩ := h.windowAxes_map
  have haddressable := (requireRoom_eq_ok.1 hroom).1
  refine ⟨fun w hw => ?_, requireRoom_le ?_ hpos hroom, fun _ _ _ _ => hg ▸ not_fallsShort_valid⟩
  · obtain ⟨hn, hkernel, hd, -⟩ := mem_windowAxes hw
    have hlength := lt_of_addressable haddressable (List.mem_append_left _ hn)
    have hpositive := hk _ hkernel
    have hkernel := hlimit _ hkernel
    have hlimits : Word.signLimit < Word.limit := by decide
    rw [hg]
    constructor
    · rw [WindowAxis.reach, hone _ hd]
      omega
    · rw [WindowAxis.extent]
      omega
  · refine List.rel_append ?_ (.cons le_rfl .nil)
    conv_rhs => rw [← hlengths]
    rw [outputs, List.forall₂_map_left_iff, List.forall₂_map_right_iff, List.forall₂_same, hg]
    exact fun w _ => w.output_valid_le

/-! ## Poolings that convert -/

section
variable {α : Type} [Field α] [LinearOrder α] [Elementary α] [Printed α] {p : Pool}
  {dims : List Nat} {x : Grid α}

/-- What a pooling makes of one sample. -/
def Pool.sampled (p : Pool) (x : Grid α) : Outcome (Grid α) :=
  match p.extent with
  | .everywhere _ => globalPool p.layout p.kind x
  | .windows size strides padding => pool p.layout (Pool.windows size strides padding) p.kind x

/-- The window of a pooling has the axes of samples with dimensions `dims`, and
    memory can hold the kernel that averages over it. -/
structure Pool.Converts (p : Pool) (dims : List Nat) : Prop where
  windows : dims.length = (Rule.poolWindow p dims).1.length + 1
  strides : (Rule.poolWindow p dims).2.length = (Rule.poolWindow p dims).1.length
  kernel : ∀ c ∈ p.layout.channel? dims,
    requireRoom valueBytes ((Rule.poolWindow p dims).1 ++ [c, c]) = .ok ()

namespace Pool
variable {ct : ConvolutionTransform α} {channels : Nat}

/-- What converts is converted. -/
theorem exists_poolTransform (hk : ∀ k ∈ (Rule.poolWindow p dims).1, 0 < k) :
    (∃ ct : ConvolutionTransform α, Rule.poolTransform p dims = .ok ct) ↔ p.Converts dims := by
  constructor
  · rintro ⟨ct, h⟩
    simp only [Rule.poolTransform, bind_eq_ok, orFault_eq_ok, require_eq_ok] at h
    obtain ⟨channels, hchannels, -, -, ⟨⟩, -, ⟨⟩, -, ⟨⟩, hroom, hmake⟩ := h
    obtain ⟨_, hranks, -⟩ := bind_eq_ok.1 hmake
    obtain ⟨hwindows, hstrides⟩ := require_eq_ok.1 hranks
    refine ⟨hwindows, hstrides, fun c hc => ?_⟩
    obtain rfl := Option.some.inj (hc.symm.trans hchannels)
    exact hroom
  · intro h
    obtain ⟨channels, hchannels⟩ : ∃ channels, p.layout.channel? dims = some channels := by
      refine Option.isSome_iff_exists.1 (List.getLast?_isSome.2 fun hnil => ?_)
      have hlength := p.layout.length_toLast dims
      rw [hnil, h.windows] at hlength
      simp at hlength
    have hroom := h.kernel channels hchannels
    have hproduct := product_of_addressable (addressable_append (requireRoom_eq_ok.1 hroom).1)
    have hvolume : 0 < volume (Rule.poolWindow p dims).1 := List.prod_pos hk
    refine ⟨_, bind_eq_ok.2 ⟨channels, orFault_eq_ok.2 hchannels, bind_eq_ok.2 ⟨_, hproduct,
      bind_eq_ok.2 ⟨(), require_eq_ok.2 hvolume, bind_eq_ok.2 ⟨(), requireRoom_append hk hroom,
        bind_eq_ok.2 ⟨(), hroom, bind_eq_ok.2 ⟨(), require_eq_ok.2 ⟨h.windows, h.strides⟩,
          bind_eq_ok.2 ⟨(), require_eq_ok.2 ?_, rfl⟩⟩⟩⟩⟩⟩⟩⟩
    rw [hchannels]
    rfl

/-- The windows of a pooling, as those of a convolution. -/
def geometry (p : Pool) (dims : List Nat) : Geometry :=
  Pool.windows (Rule.poolWindow p dims).1 (Rule.poolWindow p dims).2 .valid

theorem Converts.slides (h : p.Converts dims) (hs : ∀ s ∈ (Rule.poolWindow p dims).2, 0 < s) :
    (p.geometry dims).Slides (p.layout.spatial dims) := by
  have hspatial : (Rule.poolWindow p dims).1.length = (p.layout.spatial dims).length := by
    rw [p.layout.length_spatial, h.windows, Nat.add_sub_cancel]
  exact ⟨hspatial, h.strides.trans hspatial, List.length_replicate.trans hspatial, hs⟩

/-- The windows of a pooling that converts fit its samples. -/
theorem Converts.fits (h : p.Converts dims) (hchannels : p.layout.channel? dims = some channels)
    (hk : ∀ k ∈ (Rule.poolWindow p dims).1, 0 < k) (hs : ∀ s ∈ (Rule.poolWindow p dims).2, 0 < s)
    (hpos : ∀ d ∈ dims, 0 < d) (hroom : requireRoom valueBytes dims = .ok ()) :
    (p.geometry dims).Fits (p.layout.spatial dims) channels := by
  have hlast : p.layout.spatial dims ++ [channels] = p.layout.toLast dims :=
    List.dropLast_append_getLast? _ hchannels
  have hkernel := (requireRoom_eq_ok.1 (h.kernel channels hchannels)).1
  refine (h.slides hs).fits_valid rfl hk
    (fun k hk => lt_of_addressable hkernel (List.mem_append_left _ hk))
    (fun d hd => (List.mem_replicate.1 hd).2) (fun d hd => hpos d ?_) ?_
  · exact (p.layout.toLast_perm dims).mem_iff.1 (hlast ▸ hd)
  · rwa [hlast, requireRoom_perm (p.layout.toLast_perm dims)]

omit [Printed α] in
/-- Whole channels are pooled to one value each. -/
theorem exists_sampled_everywhere {rank : Nat} (hextent : p.extent = .everywhere rank)
    (hrank : 2 ≤ x.rank) (hchannels : p.layout.channel? x.shape = some channels)
    (hk : ∀ k ∈ p.layout.spatial x.shape, 0 < k)
    (hslides : (p.geometry x.shape).Slides (p.layout.spatial x.shape))
    (hfits : (p.geometry x.shape).Fits (p.layout.spatial x.shape) channels) :
    ∃ z, p.sampled x = .ok z ∧ requireRoom valueBytes z.shape = .ok () ∧
      volume z.shape = volume
        (p.layout.join channels ((p.geometry x.shape).outputs (p.layout.spatial x.shape))) := by
  have hgeometry : p.geometry x.shape = ⟨p.layout.spatial x.shape,
      List.replicate (p.layout.spatial x.shape).length 1,
      List.replicate (p.layout.spatial x.shape).length 1, .valid⟩ := by
    rw [geometry, Rule.poolWindow, hextent]
    rfl
  have haxes := (hslides.axes_eq_ok_iff (by rwa [hgeometry])).2 ⟨hfits.axes, rfl⟩
  obtain ⟨hones, -⟩ := axes_everywhere hgeometry haxes hk
  rw [Geometry.outputDims_sliding] at hones
  have houtput := hfits.output
  rw [hones, ← requireRoom_perm (p.layout.join_perm _ _), requireRoom_ones] at houtput
  have hcount : x.shape.getD (p.layout.channelAxis x.rank) 0 = channels :=
    Layout.getD_channelAxis hchannels
  obtain ⟨z, hz, hshape⟩ : ∃ z, globalPool p.layout p.kind x = .ok z ∧ z.shape = [channels] := by
    refine ⟨_, bind_eq_ok.2 ⟨(), require_eq_ok.2 hrank,
      bind_eq_ok.2 ⟨(), hcount.symm ▸ houtput, rfl⟩⟩, ?_⟩
    simp only [Grid.ofList, List.length_map, List.length_range, hcount]
  refine ⟨z, by rwa [sampled, hextent], hshape ▸ houtput, ?_⟩
  rw [hones, hshape, Layout.volume_join, volume_ones, volume_cons, volume_nil, mul_one, one_mul]

omit [Printed α] in
/-- Windows that fit are pooled. -/
theorem exists_sampled_windows {size strides : List Nat}
    (hextent : p.extent = .windows size strides .valid)
    (hchannels : p.layout.channel? x.shape = some channels)
    (hk : ∀ k ∈ (p.geometry x.shape).kernel, 0 < k)
    (hslides : (p.geometry x.shape).Slides (p.layout.spatial x.shape))
    (hfits : (p.geometry x.shape).Fits (p.layout.spatial x.shape) channels) :
    ∃ z, p.sampled x = .ok z ∧ requireRoom valueBytes z.shape = .ok () ∧
      volume z.shape = volume
        (p.layout.join channels ((p.geometry x.shape).outputs (p.layout.spatial x.shape))) := by
  have hgeometry : p.geometry x.shape = Pool.windows size strides .valid := by
    rw [geometry, Rule.poolWindow, hextent]
  have hx : (x.toLast p.layout).shape = p.layout.spatial x.shape ++ [channels] :=
    (List.dropLast_append_getLast? _ hchannels).symm
  obtain ⟨y, hy⟩ : ∃ y, poolLast (p.geometry x.shape) p.kind (x.toLast p.layout) = .ok y :=
    ⟨_, (hslides.poolLast_eq_ok_iff hx hk).2 ⟨hfits, rfl⟩⟩
  have hshape : (y.fromLast p.layout).shape = p.layout.join channels
      ((p.geometry x.shape).outputs (p.layout.spatial x.shape)) := by
    rw [((hslides.poolLast_eq_ok_iff hx hk).1 hy).2]
    rfl
  refine ⟨y.fromLast p.layout, ?_, ?_, congrArg volume hshape⟩
  · rw [sampled, hextent]
    exact Grid.throughLast_of_channel hchannels (hgeometry ▸ hy)
  · rw [hshape, requireRoom_perm (p.layout.join_perm _ _)]
    exact hfits.output

omit [Printed α] in
/-- Samples of a pooling that converts are pooled, and there are as many values
    as windows and channels. -/
theorem Converts.exists_sampled (h : p.Converts x.shape) (hp : p.Averages)
    (hrank : p.isGlobal → 2 ≤ x.rank) (hchannels : p.layout.channel? x.shape = some channels)
    (hk : ∀ k ∈ (Rule.poolWindow p x.shape).1, 0 < k)
    (hs : ∀ s ∈ (Rule.poolWindow p x.shape).2, 0 < s)
    (hfits : (p.geometry x.shape).Fits (p.layout.spatial x.shape) channels) :
    ∃ z, p.sampled x = .ok z ∧ requireRoom valueBytes z.shape = .ok () ∧
      volume z.shape = volume
        (p.layout.join channels ((p.geometry x.shape).outputs (p.layout.spatial x.shape))) := by
  cases hextent : p.extent with
  | everywhere rank =>
    have hk' : ∀ k ∈ p.layout.spatial x.shape, 0 < k := by
      rwa [Rule.poolWindow, hextent] at hk
    exact exists_sampled_everywhere hextent (hrank (by rw [isGlobal, hextent])) hchannels hk'
      (h.slides hs) hfits
  | windows size strides padding =>
    obtain rfl := hp.valid _ _ _ hextent
    exact exists_sampled_windows hextent hchannels hk (h.slides hs) hfits

/-- The convolution has as many values as windows and channels. -/
theorem Converts.sizeOut_eq (h : p.Converts dims) (hct : Rule.poolTransform p dims = .ok ct)
    (hchannels : p.layout.channel? dims = some channels)
    (hk : ∀ k ∈ (Rule.poolWindow p dims).1, 0 < k) (hs : ∀ s ∈ (Rule.poolWindow p dims).2, 0 < s)
    (hfits : (p.geometry dims).Fits (p.layout.spatial dims) channels) :
    ct.sizeOut = .ok (volume
      (p.layout.join channels ((p.geometry dims).outputs (p.layout.spatial dims)))) := by
  obtain ⟨_, hchannels', -, rfl, -⟩ := poolTransform_eq_ok hct
  obtain rfl := Option.some.inj (hchannels'.symm.trans hchannels)
  have houtput := hfits.output
  rw [← requireRoom_perm (p.layout.join_perm _ _)] at houtput
  refine bind_eq_ok.2 ⟨_, ?_, product_of_addressable (requireRoom_eq_ok.1 houtput).1⟩
  rw [← Geometry.outputDims_sliding]
  exact bind_eq_ok.2 ⟨_, ((h.slides hs).axes_eq_ok_iff hk).2 ⟨hfits.axes, rfl⟩, rfl⟩

/-- A sample of a pooling is convolved to the values of the pooled sample. -/
theorem Averages.applyRow_eq (hp : p.Averages) (hct : Rule.poolTransform p x.shape = .ok ct)
    (hx : addressable x.shape) {z : Grid α} (hz : p.sampled x = .ok z)
    (hroom : requireRoom valueBytes z.shape = .ok ()) (hsize : ct.sizeOut = .ok (volume z.shape)) :
    ∃ y, ct.applyRow x.toList = .ok y ∧ y.cells = z.cells := by
  obtain ⟨y, hy, hcells⟩ := hp.exists_convolved hz hct rfl hx hroom hsize
  have hinput : x.shape = ct.inputShape := by
    obtain ⟨channels, -, -, rfl, -⟩ := poolTransform_eq_ok hct
    rfl
  exact ⟨y, (ConvolutionTransform.applyRow_toList hinput (hinput ▸ hx)).trans hy, hcells⟩

/-- So is a table whose only row has the values of the sample. -/
theorem Averages.apply_eq (hp : p.Averages) (hct : Rule.poolTransform p x.shape = .ok ct)
    (hx : addressable x.shape) {z : Grid α} (hz : p.sampled x = .ok z)
    (hroom : requireRoom valueBytes z.shape = .ok ()) (hsize : ct.sizeOut = .ok (volume z.shape))
    {t : Table α} (hrows : t.rows = 1) (hrow : t.row 0 = x.toList) :
    ∃ u, (Transform.convolution ct).apply t = .ok u ∧ u.rows = 1 ∧ u.row 0 = z.toList := by
  obtain ⟨y, hy, hcells⟩ := hp.applyRow_eq hct hx hz hroom hsize
  have hin : ct.sizeIn = .ok (volume x.shape) := by
    obtain ⟨channels, -, -, rfl, -⟩ := poolTransform_eq_ok hct
    exact product_of_addressable hx
  have hcolumns : t.columns = volume x.shape := by
    have hlength := congrArg List.length hrow
    rwa [Table.row, List.length_map, List.length_range, Grid.toList, Array.length_toList,
      x.size_cells] at hlength
  have hspace : requireRoom valueBytes [1, volume z.shape] = .ok () := by
    rw [requireRoom_cons_one]
    exact requireRoom_single.2 (requireRoom_eq_ok.1 hroom).2
  obtain ⟨u, hu, hur, huc, huv⟩ :=
    apply_convolution hin hsize hrows hcolumns hspace (.cons (hrow ▸ hy) .nil)
  refine ⟨u, hu, hur, List.ext_getElem (by simp [Table.row, huc, Grid.toList, z.size_cells]) ?_⟩
  intro j hj hj'
  have hj' : j < z.cells.size := by simpa [Grid.toList] using hj'
  have hvalue := huv 0 Nat.one_pos j (z.size_cells ▸ hj') y rfl
  simp [Table.row, Grid.toList, hvalue, hcells, hj']

/-- **Average poolings are convolutions.**  An average pooling without padding, of
    windows or of everything, is converted if and only if its window has the axes
    of the samples and memory can hold the kernel.  The convolution that it is
    converted to makes of the values of a sample, in a row, those of the pooled
    sample. -/
theorem Averages.converted_eq_sampled (hp : p.Averages) (hrank : p.isGlobal → 2 ≤ x.rank)
    (hk : ∀ k ∈ (Rule.poolWindow p x.shape).1, 0 < k)
    (hs : ∀ s ∈ (Rule.poolWindow p x.shape).2, 0 < s) (hpos : ∀ d ∈ x.shape, 0 < d)
    (hroom : requireRoom valueBytes x.shape = .ok ()) :
    ((∃ ct : ConvolutionTransform α, Rule.poolTransform p x.shape = .ok ct) ↔
      p.Converts x.shape) ∧
    ∀ ct : ConvolutionTransform α, Rule.poolTransform p x.shape = .ok ct →
      ∃ z, p.sampled x = .ok z ∧ ct.sizeOut = .ok z.size ∧
        ∀ t : Table α, t.rows = 1 → t.row 0 = x.toList →
          ∃ u, (Transform.convolution ct).apply t = .ok u ∧ u.rows = 1 ∧ u.row 0 = z.toList := by
  refine ⟨exists_poolTransform hk, fun ct h => ?_⟩
  have hconverts := (exists_poolTransform hk).1 ⟨ct, h⟩
  obtain ⟨channels, hchannels, -⟩ := poolTransform_eq_ok h
  have hfits := hconverts.fits hchannels hk hs hpos hroom
  obtain ⟨z, hz, hzroom, hzvolume⟩ := hconverts.exists_sampled hp hrank hchannels hk hs hfits
  have hsize : ct.sizeOut = .ok (volume z.shape) :=
    hzvolume ▸ hconverts.sizeOut_eq h hchannels hk hs hfits
  have hcount : z.size = volume z.shape := z.size_cells
  exact ⟨z, hz, hcount ▸ hsize, fun t hrows hrow =>
    hp.apply_eq h (requireRoom_eq_ok.1 hroom).1 hz hzroom hsize hrows hrow⟩

/-- Two cells of two channels, which come first. -/
def twoChannels : Grid ℚ := ⟨[2, 2], #[1, 3, 5, 9], rfl⟩

/-- The average of each channel, as that of the only window of two cells. -/
def pairwise : Pool := ⟨.average, .windows [2] [1] .valid, .channelsFirst⟩

/-- The average of each channel, as that of the whole channel. -/
def wholly : Pool := ⟨.average, .everywhere 1, .channelsFirst⟩

/-- Both averages of two channels, as convolutions. -/
theorem Averages.converted_eq_sampled_twoChannels :
    pairwise.Averages ∧ wholly.Averages ∧ 2 ≤ twoChannels.rank ∧
    (∀ d ∈ twoChannels.shape, 0 < d) ∧ requireRoom valueBytes twoChannels.shape = .ok () ∧
    (∃ (ct : ConvolutionTransform ℚ) (u : Table ℚ),
      Rule.poolTransform pairwise twoChannels.shape = .ok ct ∧ ct.sizeOut = .ok 2 ∧
        (Transform.convolution ct).apply ⟨1, 4, #[1, 3, 5, 9], rfl⟩ = .ok u ∧
        u.row 0 = [2, 7]) ∧
    ∃ (ct : ConvolutionTransform ℚ) (u : Table ℚ),
      Rule.poolTransform wholly twoChannels.shape = .ok ct ∧ ct.sizeOut = .ok 2 ∧
        (Transform.convolution ct).apply ⟨1, 4, #[1, 3, 5, 9], rfl⟩ = .ok u ∧
        u.row 0 = [2, 7] := by
  have haverages : ∀ p ∈ [pairwise, wholly], p.Averages := fun p hmem => by
    rcases List.mem_pair.1 hmem with rfl | rfl <;> exact ⟨rfl, by rintro _ _ _ ⟨⟩ <;> rfl⟩
  have hpos : ∀ d ∈ twoChannels.shape, 0 < d := by decide
  -- both poolings are converted and applied in the same way
  have hconverted : ∀ p ∈ [pairwise, wholly], ∃ (ct : ConvolutionTransform ℚ) (u : Table ℚ),
      Rule.poolTransform p twoChannels.shape = .ok ct ∧ ct.sizeOut = .ok 2 ∧
        (Transform.convolution ct).apply ⟨1, 4, #[1, 3, 5, 9], rfl⟩ = .ok u ∧
        u.row 0 = [2, 7] := by
    intro p hmem
    have hwindow : (∀ k ∈ (Rule.poolWindow p twoChannels.shape).1, 0 < k) ∧
        ∀ s ∈ (Rule.poolWindow p twoChannels.shape).2, 0 < s := by
      rcases List.mem_pair.1 hmem with rfl | rfl <;> decide
    have hct : (Rule.poolTransform p twoChannels.shape :
        Outcome (ConvolutionTransform ℚ)).toOption.isSome := by
      rcases List.mem_pair.1 hmem with rfl | rfl <;> decide +kernel
    have hpooled : (p.sampled twoChannels).toOption.map Grid.toList = some [2, 7] := by
      rcases List.mem_pair.1 hmem with rfl | rfl <;> decide +kernel
    obtain ⟨ct, hct⟩ := Option.isSome_iff_exists.1 hct
    have hct := toOption_eq_some.1 hct
    obtain ⟨z, hz, hsize, hrow⟩ := ((haverages p hmem).converted_eq_sampled
      (fun _ => le_rfl) hwindow.1 hwindow.2 hpos rfl).2 ct hct
    obtain ⟨u, hu, -, hvalues⟩ := hrow ⟨1, 4, #[1, 3, 5, 9], rfl⟩ rfl (by decide +kernel)
    rw [hz] at hpooled
    have hpooled : z.toList = [2, 7] := Option.some.inj hpooled
    have hcount : z.size = 2 := congrArg List.length hpooled
    exact ⟨ct, u, hct, hcount ▸ hsize, hu, hvalues.trans hpooled⟩
  exact ⟨haverages _ (by simp), haverages _ (by simp), le_rfl, hpos, rfl,
    hconverted _ (by simp), hconverted _ (by simp)⟩

end Pool
end
end Neuroform

/-
  Neuroform — conversion of average poolings realizes them.

  Without padding every tap of a window lies on the input (`taps_valid`), so
  that the averages over windows are convolutions with a kernel of equal shares
  (`convolvedValue_averaging`).  A global pooling has a single window.
-/
import Neuroform.Proofs.Conversion.Convolving
import Neuroform.Proofs.Network.Convolving

namespace Neuroform

/-! ## Windows without padding -/

theorem underAll?_eq {axes : List SlidingAxis} : ∀ {os ks : List Nat},
    (∀ x ∈ axes.zip (os.zip ks), x.1.under? x.2.1 x.2.2 = some (x.1.reached x.2.1 x.2.2)) →
    underAll? axes os ks =
      some (List.zipWith (fun r k => r k) (List.zipWith SlidingAxis.reached axes os) ks) := by
  induction axes with
  | nil => exact fun _ => rfl
  | cons a axes ih =>
    intro os ks h
    rcases os with _ | ⟨o, os⟩
    · rfl
    rcases ks with _ | ⟨k, ks⟩
    · rfl
    have hrest := ih fun x hx => h x (List.mem_cons_of_mem _ hx)
    have hfirst := h (a, o, k) (by simp)
    dsimp only at hfirst
    simp only [underAll?, hfirst, hrest]
    rfl

theorem Padding.axis_valid {input kernel dilation stride : Nat} {a : PaddedAxis}
    (h : Padding.valid.axis input kernel dilation stride = .ok a) :
    a.input = input ∧ a.before = 0 ∧ a.after = 0 := by
  obtain ⟨reach, -, h⟩ := bind_eq_ok.1 h
  split at h
  · simp at h
  · obtain ⟨_, -, h⟩ := bind_eq_ok.1 h
    obtain rfl := pure_eq_ok.1 h
    exact ⟨rfl, rfl, rfl⟩

/-- A tap of a window without padding lies on the input. -/
theorem Padding.under?_valid {input kernel dilation stride o k : Nat} {a : PaddedAxis}
    (h : Padding.valid.axis input kernel dilation stride = .ok a) (hs : 0 < stride)
    (ho : o < a.output) (hk : k < kernel) : (SlidingAxis.mk a stride dilation).under? o k =
      some ((SlidingAxis.mk a stride dilation).reached o k) := by
  have hlast := Padding.lastReached_lt h hs (by omega)
  have hle := SlidingAxis.reached_le_lastReached (a := ⟨a, stride, dilation⟩) ho hk
  obtain ⟨-, hbefore, hafter⟩ := Padding.axis_valid h
  rw [PaddedAxis.length, hbefore, hafter] at hlast
  rw [SlidingAxis.under?, if_pos (by simp only [hbefore]; omega)]
  simp [hbefore]

/-- Without padding, all taps of a window lie on the input. -/
theorem underAll?_valid {g : Geometry} {ds os ks : List Nat} {axes : List SlidingAxis}
    (hg : g.padding = .valid) (haxes : g.axes ds = .ok axes) (hs : ∀ s ∈ g.strides, 0 < s)
    (ho : os ∈ positions (outputDims axes))
    (hk : ks ∈ positions g.kernel) : underAll? axes os ks =
      some (List.zipWith (fun r k => r k) (List.zipWith SlidingAxis.reached axes os) ks) := by
  refine underAll?_eq fun x hx => ?_
  obtain ⟨n, hn⟩ := List.mem_iff_getElem?.1 hx
  obtain ⟨ha, hok⟩ := List.getElem?_zip_eq_some.1 hn
  obtain ⟨hon, hkn⟩ := List.getElem?_zip_eq_some.1 hok
  obtain ⟨hcount, hget⟩ := Geometry.axes_eq_ok haxes
  obtain ⟨hlt, -⟩ := List.getElem?_eq_some_iff.1 ha
  obtain ⟨k, dil, s, a, hk', hdil, hs', haxis, hax⟩ :=
    hget n _ (List.getElem?_eq_getElem (hcount ▸ hlt))
  obtain ⟨output, houtput, ho⟩ := forall₂_getElem? (mem_positions.1 ho) hon
  obtain ⟨kernel, hkernel, hk⟩ := forall₂_getElem? (mem_positions.1 hk) hkn
  obtain rfl := Option.some.inj (hk'.symm.trans hkernel)
  have hxa := Option.some.inj (ha.symm.trans hax)
  obtain rfl : a.output = output := by simpa [outputDims, hax] using houtput
  rw [hg] at haxis
  rw [hxa]
  exact Padding.under?_valid haxis (hs s (List.mem_of_getElem? hs')) ho hk

/-- Without padding, a window has as many taps as its kernel has positions. -/
theorem taps_valid {g : Geometry} {ds os : List Nat} {axes : List SlidingAxis}
    (hg : g.padding = .valid) (haxes : g.axes ds = .ok axes) (hs : ∀ s ∈ g.strides, 0 < s)
    (ho : os ∈ positions (outputDims axes)) : taps g.kernel axes os =
      (positions g.kernel).map fun k => (k,
        List.zipWith (fun r k => r k) (List.zipWith SlidingAxis.reached axes os) k) := by
  rw [taps, ← List.filterMap_eq_map]
  refine List.filterMap_congr fun k hk => ?_
  rw [underAll?_valid hg haxes hs ho hk]
  rfl

/-! ## Windows over everything -/

theorem Padding.output_everywhere {d : Nat} {a : PaddedAxis}
    (h : Padding.valid.axis d d 1 1 = .ok a) (hd : 0 < d) : a.output = 1 := by
  obtain ⟨reach, hreach, h⟩ := bind_eq_ok.1 h
  rw [if_neg Nat.one_ne_zero] at h
  obtain ⟨cells, hcells, h⟩ := bind_eq_ok.1 h
  obtain ⟨-, rfl⟩ := ofNat_eq_ok.1 hcells
  obtain rfl := windowReach_eq_ok hreach
  obtain rfl := pure_eq_ok.1 h
  have hone : d + 1 - ((d - 1) * 1 + 1) = 1 := by omega
  rw [hone]
  rfl

theorem volume_ones (n : Nat) : volume (List.replicate n 1) = 1 := by
  induction n with
  | zero => rfl
  | succ n ih => rw [List.replicate_succ, volume_cons, ih]

theorem zeros_mem_positions (n : Nat) : List.replicate n 0 ∈ positions (List.replicate n 1) := by
  induction n with
  | zero => simp [positions]
  | succ n ih => exact cons_mem_positions.2 ⟨Nat.one_pos, ih⟩

theorem Layout.volume_join (l : Layout) (c : Nat) (ds : List Nat) :
    volume (l.join c ds) = volume ds * c := by
  have hperm : volume (l.join c ds) = volume (ds ++ [c]) := (l.join_perm c ds).prod_eq
  rw [hperm, volume_append, volume_cons, volume_nil, mul_one]

/-- The place of a channel, if there is one position per channel. -/
theorem offset_ones (l : Layout) (c k n : Nat) :
    offset (l.join c (List.replicate n 1)) (l.join k (List.replicate n 0)) = k := by
  have hzero : offset (List.replicate n 1) (List.replicate n 0) = 0 := by
    have hlt := offset_lt (zeros_mem_positions n)
    rw [volume_ones] at hlt
    omega
  cases l with
  | channelsFirst => simp [offset, volume_ones, hzero]
  | channelsLast => simp [offset_append, offset, hzero]

theorem requireRoom_ones (l : Layout) (c n bytes : Nat) :
    requireRoom bytes (l.join c (List.replicate n 1)) = requireRoom bytes [c] := by
  have hones : (List.replicate n 1).filter (0 < ·) = List.replicate n 1 :=
    List.filter_eq_self.2 fun d hd => by simp [(List.mem_replicate.1 hd).2]
  rw [requireRoom_perm (l.join_perm _ _), requireRoom, requireRoom, addressable, addressable,
    List.filter_append, volume_append, volume_append, hones, volume_ones, one_mul, one_mul]

/-- A window over a whole input has one place, and its taps are all positions. -/
theorem axes_everywhere {g : Geometry} {ds : List Nat} {axes : List SlidingAxis}
    (hg : g = ⟨ds, List.replicate ds.length 1, List.replicate ds.length 1, .valid⟩)
    (haxes : g.axes ds = .ok axes) (hpos : ∀ d ∈ ds, 0 < d) :
    outputDims axes = List.replicate ds.length 1 ∧
      taps ds axes (List.replicate ds.length 0) = (positions ds).map fun k => (k, k) := by
  obtain ⟨hcount, hget⟩ := Geometry.axes_eq_ok haxes
  subst hg
  have haxis : ∀ (n d : Nat), ds[n]? = some d → ∃ a, axes[n]? = some ⟨a, 1, 1⟩ ∧ a.output = 1 := by
    intro n d hd
    obtain ⟨k, dil, s, a, hk, hdil, hs, ha, hax⟩ := hget n d hd
    obtain rfl := Option.some.inj (hd.symm.trans hk)
    obtain rfl : dil = 1 := (List.mem_replicate.1 (List.mem_of_getElem? hdil)).2
    obtain rfl : s = 1 := (List.mem_replicate.1 (List.mem_of_getElem? hs)).2
    exact ⟨a, hax, Padding.output_everywhere ha (hpos d (List.mem_of_getElem? hd))⟩
  have houtput : outputDims axes = List.replicate ds.length 1 := by
    refine List.eq_replicate_iff.2 ⟨by rw [outputDims, List.length_map, hcount], fun d hd => ?_⟩
    obtain ⟨a, hmem, rfl⟩ := List.mem_map.1 hd
    obtain ⟨n, hn⟩ := List.mem_iff_getElem?.1 hmem
    have hlt : n < ds.length := hcount ▸ (List.getElem?_eq_some_iff.1 hn).1
    obtain ⟨a', ha', hone⟩ := haxis n _ (List.getElem?_eq_getElem hlt)
    obtain rfl := Option.some.inj (hn.symm.trans ha')
    exact hone
  refine ⟨houtput, (taps_valid rfl haxes (fun s hs => by simp [(List.mem_replicate.1 hs).2])
    (houtput ▸ zeros_mem_positions _)).trans (List.map_congr_left fun k hk => ?_)⟩
  -- every tap lies at its own position
  refine congrArg (Prod.mk k) (List.ext_getElem? fun n => ?_)
  by_cases hn : n < ds.length
  · obtain ⟨a, ha, -⟩ := haxis n _ (List.getElem?_eq_getElem hn)
    have hk : n < k.length := by rw [length_of_mem_positions hk]; exact hn
    simp [List.getElem?_zipWith, ha, hn, hk, SlidingAxis.reached]
  · have hk : k.length ≤ n := by rw [length_of_mem_positions hk]; exact not_lt.1 hn
    rw [List.getElem?_eq_none hk, List.getElem?_eq_none ((List.length_zipWith ..).le.trans
      ((min_le_right _ _).trans hk))]

/-! ## Averages -/

section
variable {α : Type} [Field α] [LinearOrder α] [Elementary α] [Printed α] {window : List Nat}
  {channels : Nat}

omit [LinearOrder α] [Elementary α] [Printed α] in
/-- A common factor is taken out of a sum. -/
theorem total_mul {ε : Type} (g : ε → α) (s : α) (es : List ε) :
    es.foldl (fun acc e => acc + g e * s) 0 = total (es.map g) * s := by
  have hfold : ∀ (es : List ε) (a : α), es.foldl (fun acc e => acc + g e * s) (a * s) =
      (es.map g).foldl (· + ·) a * s := by
    intro es
    induction es with
    | nil => exact fun _ => rfl
    | cons e es ih => exact fun a => by rw [List.foldl_cons, ← add_mul, ih]; rfl
  rw [total, ← hfold es 0, zero_mul]

/-- The averaging kernel has a share for every position of the window on its
    diagonal. -/
theorem value_averagingKernel {k : List Nat} {c f : Nat} (hk : k ∈ positions window)
    (hc : c < channels) (hf : f < channels) :
    (Rule.averagingKernel window channels : Grid α).value (k ++ [c, f]) =
      if c = f then 1 / ((volume window : Nat) : α) else 0 := by
  have hp : k ++ [c, f] ∈ positions (window ++ [channels, channels]) :=
    append_mem_positions hk (mem_positions.2 (.cons hc (.cons hf .nil)))
  rw [Rule.averagingKernel, Grid.value_ofFn _ hp]
  simp [← length_of_mem_positions hk]

omit [Field α] [LinearOrder α] [Elementary α] [Printed α] in
theorem mem_taps {axes : List SlidingAxis} {os : List Nat} {e : List Nat × List Nat}
    (h : e ∈ taps window axes os) : e.1 ∈ positions window := by
  obtain ⟨k, hk, h⟩ := List.mem_filterMap.1 h
  obtain ⟨_, -, rfl⟩ := Option.map_eq_some_iff.1 h
  exact hk

/-- A convolution with the averaging kernel divides the sum of the taps of a
    channel by the size of the window. -/
theorem convolvedValue_averaging {x : Grid α} {taps : List (List Nat × List Nat)} {f : Nat}
    (htaps : ∀ e ∈ taps, e.1 ∈ positions window) (hf : f < channels) :
    convolvedValue x (Rule.averagingKernel window channels) taps channels f =
      total (taps.map fun e => x.value (e.2 ++ [f])) * (1 / ((volume window : Nat) : α)) := by
  rw [← total_mul, convolvedValue]
  refine List.foldl_ext _ _ _ fun acc e he => ?_
  have hinner : (List.range channels).foldl (fun acc c => acc + x.value (e.2 ++ [c]) *
      (Rule.averagingKernel window channels).value (e.1 ++ [c, f])) acc =
      (List.range channels).foldl (fun acc c => if c = f then
        acc + x.value (e.2 ++ [c]) * (1 / ((volume window : Nat) : α)) else acc) acc := by
    refine List.foldl_ext _ _ _ fun acc c hc => ?_
    rw [value_averagingKernel (htaps e he) (List.mem_range.1 hc) hf]
    split <;> simp
  exact hinner.trans (foldl_hit id
    (fun c => x.value (e.2 ++ [c]) * (1 / ((volume window : Nat) : α)))
    (by simpa using List.nodup_range) (List.mem_range.2 hf))

/-- What the transform of a pooling is. -/
theorem poolTransform_eq_ok {p : Pool} {dims : List Nat} {ct : ConvolutionTransform α}
    (h : Rule.poolTransform p dims = .ok ct) : ∃ channels,
      p.layout.channel? dims = some channels ∧ 0 < volume (Rule.poolWindow p dims).1 ∧
      ct = ⟨channels, dims, (Rule.poolWindow p dims).1, (Rule.poolWindow p dims).2, .valid,
        p.layout,
        Rule.averagingKernel (Rule.poolWindow p dims).1 channels⟩ ∧
      ConvolutionTransform.make ct.filters ct.inputShape ct.kernelSize ct.strides ct.padding
        ct.layout
        ct.kernel = .ok ct := by
  simp only [Rule.poolTransform, bind_eq_ok, orFault_eq_ok, require_eq_ok] at h
  obtain ⟨channels, hchannels, size, hsize, ⟨⟩, hpos, ⟨⟩, -, ⟨⟩, -, hmake⟩ := h
  obtain rfl := product_eq_ok hsize
  have hct := hmake
  obtain ⟨_, -, hct⟩ := bind_eq_ok.1 hct
  obtain ⟨_, -, hct⟩ := bind_eq_ok.1 hct
  obtain rfl := pure_eq_ok.1 hct
  exact ⟨channels, hchannels, hpos, rfl, hmake⟩

omit [Field α] [LinearOrder α] [Elementary α] [Printed α] in
/-- Axes without padding are no longer than those of the input. -/
theorem length_valid {l : Layout} {dims ks dils ss : List Nat} {padded : List PaddedAxis}
    (ha : addressable dims) (h : Padding.valid.axes (l.spatial dims) ks dils ss = .ok padded) :
    ∀ a ∈ padded, a.length < Word.signLimit := by
  intro a hmem
  obtain ⟨hcount, hget⟩ := Padding.axes_eq_ok h
  obtain ⟨n, hn⟩ := List.mem_iff_getElem?.1 hmem
  have hlt : n < (l.spatial dims).length := hcount ▸ (List.getElem?_eq_some_iff.1 hn).1
  obtain ⟨k, dil, s, a', -, -, -, haxis, hn'⟩ := hget n _ (List.getElem?_eq_getElem hlt)
  obtain rfl := Option.some.inj (hn.symm.trans hn')
  obtain ⟨hinput, hbefore, hafter⟩ := Padding.axis_valid haxis
  have hdims : (l.spatial dims)[n] ∈ dims :=
    (l.toLast_perm dims).mem_iff.1 (List.dropLast_subset _ (List.getElem_mem hlt))
  have hd := lt_of_addressable ha hdims
  rw [PaddedAxis.length, hinput, hbefore, hafter]
  omega

/-- The transform of a pooling averages the windows of every sample. -/
theorem exists_averaged {p : Pool} {dims shape : List Nat} {ct : ConvolutionTransform α}
    {x : Grid α}
    (h : Rule.poolTransform p dims = .ok ct) (hmoves : ∀ s ∈ (Rule.poolWindow p dims).2, 0 < s)
    (hout : ct.outputShape = .ok shape) (hroom : requireRoom valueBytes shape = .ok ())
    (ha : addressable dims) (hx : x.shape = dims) : ∃ channels axes z,
      p.layout.channel? dims = some channels ∧
      ct.geometry.axes (p.layout.spatial dims) = .ok axes ∧
      convolve ct.layout ct.geometry x ct.kernel = .ok z ∧
      z.shape = p.layout.join channels (outputDims axes) ∧
      0 < volume (Rule.poolWindow p dims).1 ∧
      ∀ ps ∈ positions (outputDims axes), ∀ k < channels, z.value (p.layout.join k ps) =
        total ((taps (Rule.poolWindow p dims).1 axes ps).map fun e =>
            (x.toLast p.layout).value (e.2 ++ [k])) *
          (1 / ((volume (Rule.poolWindow p dims).1 : Nat) : α)) := by
  obtain ⟨channels, hchannels, hpos, hct, hmade⟩ := poolTransform_eq_ok h
  obtain ⟨hshape, hspace⟩ := requireRoom_eq_ok.1 hroom
  have htaps : ∀ k ∈ (Rule.poolWindow p dims).1, 0 < k := fun k hk =>
    Nat.pos_of_dvd_of_pos (List.dvd_prod hk) hpos
  have hwell : ct.WellFormed := ⟨hmade, by rw [hct]; exact htaps, by rw [hct]; exact hmoves⟩
  have hfits : ct.Fits := by
    refine ⟨by rw [hct]; exact ha, fun s hs => Except.ok.inj (hout.symm.trans hs) ▸ hshape, ?_⟩
    rw [hct]
    exact fun _ => length_valid ha
  obtain ⟨y, hy⟩ := ConvolutionTransform.exists_convolveLast hwell hfits hout hspace
    (x := x.toLast p.layout)
    (by rw [hct, ← hx]; rfl)
  subst hct
  obtain ⟨dims', channels', filters, axes, haccepts, haxes, -, rfl⟩ := convolveLast_eq_ok hy
  have hdims : p.layout.spatial dims = dims' := by
    rw [← hx]
    exact (congrArg List.dropLast haccepts.input).trans List.dropLast_concat
  have hlast : p.layout.channel? dims = some channels' := by
    rw [← hx]
    exact (congrArg List.getLast? haccepts.input).trans List.getLast?_concat
  obtain rfl := Option.some.inj (hchannels.symm.trans hlast)
  obtain rfl : channels = filters := by
    have hkernel : (Rule.averagingKernel (Rule.poolWindow p dims).1 channels : Grid α).shape = _ :=
      haccepts.kernel
    simpa [Rule.averagingKernel, Grid.ofFn, ConvolutionTransform.geometry] using hkernel
  rw [← hdims] at haxes
  refine ⟨channels, axes, _, hchannels, haxes, Grid.throughLast_of_channel (hx ▸ hchannels) hy,
    rfl, hpos, fun ps hps k hk => ?_⟩
  have hmem : ps ++ [k] ∈ positions (outputDims axes ++ [channels]) :=
    mem_positions_concat.2 ⟨ps, k, hps, hk, rfl⟩
  rw [Grid.value_fromLast_join hmem, Grid.value_ofFn _ hmem, List.dropLast_concat,
    List.getLastD_concat]
  exact convolvedValue_averaging (fun e he => mem_taps he) hk


/-! ## Poolings of samples -/

/-- A pooling that has a counterpart: an average, without padding. -/
structure Pool.Averages (p : Pool) : Prop where
  average : p.kind = .average
  valid : ∀ size strides padding, p.extent = .windows size strides padding → padding = .valid

section
variable {p : Pool} {dims shape : List Nat} {ct : ConvolutionTransform α} {x z : Grid α}

/-- Windows of a sample are averaged by the convolution. -/
theorem exists_averaged_windows {size strides : List Nat}
    (hextent : p.extent = .windows size strides .valid)
    (hpool : pool p.layout (Pool.windows size strides .valid) .average x = .ok z)
    (h : Rule.poolTransform p dims = .ok ct) (hx : x.shape = dims) (ha : addressable dims)
    (hz : requireRoom valueBytes z.shape = .ok ()) (hout : ct.outputShape = .ok shape) :
    convolve ct.layout ct.geometry x ct.kernel = .ok z := by
  have hwindow : Rule.poolWindow p dims = (size, strides) := by simp only [Rule.poolWindow, hextent]
  obtain ⟨y, hy, rfl, -⟩ := Grid.throughLast_eq_ok hpool
  obtain ⟨channels, axes, hlast, hcheck, haxes, -, hslid⟩ := poolLast_eq_ok hy
  have hmoves : ∀ s ∈ strides, 0 < s := by
    obtain ⟨_, -, hmoves⟩ := bind_eq_ok.1 hcheck
    exact require_eq_ok.1 hmoves
  have hgeometry : ct.geometry = Pool.windows size strides .valid := by
    obtain ⟨_, -, -, rfl, -⟩ := poolTransform_eq_ok h
    rw [ConvolutionTransform.geometry, hwindow]
    rfl
  have hshape : requireRoom valueBytes shape = .ok () := by
    obtain ⟨channels', axes', hchannels, haxes', hzs⟩ := shape_pool hpool
    obtain ⟨axes'', haxes'', hjoined⟩ := bind_eq_ok.1 hout
    obtain rfl := pure_eq_ok.1 hjoined
    obtain ⟨channels'', hchannels', -, hct, -⟩ := poolTransform_eq_ok h
    have hinput : ct.layout = p.layout ∧ ct.inputShape = dims ∧ ct.filters = channels'' := by
      simp [hct]
    rw [hinput.1, hinput.2.1, hgeometry, ← hx] at haxes''
    obtain rfl := Except.ok.inj (haxes'.symm.trans haxes'')
    rw [← hx] at hchannels'
    obtain rfl := Option.some.inj (hchannels.symm.trans hchannels')
    rw [hinput.1, hinput.2.2, ← hzs]
    exact hz
  obtain ⟨channels', axes', z', hchannels, haxes', hz', hzs, hpos, hvalue⟩ :=
    exists_averaged h (hwindow ▸ hmoves) hout hshape ha hx
  have hdims : (x.toLast p.layout).shape.dropLast = p.layout.spatial dims := by rw [← hx]; rfl
  rw [hgeometry] at haxes'
  obtain rfl := Except.ok.inj (haxes'.symm.trans (hdims ▸ haxes))
  obtain rfl : channels' = channels := by
    refine Option.some.inj (hchannels.symm.trans (Eq.trans ?_ hlast))
    rw [← hx]
    rfl
  obtain ⟨-, rfl⟩ := slidGrid_eq_ok.1 hslid
  rw [hz']
  refine congrArg _ (Grid.ext_values hzs fun q hq => ?_)
  rw [hzs] at hq
  obtain ⟨ps, k, hps, hk, rfl⟩ := Layout.mem_positions_join.1 hq
  have hmem : ps ++ [k] ∈ positions (outputDims axes' ++ [channels']) :=
    mem_positions_concat.2 ⟨ps, k, hps, hk, rfl⟩
  have hlength : (taps size axes' ps).length = volume size := by
    have htaps := taps_valid (g := Pool.windows size strides .valid) rfl haxes' hmoves hps
    exact (congrArg List.length htaps).trans (by rw [List.length_map, length_positions]; rfl)
  rw [hwindow] at hpos hvalue
  rw [hvalue ps hps k hk, Grid.value_fromLast_join hmem, Grid.value_ofFn _ hmem,
    List.dropLast_concat,
    List.getLastD_concat]
  change _ = PoolKind.average.ofWindow ((taps size axes' ps).map fun e =>
    (x.toLast p.layout).value (e.2 ++ [k]))
  rw [PoolKind.ofWindow, if_neg, List.length_map, hlength, mul_one_div]
  rw [List.isEmpty_iff_length_eq_zero, List.length_map, hlength]
  exact hpos.ne'

omit [Printed α] in
/-- Where nothing is rounded, channels are averaged wherever their values are in
    memory. -/
theorem PoolKind.ofChannel_average {values : List α} (apart : Nat)
    (h : values.length = volume dims) :
    average.ofChannel apart dims values = total values / (values.length : α) :=
  congrArg (· / _)
    (Elementary.arraySum_eq_foldl _ _ _ _ _ zero_add add_comm add_assoc h)

/-- A whole sample is averaged by the convolution. -/
theorem exists_averaged_everywhere {rank : Nat} (hextent : p.extent = .everywhere rank)
    (hpool : globalPool p.layout .average x = .ok z) (h : Rule.poolTransform p dims = .ok ct)
    (hx : x.shape = dims) (ha : addressable dims)
    (hz : requireRoom valueBytes z.shape = .ok ()) (hout : ct.outputShape = .ok shape) :
    ∃ z', convolve ct.layout ct.geometry x ct.kernel = .ok z' ∧ z'.cells = z.cells := by
  have hwindow : Rule.poolWindow p dims = (p.layout.spatial dims,
    List.replicate (p.layout.spatial dims).length 1) := by simp only [Rule.poolWindow, hextent]
  obtain ⟨channels, hchannels, hpos, hct, -⟩ := poolTransform_eq_ok h
  rw [hwindow] at hpos
  have hpositive : ∀ d ∈ p.layout.spatial dims, 0 < d := fun d hd =>
    Nat.pos_of_dvd_of_pos (List.dvd_prod hd) hpos
  have hgeometry : ct.geometry = ⟨p.layout.spatial dims,
      List.replicate (p.layout.spatial dims).length 1,
      List.replicate (p.layout.spatial dims).length 1, .valid⟩ := by
    rw [hct, ConvolutionTransform.geometry, hwindow]
  obtain ⟨-, rfl⟩ := globalPool_eq_ok hpool
  have hcount : x.shape.getD (p.layout.channelAxis x.rank) 0 = channels := by
    rw [Grid.rank, hx]
    exact Layout.getD_channelAxis hchannels
  simp only [hcount, Grid.ofList, List.length_map, List.length_range] at hz ⊢
  have hshape : requireRoom valueBytes shape = .ok () := by
    obtain ⟨axes, haxes, hjoined⟩ := bind_eq_ok.1 hout
    obtain rfl := pure_eq_ok.1 hjoined
    have hinput : ct.layout = p.layout ∧ ct.inputShape = dims ∧ ct.filters = channels := by
      simp [hct]
    rw [hinput.1, hinput.2.1] at haxes
    rw [hinput.1, hinput.2.2, (axes_everywhere hgeometry haxes hpositive).1, requireRoom_ones]
    exact hz
  obtain ⟨channels', axes, z', hchannels', haxes, hz', hzs, -, hvalue⟩ :=
    exists_averaged h (by simp [hwindow]) hout hshape ha hx
  obtain rfl := Option.some.inj (hchannels'.symm.trans hchannels)
  obtain ⟨hones, htaps⟩ := axes_everywhere hgeometry haxes hpositive
  rw [hwindow] at hvalue
  rw [hones] at hzs hvalue
  have hcells : z'.cells.size = channels' := by
    rw [z'.size_cells, hzs, Layout.volume_join, volume_ones, one_mul]
  refine ⟨z', hz', Array.ext (by simp [hcells]) fun k hk hk' => ?_⟩
  rw [hcells] at hk
  have hread := hvalue _ (zeros_mem_positions _) k hk
  rw [htaps, Grid.value, hzs, offset_ones] at hread
  have hvalues : (positions (p.layout.spatial dims)).map
      (fun q => (x.toLast p.layout).value (q ++ [k]))
      = (positions (p.layout.spatial x.shape)).map fun q => x.value (p.layout.join k q) := by
    rw [hx]
    refine List.map_congr_left fun q hq => Grid.value_toLast_concat ?_
    rw [hx, ← Layout.join_spatial hchannels, Layout.toLast_join]
    exact mem_positions_concat.2 ⟨q, k, hq, hk, rfl⟩
  rw [Array.getD_eq_getD_getElem?, Array.getElem?_eq_getElem (hcells.symm ▸ hk),
    Option.getD_some] at hread
  rw [hread, List.map_map]
  change total ((positions (p.layout.spatial dims)).map fun q =>
    (x.toLast p.layout).value (q ++ [k])) * _ = _
  rw [hvalues, mul_one_div]
  simp [PoolKind.ofChannel_average, length_positions, hx]

/-- A pooling that has a counterpart is the convolution of its samples. -/
theorem Pool.Averages.exists_convolved (hp : p.Averages) (hpool : (match p.extent with
      | .everywhere _ => globalPool p.layout p.kind x
      | .windows size strides padding =>
        pool p.layout (Pool.windows size strides padding) p.kind x) = .ok z)
    (h : Rule.poolTransform p dims = .ok ct) (hx : x.shape = dims) (ha : addressable dims)
    (hz : requireRoom valueBytes z.shape = .ok ()) (hout : ct.sizeOut = .ok (volume z.shape)) :
    ∃ z', convolve ct.layout ct.geometry x ct.kernel = .ok z' ∧ z'.cells = z.cells := by
  obtain ⟨shape, hshape, -⟩ := bind_eq_ok.1 hout
  rw [hp.average] at hpool
  cases hextent : p.extent with
  | everywhere rank =>
    rw [hextent] at hpool
    exact exists_averaged_everywhere hextent hpool h hx ha hz hshape
  | windows size strides padding =>
    obtain rfl := hp.valid _ _ _ hextent
    rw [hextent] at hpool
    exact ⟨z, exists_averaged_windows hextent hpool h hx ha hz hshape, rfl⟩

end
end

namespace Workspace

open Rule

variable {α : Type} [Field α] [LinearOrder α] [Elementary α] [Printed α] {w w' : Workspace α}
  {fed : States α} {b : Nat} {i : InvocationId} {ins : List (List Nat)}
  {xs : List (Grid α)} {out : List Nat} {x y : Grid α} {v : View} {p : Pool}

/-- A pooling is a passthrough node for its convolved input. -/
theorem Staged.realized_pool (hs : Staged w fed b i (.pool p) ins xs out y) (hp : p.Averages)
    (h : (convertPool p i).exec w = (.ok v, w')) (hfits : w'.network.sketch.Fits b) :
    Realized w w' fed b v out y := by
  obtain ⟨dims, x, s, s', rfl, rfl, hx, hdims, ho, hout⟩ := hs.single fun shapes outs ho => by
    obtain ⟨s, hs, -⟩ := bind_eq_ok.1 ho
    exact ⟨s, onlyInput_eq_ok.1 hs⟩
  obtain ⟨y', hy, hsingle⟩ := Pool.forward_eq_ok hs.makes
  obtain rfl := List.singleton_inj.1 hsingle
  obtain ⟨out', hyout, hsample⟩ := Grid.mapSamples_eq_ok hs.batch hx.shape hy
  obtain rfl : out' = out := (List.cons.inj (hyout.shape.symm.trans hs.output.shape)).2
  rw [convertPool, Step.exec_get_bind] at h
  obtain ⟨dims', hlooked, h⟩ := Step.exec_lift_bind_eq_ok.1 h
  obtain rfl := List.singleton_inj.1 (hs.inputDims dims' hlooked)
  obtain ⟨ct, hct, h⟩ := Step.exec_lift_bind_eq_ok.1 h
  obtain ⟨output, w₁, ht, h⟩ := Step.exec_bind_eq_ok.1 h
  obtain ⟨_, w₂, hw, h⟩ := Step.exec_bind_eq_ok.1 h
  obtain ⟨rfl, rfl⟩ := Step.exec_pure_eq_ok.1 h
  obtain ⟨-, rfl, hd⟩ := hs.buildTarget ht
  obtain ⟨u, _, _, hu, hu', hcarried, hd', hjoins⟩ := hs.wireInput hd hw
  obtain rfl := Option.some.inj hu
  obtain rfl := Option.some.inj hu'
  obtain ⟨hin, hout⟩ := (hd.trans .refl).convolution_sizes hjoins
  obtain ⟨t, ht, hold⟩ := hd'.steady (leadsFrom_target Sketch.leadsFrom_wire) hcarried
  have hinput : ct.inputShape = dims := by
    obtain ⟨_, -, -, rfl, -⟩ := poolTransform_eq_ok hct
    rfl
  rw [← hinput] at hold
  have ha := hx.addressable_sample hs.batch
  have hroom := hd'.room_target hfits
  have hspace : requireRoom valueBytes out' = .ok () := requireRoom_eq_ok.2
    ⟨hs.output.addressable_sample hs.batch, requireRoom_single.1 (requireRoom_tail hs.batch hroom)⟩
  have hadds := adds_convolution (o := w.next)
    (f := fun i j => y.cells.getD (i * volume out' + j) 0) ht
    hold (hinput.symm ▸ ha) hin hout hroom fun i hi => by
      obtain ⟨z, hz, hzs, hzv⟩ := hsample i hi
      have hzs : z.shape = out' := hzs
      obtain ⟨z', hz', hcells⟩ := hp.exists_convolved hz hct (congrArg List.tail hx.shape) ha
        (hzs ▸ hspace) (hzs.symm ▸ hout)
      refine ⟨z', hz', fun j hj => ?_⟩
      obtain ⟨q, hq, rfl⟩ := exists_position hj
      rw [hcells, ← hs.output.value_cells, hzv q hq, Grid.value, hzs]
  exact hs.realized_bare hfits hd' (by simp [View.full]) hadds fun i hi p hp =>
    hs.output.value_cells i p

end Workspace
end Neuroform

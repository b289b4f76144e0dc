/-
  Neuroform — convolution, pooling, up-sampling and padding of batches.

  Shapes are inferred axis by axis, and samples are mapped one by one.  Both
  give the same dimensions, for every channel layout.
-/
import Neuroform.Proofs.Layer.Pointwise
import Neuroform.Proofs.Window

namespace Neuroform

variable {α : Type} {shapes : List Shape} {b : Nat}

/-! ## Shapes with channels -/

namespace Layout
variable {β : Type} {l : Layout}

@[simp] theorem join_first (c : β) (hw : List β) : channelsFirst.join c hw = c :: hw := by
  simp [join, fromLast]

@[simp] theorem join_last (c : β) (hw : List β) : channelsLast.join c hw = hw ++ [c] := rfl

@[simp] theorem spatial_join (l : Layout) (c : β) (hw : List β) : l.spatial (l.join c hw) = hw := by
  simp [spatial, join]

@[simp] theorem channel?_join (l : Layout) (c : β) (hw : List β) :
    l.channel? (l.join c hw) = some c := by
  simp [channel?, join]

@[simp] theorem toLast_join (l : Layout) (c : β) (hw : List β) :
    l.toLast (l.join c hw) = hw ++ [c] := toLast_fromLast l _

@[simp] theorem length_join (l : Layout) (c : β) (hw : List β) :
    (l.join c hw).length = hw.length + 1 := by
  rw [← length_toLast l, toLast_join]
  simp

theorem channelAxis_lt {xs : List β} {c : β} (h : l.channel? xs = some c) :
    l.channelAxis xs.length < xs.length := by
  rw [← join_spatial h, length_join]
  cases l with
  | channelsFirst => exact Nat.succ_pos _
  | channelsLast => exact Nat.lt_succ_self _

theorem requireSpatial_eq {γ : Type} [IsCause γ] {rank spatial : Nat} {c : γ} (h : rank ≠ 0) :
    l.requireSpatial rank spatial c = require (rank - 1 = spatial) c :=
  if_neg fun h' => h h'.2

theorem requireSpatial_join {γ : Type} [IsCause γ] {e : γ} (c : β) (hw : List β) :
    l.requireSpatial (l.join c hw).length hw.length e = .ok () := by
  rw [requireSpatial_eq (by simp), length_join]
  exact require_eq_ok.2 rfl

/-- A sample has a number of spatial axes. -/
theorem requireSpatial_eq_ok {γ : Type} [IsCause γ] {dims : List β} {n : Nat} {e : γ} :
    l.requireSpatial dims.length n e = .ok () ↔
      (l = .channelsLast → dims ≠ []) ∧ (l.spatial dims).length = n := by
  rw [spatial, List.length_dropLast, length_toLast, requireSpatial]
  split
  case isTrue h => simp [h.1, List.length_eq_zero_iff.1 h.2]
  case isFalse h =>
    rw [List.length_eq_zero_iff, not_and] at h
    exact require_eq_ok.trans (and_iff_right h).symm

/-- A position of a sample has a channel and a position on the spatial axes. -/
theorem mem_positions_join {l : Layout} {c : Nat} {hw p : List Nat} :
    p ∈ positions (l.join c hw) ↔ ∃ ps k, ps ∈ positions hw ∧ k < c ∧ p = l.join k ps := by
  rw [← mem_positions_toLast (l := l), toLast_join, mem_positions_concat]
  refine exists_congr fun ps => exists_congr fun k => and_congr_right fun _ =>
    and_congr_right fun _ => ⟨fun h => ?_, fun h => by rw [h, toLast_join]⟩
  rw [← fromLast_toLast l p, h]
  rfl

theorem map_join {γ : Type} (f : β → γ) (c : β) (hw : List β) :
    (l.join c hw).map f = l.join (f c) (hw.map f) := by
  rw [join, map_fromLast]
  simp [join]

theorem zipWith_join {γ δ : Type} {f : β → γ → δ} {b : β} {c : γ} {bs : List β} {cs : List γ}
    (h : bs.length = cs.length) :
    List.zipWith f (l.join b bs) (l.join c cs) = l.join (f b c) (List.zipWith f bs cs) := by
  cases l with
  | channelsFirst => simp
  | channelsLast => simp [List.zipWith_append h]

end Layout

namespace Grid
variable [Zero α] {x : Grid α} {l : Layout} {ps : List Nat} {k : Nat}

theorem value_fromLast_join (h : ps ++ [k] ∈ positions x.shape) :
    (x.fromLast l).value (l.join k ps) = x.value (ps ++ [k]) := by
  rw [value_fromLast, Layout.toLast_join]
  rwa [← Layout.mem_positions_toLast (l := l), Layout.toLast_join, Layout.toLast_fromLast]

theorem value_toLast_concat (h : ps ++ [k] ∈ positions (l.toLast x.shape)) :
    (x.toLast l).value (ps ++ [k]) = x.value (l.join k ps) := value_toLast h

end Grid

/-- Spatial dimensions that are computed one by one. -/
theorem mapM_dims {γ : Type} {f : Nat → γ → Nat} {ds : List (Option Nat)} {ns : List Nat}
    (h : List.Forall₂ MatchesLength ds ns) : ∀ {qs : List γ} {spatial : List (Option Nat)},
    (ds.zip qs).mapM (fun (d, q) => d.mapM fun d => Word.ofNat (f d q)) = .ok spatial →
    spatial = knownLengths ds (List.zipWith f ns qs) := by
  induction h with
  | nil => exact fun h => (pure_eq_ok.1 h).symm
  | @cons d n ds ns hd _ ih =>
    intro qs spatial h
    cases qs with
    | nil => exact (pure_eq_ok.1 h).symm
    | cons q qs =>
      simp only [List.zip_cons_cons, List.mapM_cons, bind_eq_ok, pure_eq_ok] at h
      obtain ⟨v, hv, vs, hvs, rfl⟩ := h
      obtain rfl := ih hvs
      cases d with
      | none =>
        obtain rfl := pure_eq_ok.1 hv
        rfl
      | some d =>
        obtain rfl := matchesLength_some.1 hd
        obtain ⟨m, hm, rfl⟩ := map_eq_ok.1 hv
        obtain ⟨-, rfl⟩ := ofNat_eq_ok.1 hm
        rfl

variable [Scalar α]

/-! ## Convolutions -/

namespace Conv

/-- Every sample is convolved; biases and the activation leave shapes alone. -/
theorem forward_eq_ok {c : Conv α} {x : Grid α} {ys : List (Grid α)}
    (h : c.forward [x] = .ok ys) : ∃ z y, x.mapSamples (fun sample => do
      let y ← convolve c.layout c.geometry sample c.kernel
      return c.bias.elim y (addBias c.layout · y)) = .ok z ∧ c.activation.apply z = .ok y ∧
      ys = [y] := by
  simp only [forward, bind_eq_ok, onlyInput_eq_ok, List.cons.injEq, and_true, exists_eq_left',
    pure_eq_ok] at h
  obtain ⟨z, hz, y, hy, rfl⟩ := h
  exact ⟨z, y, hz, hy, rfl⟩

omit [Scalar α] in
/-- What is checked of a shape, and what is inferred from it axis by axis. -/
theorem outputShapes_parts {c : Conv α} {s : Shape} {outs : List Shape}
    (h : c.outputShapes [s] = .ok outs) : ∃ parts spatial, s.splitChannels c.layout = .ok parts ∧
      parts.spatial.length = c.rank ∧ (∀ channels ∈ parts.channels, channels = c.channels) ∧
      parts.spatial.zipIdx.mapM (fun e => c.padding.outputLength e.1 c.kernelSize[e.2]?
        c.dilationRate[e.2]? c.strides[e.2]?) = .ok spatial ∧
      outs = [ChannelShape.join c.layout ⟨parts.batch, spatial, some c.filters⟩] := by
  simp only [outputShapes, bind_eq_ok, onlyInput_eq_ok, List.cons.injEq, and_true, exists_eq_left',
    require_eq_ok] at h
  obtain ⟨parts, hparts, _, hrank, h⟩ := h
  cases hchannels : parts.channels with
  | none =>
    simp only [hchannels, bind_eq_ok, pure_eq_ok] at h
    obtain ⟨spatial, hspatial, rfl⟩ := h
    exact ⟨parts, spatial, hparts, hrank, by simp [hchannels], hspatial, rfl⟩
  | some channels =>
    simp only [hchannels, bind_eq_ok, require_eq_ok, pure_eq_ok] at h
    obtain ⟨_, hmatch, spatial, hspatial, rfl⟩ := h
    exact ⟨parts, spatial, hparts, hrank, by simpa [hchannels] using hmatch, hspatial, rfl⟩

omit [Scalar α] in
/-- The numbers of window positions are known as far as the spatial dimensions
    are, and the channels are filters. -/
theorem outputShapes_eq_ok {c : Conv α} {s : Shape} {outs : List Shape}
    (h : c.outputShapes [s] = .ok outs) : ∃ parts, s.splitChannels c.layout = .ok parts ∧
      parts.spatial.length = c.rank ∧ ∀ {ns : List Nat} {axes : List SlidingAxis},
        List.Forall₂ MatchesLength parts.spatial ns → c.geometry.axes ns = .ok axes →
        outs = [ChannelShape.join c.layout
          ⟨parts.batch, knownLengths parts.spatial (outputDims axes), some c.filters⟩] := by
  obtain ⟨parts, spatial, hparts, hrank, -, hspatial, rfl⟩ := outputShapes_parts h
  refine ⟨parts, hparts, hrank, fun hns haxes => ?_⟩
  rw [Geometry.outputDims_eq haxes hns (fun d hk hdil hs => ?_) hspatial]
  simp only [geometry] at hk hdil hs
  simp only [hk, hdil, hs, geometry]

omit [Scalar α] in
/-- Accepted samples have the channels of the kernel and the axes of the windows,
    which slide over them. -/
theorem exists_axes {c : Conv α} {s : Shape} {dims : List Nat} {outs : List Shape}
    (hs : s.Samples dims) (ho : c.outputShapes [s] = .ok outs) : ∃ axes s',
      c.layout.channel? dims = some c.channels ∧ (c.layout.spatial dims).length = c.rank ∧
      c.geometry.axes (c.layout.spatial dims) = .ok axes ∧ outs = [s'] ∧
      s'.Samples (c.layout.join c.filters (outputDims axes)) := by
  obtain ⟨parts, spatial, hparts, hrank, hchannels, hspatial, -⟩ := outputShapes_parts ho
  obtain ⟨parts', hparts', -, houts⟩ := outputShapes_eq_ok ho
  obtain rfl := Except.ok.inj (hparts.symm.trans hparts')
  obtain ⟨channels, hc, hch, hsp⟩ := hs.splitChannels hparts
  obtain rfl := hchannels channels hch
  rw [hsp, List.length_map] at hrank
  obtain ⟨axes, haxes⟩ : ∃ axes, c.geometry.axes (c.layout.spatial dims) = .ok axes := by
    refine Geometry.exists_axes fun n d hd => ?_
    obtain ⟨v, -, hv⟩ := forall₂_getElem? (mapM_forall₂.1 hspatial) (k := n) (b := (some d, n))
      (by simp [hsp, hd])
    simp only [Padding.outputLength, bind_eq_ok, orFault_eq_ok] at hv
    obtain ⟨k, hk, dil, hdil, stride, hstride, a, ha, -⟩ := hv
    exact ⟨k, dil, stride, a, hk, hdil, hstride, ha⟩
  obtain rfl := houts (hsp ▸ forall₂_matchesLength_some) haxes
  rw [hsp, knownLengths_map_some (Geometry.length_outputDims haxes).symm]
  exact ⟨axes, _, hc, hrank, haxes, rfl, Shape.samples_join ..⟩

/-- Every window and filter has a value in each sample. -/
theorem batch_forward {c : Conv α} {x : Grid α} {n : Nat} {dims : List Nat} {ys : List (Grid α)}
    (hn : 0 < n) (hx : x.shape = n :: dims) (h : c.forward [x] = .ok ys) : ∃ axes y,
      c.geometry.axes (c.layout.spatial dims) = .ok axes ∧ ys = [y] ∧
      y.Batch n (c.layout.join (c.kernel.shape.getD ((c.layout.spatial dims).length + 1) 0)
        (outputDims axes)) := by
  obtain ⟨z, y, hz, hy, rfl⟩ := forward_eq_ok h
  obtain ⟨out, hzout, hsample⟩ := Grid.mapSamples_eq_ok hn hx hz
  obtain ⟨w, hw, rfl, -⟩ := hsample 0 hn
  obtain ⟨v, hv, hw⟩ := bind_eq_ok.1 hw
  obtain rfl := pure_eq_ok.1 hw
  have hvs : (c.bias.elim v (addBias c.layout · v)).shape = v.shape := by cases c.bias <;> rfl
  obtain ⟨axes, haxes, hshape⟩ := shape_convolve hv
  have hin : (x.sample 0).shape = dims := congrArg List.tail hx
  rw [hin] at haxes hshape
  rw [hvs, hshape] at hzout
  have hys := Activation.shape_apply hy
  exact ⟨axes, y, haxes, rfl, hys.trans hzout.shape, hys ▸ hzout.addressable⟩

theorem batches_operation {c : Conv α} : c.operation.Batches b shapes := by
  refine Operation.batches_of_only (fun outs ho => ?_) fun {s dims outs x ys} _ hs ho hb hx hf => ?_
  · obtain ⟨s, hs, -⟩ := bind_eq_ok.1 ho
    exact ⟨s, onlyInput_eq_ok.1 hs⟩
  obtain ⟨axes, y, haxes, rfl, hy⟩ := batch_forward hb hx.shape hf
  obtain ⟨parts, hparts, hrank, houts⟩ := outputShapes_eq_ok ho
  obtain ⟨channels, -, -, hsp⟩ := hs.splitChannels hparts
  obtain rfl := houts (hsp ▸ forall₂_matchesLength_some) haxes
  rw [hsp, List.length_map] at hrank
  rw [hrank] at hy
  rw [hsp, knownLengths_map_some (Geometry.length_outputDims haxes).symm]
  exact ⟨_, _, y, rfl, Shape.samples_join .., rfl, hy⟩

end Conv

/-! ## Poolings -/

namespace Pool

theorem forward_eq_ok {p : Pool} {x : Grid α} {ys : List (Grid α)} (h : p.forward [x] = .ok ys) :
    ∃ y, x.mapSamples (fun sample => match p.extent with
      | .everywhere _ => globalPool p.layout p.kind sample
      | .windows size strides padding =>
        pool p.layout (windows size strides padding) p.kind sample) = .ok y ∧ ys = [y] := by
  simp only [forward, bind_eq_ok, onlyInput_eq_ok, List.cons.injEq, and_true, exists_eq_left',
    pure_eq_ok] at h
  obtain ⟨y, hy, rfl⟩ := h
  exact ⟨y, hy, rfl⟩

omit [Scalar α] in
/-- Without windows, spatial dimensions disappear. -/
theorem outputShapes_everywhere {p : Pool} {rank : Nat} {s : Shape} {outs : List Shape}
    (he : p.extent = .everywhere rank) (h : p.outputShapes [s] = .ok outs) :
    ∃ parts, s.splitChannels p.layout = .ok parts ∧ outs = [⟨[parts.batch, parts.channels]⟩] := by
  simp only [outputShapes, he, bind_eq_ok, onlyInput_eq_ok, List.cons.injEq, and_true,
    exists_eq_left', pure_eq_ok] at h
  obtain ⟨parts, hparts, _, -, rfl⟩ := h
  exact ⟨parts, hparts, rfl⟩

omit [Scalar α] in
/-- The numbers of window positions are known as far as the spatial dimensions
    are. -/
theorem outputShapes_windows {p : Pool} {size strides : List Nat} {padding : Padding} {s : Shape}
    {outs : List Shape} (he : p.extent = .windows size strides padding)
    (h : p.outputShapes [s] = .ok outs) : ∃ parts, s.splitChannels p.layout = .ok parts ∧
      ∀ {ns : List Nat} {axes : List SlidingAxis},
        List.Forall₂ MatchesLength parts.spatial ns →
        (windows size strides padding).axes ns = .ok axes → outs = [ChannelShape.join p.layout
          ⟨parts.batch, knownLengths parts.spatial (outputDims axes), parts.channels⟩] := by
  simp only [outputShapes, he, bind_eq_ok, onlyInput_eq_ok, List.cons.injEq, and_true,
    exists_eq_left', pure_eq_ok] at h
  obtain ⟨parts, hparts, _, -, spatial, hspatial, rfl⟩ := h
  refine ⟨parts, hparts, fun hns haxes => ?_⟩
  rw [Geometry.outputDims_eq haxes hns (fun {_ _ dil _} d hk hdil hs => ?_) hspatial]
  simp only [windows] at hk hdil hs
  obtain rfl : dil = 1 := (List.mem_replicate.1 (List.mem_of_getElem? hdil)).2
  simp only [hk, hs, windows]
  rfl

/-- Without windows, a sample keeps its channels alone. -/
theorem batch_everywhere {p : Pool} {rank : Nat} {x : Grid α} {n : Nat} {dims : List Nat}
    {ys : List (Grid α)} (he : p.extent = .everywhere rank) (hn : 0 < n) (hx : x.shape = n :: dims)
    (h : p.forward [x] = .ok ys) :
    ∃ y, ys = [y] ∧ y.Batch n [dims.getD (p.layout.channelAxis dims.length) 0] := by
  obtain ⟨y, hy, rfl⟩ := forward_eq_ok h
  obtain ⟨out, hyout, hsample⟩ := Grid.mapSamples_eq_ok hn hx hy
  obtain ⟨z, hz, rfl, -⟩ := hsample 0 hn
  simp only [he] at hz
  obtain ⟨-, rfl⟩ := globalPool_eq_ok hz
  have hin : (x.sample 0).shape = dims := congrArg List.tail hx
  refine ⟨y, rfl, ?_⟩
  simpa [Grid.ofList, Grid.rank, hin] using hyout

/-- Every window and channel has a value in each sample. -/
theorem batch_windows {p : Pool} {size strides : List Nat} {padding : Padding} {x : Grid α}
    {n : Nat} {dims : List Nat} {ys : List (Grid α)} (he : p.extent = .windows size strides padding)
    (hn : 0 < n) (hx : x.shape = n :: dims) (h : p.forward [x] = .ok ys) : ∃ c axes y,
      p.layout.channel? dims = some c ∧
      (windows size strides padding).axes (p.layout.spatial dims) = .ok axes ∧ ys = [y] ∧
      y.Batch n (p.layout.join c (outputDims axes)) := by
  obtain ⟨y, hy, rfl⟩ := forward_eq_ok h
  obtain ⟨out, hyout, hsample⟩ := Grid.mapSamples_eq_ok hn hx hy
  obtain ⟨z, hz, rfl, -⟩ := hsample 0 hn
  simp only [he] at hz
  obtain ⟨c, axes, hc, haxes, hzs⟩ := shape_pool hz
  have hin : (x.sample 0).shape = dims := congrArg List.tail hx
  rw [hin] at hc haxes
  exact ⟨c, axes, y, hc, haxes, rfl, hzs ▸ hyout⟩

theorem batches_operation {p : Pool} : (p.operation : Operation α).Batches b shapes := by
  refine Operation.batches_of_only (fun outs ho => ?_) fun {s dims outs x ys} _ hs ho hb hx hf => ?_
  · obtain ⟨s, hs, -⟩ := bind_eq_ok.1 ho
    exact ⟨s, onlyInput_eq_ok.1 hs⟩
  cases he : p.extent with
  | everywhere rank =>
    obtain ⟨y, rfl, hy⟩ := batch_everywhere he hb hx.shape hf
    obtain ⟨parts, hparts, rfl⟩ := outputShapes_everywhere he ho
    obtain ⟨c, hc, hch, -⟩ := hs.splitChannels hparts
    rw [Layout.getD_channelAxis hc] at hy
    exact ⟨_, [c], y, rfl, ⟨parts.batch, by rw [hch]; rfl⟩, rfl, hy⟩
  | windows size strides padding =>
    obtain ⟨c, axes, y, hc, haxes, rfl, hy⟩ := batch_windows he hb hx.shape hf
    obtain ⟨parts, hparts, houts⟩ := outputShapes_windows he ho
    obtain ⟨c', hc', hch, hsp⟩ := hs.splitChannels hparts
    obtain rfl := Option.some.inj (hc.symm.trans hc')
    obtain rfl := houts (hsp ▸ forall₂_matchesLength_some) haxes
    rw [hsp, hch, knownLengths_map_some (Geometry.length_outputDims haxes).symm]
    exact ⟨_, _, y, rfl, Shape.samples_join .., rfl, hy⟩

end Pool

/-! ## Up-sampling -/

namespace UpSampling

/-- Known spatial dimensions are multiplied by their factors. -/
theorem outputShapes_eq_ok {u : UpSampling} {s : Shape} {outs : List Shape}
    (h : u.outputShapes [s] = .ok outs) : ∃ parts, s.splitChannels u.layout = .ok parts ∧
      parts.spatial.length = u.size.length ∧ ∀ {ns : List Nat},
        List.Forall₂ MatchesLength parts.spatial ns → outs = [ChannelShape.join u.layout
          ⟨parts.batch, knownLengths parts.spatial (List.zipWith (· * ·) ns u.size),
            parts.channels⟩] := by
  simp only [outputShapes, bind_eq_ok, onlyInput_eq_ok, List.cons.injEq, and_true, exists_eq_left',
    require_eq_ok, pure_eq_ok] at h
  obtain ⟨parts, hparts, _, hrank, spatial, hspatial, rfl⟩ := h
  refine ⟨parts, hparts, hrank, fun hns => ?_⟩
  rw [mapM_dims hns hspatial]

/-- The dimensions of an up-sampled sample. -/
theorem samples_outputShapes {u : UpSampling} {s : Shape} {dims : List Nat} {outs : List Shape}
    (hs : s.Samples dims) (h : u.outputShapes [s] = .ok outs) : ∃ c s',
      dims = u.layout.join c (u.layout.spatial dims) ∧
      (u.layout.spatial dims).length = u.size.length ∧ outs = [s'] ∧
      s'.Samples (u.layout.join c (List.zipWith (· * ·) (u.layout.spatial dims) u.size)) := by
  obtain ⟨parts, hparts, hlen, houts⟩ := outputShapes_eq_ok h
  obtain ⟨c, hc, hch, hsp⟩ := hs.splitChannels hparts
  rw [hsp, List.length_map] at hlen
  obtain rfl := houts (hsp ▸ forall₂_matchesLength_some)
  rw [hsp, hch, knownLengths_map_some (by simp [hlen])]
  exact ⟨c, _, (Layout.join_spatial hc).symm, hlen, rfl, Shape.samples_join ..⟩

theorem forward_eq_ok {u : UpSampling} {x : Grid α} {ys : List (Grid α)}
    (h : u.forward [x] = .ok ys) : ∃ y, x.mapSamples u.sample = .ok y ∧ ys = [y] := by
  simp only [forward, bind_eq_ok, onlyInput_eq_ok, List.cons.injEq, and_true, exists_eq_left',
    pure_eq_ok] at h
  obtain ⟨y, hy, rfl⟩ := h
  exact ⟨y, hy, rfl⟩

omit [Scalar α] in
/-- The corners of an axis less than a word has bits can be counted. -/
theorem requireCorners_eq_ok {u : UpSampling} {dims : List Nat} : u.requireCorners dims = .ok () ↔
    (u.interpolation = .bilinear → 0 < volume dims → u.rank < Word.bits) := by
  rw [← and_imp, requireCorners]
  split
  case isTrue h =>
    rw [forall_prop_of_true h, Word.shiftedOne]
    split
    case isTrue hlt => exact iff_of_true rfl hlt
    case isFalse hge => exact iff_of_false nofun hge
  case isFalse h => exact iff_of_true rfl fun h' => absurd h' h

theorem sample_eq_ok {u : UpSampling} {x y : Grid α} (h : u.sample x = .ok y) :
    y = (u.sampleLast (x.toLast u.layout)).fromLast u.layout := by
  obtain ⟨_, -, h⟩ := bind_eq_ok.1 h
  obtain ⟨_, -, h⟩ := bind_eq_ok.1 h
  obtain ⟨_, -, h⟩ := bind_eq_ok.1 h
  exact (pure_eq_ok.1 h).symm

omit [Scalar α] in
theorem dimsLast_join {u : UpSampling} (c : Nat) (hw : List Nat) :
    u.dimsLast (hw ++ [c]) = List.zipWith (· * ·) hw u.size ++ [c] := by
  simp [dimsLast]

/-- A sample is repeated if memory can hold the result. -/
theorem exists_sample {u : UpSampling} {x : Grid α} {c : Nat} {hw : List Nat}
    (hn : u.interpolation = .nearest) (hx : x.shape = u.layout.join c hw)
    (hlen : hw.length = u.size.length)
    (hroom : requireRoom valueBytes (u.layout.join c (List.zipWith (· * ·) hw u.size)) = .ok ()) :
    ∃ z, u.sample x = .ok z ∧
      z.shape = u.layout.join c (List.zipWith (· * ·) hw u.size) := by
  have hlast : u.dimsLast (u.layout.toLast x.shape) = List.zipWith (· * ·) hw u.size ++ [c] := by
    rw [hx, Layout.toLast_join, dimsLast_join]
  refine ⟨(u.sampleLast (x.toLast u.layout)).fromLast u.layout,
    bind_eq_ok.2 ⟨(), ?_, bind_eq_ok.2 ⟨(), ?_, bind_eq_ok.2 ⟨(), ?_, rfl⟩⟩⟩, ?_⟩
  · rw [Grid.rank, hx, rank, ← hlen]
    exact Layout.requireSpatial_join c hw
  · rw [hlast, ← requireRoom_perm (u.layout.join_perm _ _), hroom]
  · rw [requireCorners_eq_ok, hn]
    rintro ⟨⟩
  · exact congrArg u.layout.fromLast hlast

theorem batch_forward {u : UpSampling} {x : Grid α} {n c : Nat} {dims : List Nat}
    {ys : List (Grid α)} (hn : 0 < n) (hx : x.shape = n :: dims) (hc : u.layout.channel? dims = some c)
    (h : u.forward [x] = .ok ys) : ∃ y, ys = [y] ∧
      y.Batch n (u.layout.join c (List.zipWith (· * ·) (u.layout.spatial dims) u.size)) := by
  obtain ⟨y, hy, rfl⟩ := forward_eq_ok h
  obtain ⟨out, hyout, hsample⟩ := Grid.mapSamples_eq_ok hn hx hy
  obtain ⟨z, hz, rfl, -⟩ := hsample 0 hn
  obtain rfl := sample_eq_ok hz
  have hshape : ((u.sampleLast ((x.sample 0).toLast u.layout)).fromLast u.layout).shape =
      u.layout.join c (List.zipWith (· * ·) (u.layout.spatial dims) u.size) := by
    change u.layout.fromLast (u.dimsLast (u.layout.toLast x.shape.tail)) = _
    rw [hx, List.tail_cons, ← Layout.join_spatial hc, Layout.toLast_join, dimsLast_join,
      Layout.spatial_join]
    rfl
  exact ⟨y, rfl, hshape ▸ hyout⟩

theorem batches_operation {u : UpSampling} : (u.operation : Operation α).Batches b shapes := by
  refine Operation.batches_of_only (fun outs ho => ?_) fun {s dims outs x ys} _ hs ho hb hx hf => ?_
  · obtain ⟨s, hs, -⟩ := bind_eq_ok.1 ho
    exact ⟨s, onlyInput_eq_ok.1 hs⟩
  obtain ⟨c, s', hdims, -, rfl, hs'⟩ := samples_outputShapes hs ho
  obtain ⟨y, rfl, hy⟩ :=
    batch_forward hb hx.shape (hdims ▸ Layout.channel?_join u.layout c _) hf
  exact ⟨s', _, y, rfl, hs', rfl, hy⟩

end UpSampling

/-! ## Zero padding -/

/-- The position inside of the padding is the one that is moved to the
    position. -/
theorem unpadded?_eq_some : ∀ {pads : List (Nat × Nat)} {dims p q : List Nat},
    pads.length = dims.length → p.length = dims.length → (unpadded? pads dims p = some q ↔
      q ∈ positions dims ∧ p = List.zipWith (· + ·) (pads.map Prod.fst) q)
  | [], [], [], q, _, _ => by
    simp only [unpadded?, Option.some.injEq, positions, List.mem_singleton, List.map_nil,
      List.zipWith_nil_left, and_true]
    exact eq_comm
  | pad :: pads, d :: ds, i :: is, q, hpads, hp => by
    have ih : ∀ q, unpadded? pads ds is = some q ↔
        q ∈ positions ds ∧ is = List.zipWith (· + ·) (pads.map Prod.fst) q := fun q =>
      unpadded?_eq_some (by simpa using hpads) (by simpa using hp)
    obtain ⟨before, after⟩ := pad
    rw [unpadded?]
    split
    case isTrue hin =>
      rw [Option.map_eq_some_iff]
      constructor
      · rintro ⟨js, hjs, rfl⟩
        obtain ⟨hmem, hzip⟩ := (ih js).1 hjs
        refine ⟨cons_mem_positions.2 ⟨by omega, hmem⟩, ?_⟩
        change i :: is = (before + (i - before)) :: _
        rw [Nat.add_sub_cancel' hin.1, hzip]
      · rintro ⟨hmem, hzip⟩
        obtain ⟨j, js, hj, -, rfl⟩ := List.forall₂_cons_right_iff.1 (mem_positions.1 hmem)
        obtain ⟨hij, htail⟩ := List.cons.inj hzip
        change i = before + j at hij
        exact ⟨js, (ih js).2 ⟨(cons_mem_positions.1 hmem).2, htail⟩, by simp [hij]⟩
    case isFalse hout =>
      refine iff_of_false (by simp) ?_
      rintro ⟨hmem, hzip⟩
      obtain ⟨j, js, hj, -, rfl⟩ := List.forall₂_cons_right_iff.1 (mem_positions.1 hmem)
      have hij : i = before + j := (List.cons.inj hzip).1
      omega

omit [Scalar α] in
theorem Grid.value_padded [Zero α] {pads : List (Nat × Nat)} {x : Grid α} {p : List Nat}
    (hp : p ∈ positions (x.padded pads).shape) :
    (x.padded pads).value p = ((unpadded? pads x.shape p).map x.value).getD 0 :=
  Grid.value_ofFn _ hp

/-- Nothing is added to the batch and the channels. -/
theorem paddedDims_join {l : Layout} {padding : List (Nat × Nat)} {n c : Nat} {hw : List Nat}
    (hlen : hw.length = padding.length) :
    paddedDims ((0, 0) :: l.join (0, 0) padding) (n :: l.join c hw) =
      n :: l.join c (paddedDims padding hw) := by
  rw [paddedDims, List.zipWith_cons_cons, Layout.zipWith_join hlen.symm]
  rfl

omit [Scalar α] in
/-- A padded sample has the values of the sample, moved behind the padding. -/
theorem Grid.value_padded_inside [Zero α] {l : Layout} {padding : List (Nat × Nat)} {x : Grid α}
    {n c i : Nat} {hw q : List Nat} (hx : x.shape = n :: l.join c hw)
    (hlen : hw.length = padding.length) (hi : i < n) (hq : q ∈ positions (l.join c hw))
    (hp : List.zipWith (· + ·) (l.join 0 (padding.map Prod.fst)) q ∈ positions
      (l.join c (paddedDims padding hw))) :
    (x.padded ((0, 0) :: l.join (0, 0) padding)).value
      (i :: List.zipWith (· + ·) (l.join 0 (padding.map Prod.fst)) q) = x.value (i :: q) := by
  have hmem : i :: List.zipWith (· + ·) (l.join 0 (padding.map Prod.fst)) q ∈
      positions (x.padded ((0, 0) :: l.join (0, 0) padding)).shape := by
    change _ ∈ positions (paddedDims _ x.shape)
    rw [hx, paddedDims_join hlen]
    exact cons_mem_positions.2 ⟨hi, hp⟩
  rw [value_padded hmem, (unpadded?_eq_some (q := i :: q) (by simp [hx, hlen])
    (by simp [hx, hlen, length_of_mem_positions hq])).2]
  · rfl
  · rw [hx, List.map_cons, Layout.map_join]
    exact ⟨cons_mem_positions.2 ⟨hi, hq⟩, by simp⟩

omit [Scalar α] in
/-- All other values of a padded sample are zero. -/
theorem Grid.value_padded_outside [Zero α] {l : Layout} {padding : List (Nat × Nat)} {x : Grid α}
    {n c i : Nat} {hw p : List Nat} (hx : x.shape = n :: l.join c hw)
    (hlen : hw.length = padding.length) (hi : i < n)
    (hp : p ∈ positions (l.join c (paddedDims padding hw)))
    (hnone : ∀ q ∈ positions (l.join c hw),
      p ≠ List.zipWith (· + ·) (l.join 0 (padding.map Prod.fst)) q) :
    (x.padded ((0, 0) :: l.join (0, 0) padding)).value (i :: p) = 0 := by
  have hmem : i :: p ∈ positions (x.padded ((0, 0) :: l.join (0, 0) padding)).shape := by
    change _ ∈ positions (paddedDims _ x.shape)
    rw [hx, paddedDims_join hlen]
    exact cons_mem_positions.2 ⟨hi, hp⟩
  rw [value_padded hmem]
  cases hu : unpadded? ((0, 0) :: l.join (0, 0) padding) x.shape (i :: p) with
  | none => rfl
  | some q =>
    obtain ⟨hq, heq⟩ := (unpadded?_eq_some (by simp [hx, hlen])
      (by simp [hx, hlen, paddedDims, length_of_mem_positions hp])).1 hu
    rw [hx] at hq
    obtain ⟨j, js, -, -, rfl⟩ := List.forall₂_cons_right_iff.1 (mem_positions.1 hq)
    rw [List.map_cons, Layout.map_join] at heq
    exact absurd (List.cons.inj heq).2 (hnone js (cons_mem_positions.1 hq).2)

namespace ZeroPadding

/-- The padding is added to known spatial dimensions. -/
theorem outputShapes_eq_ok {z : ZeroPadding} {s : Shape} {outs : List Shape}
    (h : z.outputShapes [s] = .ok outs) : ∃ parts, s.splitChannels z.layout = .ok parts ∧
      parts.spatial.length = z.padding.length ∧ ∀ {ns : List Nat},
        List.Forall₂ MatchesLength parts.spatial ns → outs = [ChannelShape.join z.layout
          ⟨parts.batch, knownLengths parts.spatial (paddedDims z.padding ns), parts.channels⟩] := by
  simp only [outputShapes, bind_eq_ok, onlyInput_eq_ok, List.cons.injEq, and_true, exists_eq_left',
    require_eq_ok, pure_eq_ok] at h
  obtain ⟨parts, hparts, _, hrank, spatial, hspatial, rfl⟩ := h
  refine ⟨parts, hparts, hrank, fun hns => ?_⟩
  rw [mapM_dims (f := fun d (q : Nat × Nat) => d + q.1 + q.2) hns hspatial, paddedDims,
    List.zipWith_comm]

theorem samples_outputShapes {z : ZeroPadding} {s : Shape} {dims : List Nat} {outs : List Shape}
    (hs : s.Samples dims) (h : z.outputShapes [s] = .ok outs) : ∃ c s',
      dims = z.layout.join c (z.layout.spatial dims) ∧
      (z.layout.spatial dims).length = z.padding.length ∧ outs = [s'] ∧
      s'.Samples (z.layout.join c (paddedDims z.padding (z.layout.spatial dims))) := by
  obtain ⟨parts, hparts, hlen, houts⟩ := outputShapes_eq_ok h
  obtain ⟨c, hc, hch, hsp⟩ := hs.splitChannels hparts
  rw [hsp, List.length_map] at hlen
  obtain rfl := houts (hsp ▸ forall₂_matchesLength_some)
  rw [hsp, hch, knownLengths_map_some (by simp [paddedDims, hlen])]
  exact ⟨c, _, (Layout.join_spatial hc).symm, hlen, rfl, Shape.samples_join ..⟩

theorem forward_eq_ok {z : ZeroPadding} {x : Grid α} {ys : List (Grid α)}
    (h : z.forward [x] = .ok ys) : ∃ pads, z.pads x.rank = .ok pads ∧
      addressable (paddedDims pads x.shape) = true ∧ ys = [x.padded pads] := by
  simp only [forward, bind_eq_ok, onlyInput_eq_ok, List.cons.injEq, and_true, exists_eq_left',
    pure_eq_ok] at h
  obtain ⟨pads, hpads, ⟨⟩, hroom, rfl⟩ := h
  exact ⟨pads, hpads, (requireRoom_eq_ok.1 hroom).1, rfl⟩

/-- Nothing is put around the batch and the channels. -/
theorem pads_eq_ok {z : ZeroPadding} {pads : List (Nat × Nat)} :
    z.pads (z.padding.length + 2) = .ok pads ↔
      pads = (0, 0) :: z.layout.join (0, 0) z.padding := by
  simp only [ZeroPadding.pads, rank, le_refl, if_true, List.take_length, Except.ok.injEq]
  exact eq_comm

/-- A batch is padded if memory can hold the result. -/
theorem forward_of_room {z : ZeroPadding} {x : Grid α} {n c : Nat} {hw : List Nat}
    (hx : x.shape = n :: z.layout.join c hw) (hlen : hw.length = z.padding.length)
    (hroom : requireRoom valueBytes (n :: z.layout.join c (paddedDims z.padding hw)) = .ok ()) :
    z.forward [x] = .ok [x.padded ((0, 0) :: z.layout.join (0, 0) z.padding)] := by
  refine bind_eq_ok.2 ⟨x, onlyInput_eq_ok.2 rfl, bind_eq_ok.2 ⟨_, ?_, bind_eq_ok.2 ⟨(), ?_, rfl⟩⟩⟩
  · rw [Grid.rank, hx, List.length_cons, Layout.length_join, hlen]
    exact pads_eq_ok.2 rfl
  · rw [hx, paddedDims_join hlen, hroom]

theorem batch_forward {z : ZeroPadding} {x : Grid α} {n c : Nat} {dims : List Nat}
    {ys : List (Grid α)} (hx : x.shape = n :: dims) (hc : z.layout.channel? dims = some c)
    (hlen : (z.layout.spatial dims).length = z.padding.length) (h : z.forward [x] = .ok ys) :
    ∃ y, ys = [y] ∧ y.Batch n (z.layout.join c (paddedDims z.padding (z.layout.spatial dims))) := by
  obtain ⟨pads, hpads, ha, rfl⟩ := forward_eq_ok h
  have hdims := Layout.join_spatial hc
  rw [Grid.rank, hx, List.length_cons, ← hdims, Layout.length_join, hlen] at hpads
  obtain rfl := pads_eq_ok.1 hpads
  have hshape : paddedDims ((0, 0) :: z.layout.join (0, 0) z.padding) x.shape =
      n :: z.layout.join c (paddedDims z.padding (z.layout.spatial dims)) := by
    rw [hx, ← paddedDims_join hlen, hdims]
  exact ⟨_, rfl, hshape, ha⟩

theorem batches_operation {z : ZeroPadding} : (z.operation : Operation α).Batches b shapes := by
  refine Operation.batches_of_only (fun outs ho => ?_) fun {s dims outs x ys} _ hs ho hb hx hf => ?_
  · obtain ⟨s, hs, -⟩ := bind_eq_ok.1 ho
    exact ⟨s, onlyInput_eq_ok.1 hs⟩
  obtain ⟨c, s', hdims, hlen, rfl, hs'⟩ := samples_outputShapes hs ho
  obtain ⟨y, rfl, hy⟩ :=
    batch_forward hx.shape (hdims ▸ Layout.channel?_join z.layout c _) hlen hf
  exact ⟨s', _, y, rfl, hs', rfl, hy⟩

end ZeroPadding
end Neuroform

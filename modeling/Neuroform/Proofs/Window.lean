/-
  Neuroform — convolutions and poolings, taken apart.

  One axis under a window is described by `Padding.axis`, and the axes of a
  geometry are those of its entries (`Geometry.axes_eq_ok`).  A convolution and
  a pooling that succeed have one value for every window and channel.
-/
import Neuroform.Proofs.Accumulation
import Neuroform.Proofs.Layer.Matching

namespace Neuroform

/-! ## Axes -/

theorem Padding.axes_eq_ok {p : Padding} : ∀ {ds ks dils ss : List Nat} {padded : List PaddedAxis},
    p.axes ds ks dils ss = .ok padded → padded.length = ds.length ∧
      ∀ (n d : Nat), ds[n]? = some d → ∃ k dil s a, ks[n]? = some k ∧ dils[n]? = some dil ∧
        ss[n]? = some s ∧ p.axis d k dil s = .ok a ∧ padded[n]? = some a
  | [], _, _, _, _, h => by
    obtain rfl := Except.ok.inj h
    simp
  | _ :: _, [], _, _, _, h => by simp [Padding.axes] at h
  | _ :: _, _ :: _, [], _, _, h => by simp [Padding.axes] at h
  | _ :: _, _ :: _, _ :: _, [], _, h => by simp [Padding.axes] at h
  | d :: ds, k :: ks, dil :: dils, s :: ss, padded, h => by
    simp only [Padding.axes, bind_eq_ok, pure_eq_ok] at h
    obtain ⟨a, ha, rest, hrest, rfl⟩ := h
    obtain ⟨hlen, hget⟩ := Padding.axes_eq_ok hrest
    refine ⟨by simp [hlen], fun n d' hd => ?_⟩
    cases n with
    | zero =>
      obtain rfl := Option.some.inj hd
      exact ⟨k, dil, s, a, rfl, rfl, rfl, ha, rfl⟩
    | succ n => exact hget n d' hd

/-- Axes that exist one by one exist together. -/
theorem Padding.exists_axes {p : Padding} : ∀ {ds ks dils ss : List Nat},
    (∀ n d : Nat, ds[n]? = some d → ∃ k dil s a, ks[n]? = some k ∧ dils[n]? = some dil ∧
      ss[n]? = some s ∧ p.axis d k dil s = .ok a) → ∃ padded, p.axes ds ks dils ss = .ok padded
  | [], _, _, _, _ => ⟨[], rfl⟩
  | d :: ds, ks, dils, ss, h => by
    obtain ⟨k, dil, s, a, hk, hdil, hs, ha⟩ := h 0 d rfl
    obtain ⟨ks, rfl⟩ := List.head?_eq_some_iff.1 (List.head?_eq_getElem? ▸ hk)
    obtain ⟨dils, rfl⟩ := List.head?_eq_some_iff.1 (List.head?_eq_getElem? ▸ hdil)
    obtain ⟨ss, rfl⟩ := List.head?_eq_some_iff.1 (List.head?_eq_getElem? ▸ hs)
    obtain ⟨padded, hpadded⟩ : ∃ padded, p.axes ds ks dils ss = .ok padded :=
      exists_axes fun n => h (n + 1)
    exact ⟨a :: padded, bind_eq_ok.2 ⟨a, ha, bind_eq_ok.2 ⟨padded, hpadded, rfl⟩⟩⟩

section
variable {g : Geometry} {ns : List Nat} {axes : List SlidingAxis}

/-- The axes of a geometry, one by one. -/
theorem Geometry.axes_eq_ok (h : g.axes ns = .ok axes) : axes.length = ns.length ∧
    ∀ (i n : Nat), ns[i]? = some n → ∃ k dil s a,
      g.kernel[i]? = some k ∧ g.dilations[i]? = some dil ∧
      g.strides[i]? = some s ∧ g.padding.axis n k dil s = .ok a ∧ axes[i]? = some ⟨a, s, dil⟩ := by
  obtain ⟨padded, hp, h⟩ := bind_eq_ok.1 h
  obtain rfl := pure_eq_ok.1 h
  obtain ⟨hlen, hget⟩ := Padding.axes_eq_ok hp
  have haxes : ∀ (i n : Nat), ns[i]? = some n → ∃ k dil s a, g.kernel[i]? = some k ∧
      g.dilations[i]? = some dil ∧ g.strides[i]? = some s ∧ g.padding.axis n k dil s = .ok a ∧
      (padded.zipWith (fun p sd => (⟨p, sd.1, sd.2⟩ : SlidingAxis))
        (g.strides.zip g.dilations))[i]? = some ⟨a, s, dil⟩ := by
    intro i n hn
    obtain ⟨k, dil, s, a, hk, hdil, hs, ha, hpa⟩ := hget i n hn
    refine ⟨k, dil, s, a, hk, hdil, hs, ha, ?_⟩
    simp [List.getElem?_zipWith, hpa, List.zip, hs, hdil]
  refine ⟨le_antisymm ?_ (not_lt.1 fun hlt => ?_), haxes⟩
  · rw [List.length_zipWith, hlen]
    exact min_le_left _ _
  · obtain ⟨k, dil, s, a, -, -, -, -, hget⟩ := haxes _ _ (List.getElem?_eq_getElem hlt)
    exact absurd (List.getElem?_eq_some_iff.1 hget).1 (lt_irrefl _)

theorem Geometry.exists_axes (h : ∀ n d : Nat, ns[n]? = some d → ∃ k dil s a,
    g.kernel[n]? = some k ∧ g.dilations[n]? = some dil ∧ g.strides[n]? = some s ∧
      g.padding.axis d k dil s = .ok a) : ∃ axes, g.axes ns = .ok axes := by
  obtain ⟨padded, hpadded⟩ := Padding.exists_axes h
  exact ⟨_, bind_eq_ok.2 ⟨padded, hpadded, rfl⟩⟩

/-- Windows have taps and move. -/
theorem Padding.axis_pos {p : Padding} {d k dil s : Nat} {a : PaddedAxis}
    (h : p.axis d k dil s = .ok a) : 0 < k ∧ 0 < s := by
  obtain ⟨reach, hreach, h⟩ := bind_eq_ok.1 h
  constructor
  · by_contra hk
    rw [windowReach, if_pos (Nat.eq_zero_of_not_pos hk)] at hreach
    exact fault_ne_ok hreach
  · by_contra hs
    rw [if_pos (Nat.eq_zero_of_not_pos hs)] at h
    exact fault_ne_ok h

/-- The number of window positions is inferred if the length of the axis is
    known. -/
theorem Padding.outputLength_eq_ok {p : Padding} {d v : Option Nat} {n k dil s : Nat}
    {a : PaddedAxis} (hd : MatchesLength d n) (ha : p.axis n k dil s = .ok a)
    (h : p.outputLength d (some k) (some dil) (some s) = .ok v) : v = d.map fun _ => a.output := by
  cases d with
  | none => exact (Except.ok.inj h).symm
  | some d =>
    obtain rfl := matchesLength_some.1 hd
    simp only [outputLength, orFault, Option.elim_some, bind_eq_ok, Except.ok.injEq,
      exists_eq_left', pure_eq_ok] at h
    obtain ⟨a', ha', rfl⟩ := h
    obtain rfl := Except.ok.inj (ha.symm.trans ha')
    rfl

/-- The spatial dimensions of an output are known as far as those of the input
    are. -/
theorem Geometry.outputDims_eq (h : g.axes ns = .ok axes) {ds : List (Option Nat)}
    (hds : List.Forall₂ MatchesLength ds ns) {f : Option Nat × Nat → Outcome (Option Nat)}
    (hf : ∀ {i k dil s : Nat} (d : Option Nat), g.kernel[i]? = some k → g.dilations[i]? = some dil →
      g.strides[i]? = some s → f (d, i) = g.padding.outputLength d (some k) (some dil) (some s))
    {spatial : List (Option Nat)} (hs : ds.zipIdx.mapM f = .ok spatial) :
    spatial = knownLengths ds (outputDims axes) := by
  obtain ⟨hlen, hget⟩ := axes_eq_ok h
  have hfor := mapM_forall₂.1 hs
  have hspatial : spatial.length = ds.length := by simpa using hfor.length_eq.symm
  have hdims := hds.length_eq
  refine List.ext_getElem? fun i => ?_
  by_cases hi : i < ds.length
  · obtain ⟨n, hn, hd⟩ := forall₂_getElem? hds (List.getElem?_eq_getElem hi)
    obtain ⟨k, dil, s, a, hk, hdil, hs, ha, haxis⟩ := hget i n hn
    obtain ⟨v, hv, hfv⟩ := forall₂_getElem? hfor (k := i) (b := (ds[i], i)) (by simp [hi])
    rw [hf _ hk hdil hs] at hfv
    rw [hv, Padding.outputLength_eq_ok hd ha hfv]
    simp [knownLengths, outputDims, List.getElem?_zipWith, haxis, hi]
  · rw [List.getElem?_eq_none (by omega),
      List.getElem?_eq_none (by simp [knownLengths, outputDims]; omega)]

theorem Geometry.length_outputDims (h : g.axes ns = .ok axes) :
    (outputDims axes).length = ns.length := by
  rw [outputDims, List.length_map, (axes_eq_ok h).1]

end

/-! ## Windows on samples -/

section
variable {α : Type} {g : Geometry} {x y : Grid α} {l : Layout}

/-- There are values for all windows and channels if memory can hold them. -/
theorem slidGrid_eq_ok {axes : List SlidingAxis} {channels : Nat} {f : List Nat → α} :
    slidGrid axes channels f = .ok y ↔
      requireRoom valueBytes (outputDims axes ++ [channels]) = .ok () ∧
        y = Grid.ofFn (outputDims axes ++ [channels]) f := by
  simp only [slidGrid, bind_eq_ok, requireRoom_eq_ok]
  constructor
  · rintro ⟨size, hsize, ⟨⟩, hroom, h⟩
    obtain rfl := product_eq_ok hsize
    obtain ⟨rfl, ha⟩ := Grid.arrange_eq_ok h
    exact ⟨⟨ha, requireRoom_single.1 hroom⟩, rfl⟩
  · rintro ⟨⟨ha, hroom⟩, rfl⟩
    exact ⟨_, product_of_addressable ha, (), requireRoom_single.2 hroom,
      bind_eq_ok.2 ⟨(), require_eq_ok.2 ha, rfl⟩⟩

/-- What a convolution asks for: a window for every spatial axis of the input,
    which moves, and a kernel with the axes of the window, the channels of the
    input and filters. -/
structure Geometry.Accepts (g : Geometry) (input kernel : Grid α) (dims : List Nat)
    (channels filters : Nat) : Prop where
  input : input.shape = dims ++ [channels]
  kernel : kernel.shape = g.kernel ++ [channels, filters]
  windows : g.kernel.length = dims.length
  strides : g.strides.length = dims.length
  dilations : g.dilations.length = dims.length
  moves : ∀ s ∈ g.strides, 0 < s

/-- What is asked for is not refused. -/
theorem Geometry.Accepts.convolveLast_eq [Zero α] [Add α] [Mul α] {kernel : Grid α}
    {dims : List Nat} {channels filters : Nat} (h : g.Accepts x kernel dims channels filters) :
    convolveLast g x kernel = (do
      let axes ← g.axes dims
      requireTaps g.kernel axes
      slidGrid axes filters fun p =>
        convolvedValue x kernel (taps g.kernel axes p.dropLast) channels (p.getLastD 0)) := by
  have hcheck : g.check dims.length = .ok () := bind_eq_ok.2
    ⟨(), require_eq_ok.2 ⟨h.windows, h.strides, h.dilations⟩, require_eq_ok.2 h.moves⟩
  have hrank : kernel.rank = dims.length + 2 := by simp [Grid.rank, h.kernel, h.windows]
  have htake : kernel.shape.take dims.length = g.kernel := by
    rw [h.kernel, ← h.windows, List.take_left]
  have hchannels : kernel.shape.getD dims.length 0 = channels := by simp [h.kernel, ← h.windows]
  have hfilters : kernel.shape.getD (dims.length + 1) 0 = filters := by simp [h.kernel, ← h.windows]
  simp only [Neuroform.convolveLast_eq, h.input, List.getLast?_concat, List.dropLast_concat,
    orRefuse, Option.elim_some, hcheck, hrank, htake, hchannels, hfilters, require, and_self,
    if_true]
  change (if channels = channels then Except.ok () else _) >>= _ = _
  rw [if_pos rfl]
  rfl

theorem drop_eq_pair {xs : List Nat} {n : Nat} (h : xs.length = n + 2) :
    xs.drop n = [xs.getD n 0, xs.getD (n + 1) 0] := by
  rw [List.drop_eq_getElem_cons (by omega), List.drop_eq_getElem_cons (by omega),
    List.drop_of_length_le (by omega), List.getD_eq_getElem _ _ (by omega),
    List.getD_eq_getElem _ _ (by omega)]

/-- What is not refused is what is asked for, and has a value for every window and
    filter. -/
theorem convolveLast_eq_ok [Zero α] [Add α] [Mul α] {kernel : Grid α}
    (h : convolveLast g x kernel = .ok y) : ∃ dims channels filters axes,
      g.Accepts x kernel dims channels filters ∧ g.axes dims = .ok axes ∧
      requireTaps g.kernel axes = .ok () ∧
      y = Grid.ofFn (outputDims axes ++ [filters]) fun p =>
        convolvedValue x kernel (taps g.kernel axes p.dropLast) channels (p.getLastD 0) := by
  simp only [convolveLast_eq, bind_eq_ok, orRefuse_eq_ok, require_eq_ok] at h
  obtain ⟨channels, hc, ⟨⟩, hcheck, _, ⟨hrank, hwindow⟩, _, rfl, axes, haxes, ⟨⟩, htaps, h⟩ := h
  obtain ⟨_, hlengths, hmoves⟩ := bind_eq_ok.1 hcheck
  obtain ⟨hwindows, hstrides, hdilations⟩ := require_eq_ok.1 hlengths
  exact ⟨x.shape.dropLast, _, _, axes,
    { input := (List.dropLast_append_getLast? _ hc).symm
      kernel := by rw [← hwindow, ← drop_eq_pair hrank, List.take_append_drop]
      windows := hwindows
      strides := hstrides
      dilations := hdilations
      moves := require_eq_ok.1 hmoves }, haxes, htaps, (slidGrid_eq_ok.1 h).2⟩

/-- The shape of a convolved sample. -/
theorem shape_convolve [Zero α] [Add α] [Mul α] {kernel : Grid α}
    (h : convolve l g x kernel = .ok y) : ∃ axes, g.axes (l.spatial x.shape) = .ok axes ∧
      y.shape =
        l.join (kernel.shape.getD ((l.spatial x.shape).length + 1) 0) (outputDims axes) := by
  obtain ⟨z, hz, rfl, -⟩ := Grid.throughLast_eq_ok h
  obtain ⟨dims, channels, filters, axes, haccepts, haxes, -, rfl⟩ := convolveLast_eq_ok hz
  obtain rfl : l.spatial x.shape = dims :=
    (congrArg List.dropLast haccepts.input).trans List.dropLast_concat
  refine ⟨axes, haxes, ?_⟩
  rw [haccepts.kernel, ← haccepts.windows]
  simp [Grid.fromLast, Grid.ofFn, Layout.join]

variable [Scalar α] {kind : PoolKind}

theorem poolLast_eq_ok (h : poolLast g kind x = .ok y) : ∃ channels axes,
    x.shape.getLast? = some channels ∧ g.check x.shape.dropLast.length = .ok () ∧
    g.axes x.shape.dropLast = .ok axes ∧ requireTaps g.kernel axes = .ok () ∧
    slidGrid axes channels (fun p =>
      kind.ofWindow ((taps g.kernel axes p.dropLast).map fun (_, i) =>
      x.value (i ++ [p.getLastD 0]))) = .ok y := by
  simp only [poolLast_eq, bind_eq_ok, orRefuse_eq_ok] at h
  obtain ⟨channels, hc, ⟨⟩, hcheck, axes, haxes, ⟨⟩, htaps, h⟩ := h
  exact ⟨channels, axes, hc, hcheck, haxes, htaps, h⟩

/-- The shape of a pooled sample. -/
theorem shape_pool (h : pool l g kind x = .ok y) : ∃ channels axes,
    l.channel? x.shape = some channels ∧ g.axes (l.spatial x.shape) = .ok axes ∧
    y.shape = l.join channels (outputDims axes) := by
  obtain ⟨z, hz, rfl, -⟩ := Grid.throughLast_eq_ok h
  obtain ⟨channels, axes, hc, -, haxes, -, hz⟩ := poolLast_eq_ok hz
  obtain ⟨-, rfl⟩ := slidGrid_eq_ok.1 hz
  exact ⟨channels, axes, hc, haxes, rfl⟩

theorem Layout.getD_channelAxis {dims : List Nat} {c : Nat} (h : l.channel? dims = some c) :
    dims.getD (l.channelAxis dims.length) 0 = c := by
  cases l with
  | channelsLast =>
    simp only [Layout.channel?, Layout.toLast, List.getLast?_eq_getElem?] at h
    simp [Layout.channelAxis, h]
  | channelsFirst =>
    cases dims with
    | nil => simp [Layout.channel?, Layout.toLast] at h
    | cons d ds =>
      simp only [Layout.channel?, Layout.toLast, List.getLast?_concat, Option.some.injEq] at h
      simp [Layout.channelAxis, h]

/-- Global pooling reduces every channel to one value. -/
theorem globalPool_eq_ok (h : globalPool l kind x = .ok y) : 2 ≤ x.rank ∧
    y = Grid.ofList ((List.range (x.shape.getD (l.channelAxis x.rank) 0)).map fun c =>
      kind.ofChannel (apartInChannel l (x.shape.getD (l.channelAxis x.rank) 0))
        (l.spatial x.shape)
        ((positions (l.spatial x.shape)).map fun p => x.value (l.join c p))) := by
  obtain ⟨_, hr, h⟩ := bind_eq_ok.1 h
  obtain ⟨_, -, h⟩ := bind_eq_ok.1 h
  exact ⟨require_eq_ok.1 hr, (pure_eq_ok.1 h).symm⟩

end

/-! ## Dilation rates -/

/-- A rate that counts as one is one, or there is only one tap. -/
theorem Padding.axis_undilated {p : Padding} {d k dil s : Nat} {a : PaddedAxis}
    (h : p.axis d k dil s = .ok a) (hdil : Word.signed dil = 1) :
    p.axis d k 1 s = .ok a ∧ 0 < k ∧ (k = 1 ∨ dil = 1) := by
  obtain ⟨reach, hreach, -⟩ := bind_eq_ok.1 h
  unfold windowReach at hreach
  split at hreach
  case isTrue => simp at hreach
  case isFalse hk =>
    obtain ⟨hlt, -⟩ := ofNat_eq_ok.1 hreach
    have hone : k = 1 ∨ dil = 1 := by
      by_contra hne
      have hle : dil ≤ (k - 1) * dil := Nat.le_mul_of_pos_left _ (by omega)
      have hmod : (dil : Int).bmod Word.limit % Word.limit = dil % Word.limit := Int.bmod_emod
      rw [show (dil : Int).bmod Word.limit = 1 from hdil,
        Int.emod_eq_of_lt (Int.natCast_nonneg dil) (by omega),
        Int.emod_eq_of_lt Int.one_nonneg (by omega)] at hmod
      omega
    refine ⟨?_, Nat.pos_of_ne_zero hk, hone⟩
    rcases hone with rfl | rfl
    · have hsame : windowReach 1 1 = windowReach 1 dil := by simp [windowReach]
      rw [Padding.axis, hsame]
      exact h
    · exact h

/-- Axes that windows of the same lengths move over in the same way. -/
inductive SameWindows : List Nat → List SlidingAxis → List SlidingAxis → Prop where
  | nil : SameWindows [] [] []
  | cons {k : Nat} {ks : List Nat} {a a' : SlidingAxis} {axes axes' : List SlidingAxis}
      (pos : 0 < k)
      (padded : a.padded = a'.padded) (reached : ∀ o, ∀ j < k, a.reached o j = a'.reached o j)
      (rest : SameWindows ks axes axes') : SameWindows (k :: ks) (a :: axes) (a' :: axes')

namespace SameWindows
variable {ks : List Nat} {axes axes' : List SlidingAxis}

theorem outputDims (h : SameWindows ks axes axes') : outputDims axes = outputDims axes' := by
  induction h with
  | nil => rfl
  | cons _ padded _ _ ih =>
    simp only [Neuroform.outputDims, List.map_cons, padded] at ih ⊢
    rw [ih]

theorem underAll? (h : SameWindows ks axes axes') : ∀ {p : List Nat} (o : List Nat),
    p ∈ positions ks → underAll? axes o p = underAll? axes' o p := by
  induction h with
  | nil => exact fun _ _ => rfl
  | cons _ padded reached _ ih =>
    intro p o hp
    obtain ⟨j, js, hj, hjs, rfl⟩ := List.forall₂_cons_right_iff.1 (mem_positions.1 hp)
    cases o with
    | nil => rfl
    | cons o os =>
      simp only [Neuroform.underAll?, SlidingAxis.under?, padded, reached o j hj,
        ih os (mem_positions.2 hjs)]

theorem taps (h : SameWindows ks axes axes') (o : List Nat) : taps ks axes o = taps ks axes' o :=
  List.filterMap_congr fun p hp => by rw [h.underAll? o hp]

theorem someFallsShort (h : SameWindows ks axes axes') :
    someFallsShort axes ks = someFallsShort axes' ks := by
  induction h with
  | nil => rfl
  | @cons k ks a a' axes axes' pos padded reached _ ih =>
    have hany : ∀ {p p' : Nat → Nat → Bool}, (∀ o, ∀ j < k, p o j = p' o j) →
        a.anyTap k p = a'.anyTap k p' := fun hp => by
      unfold SlidingAxis.anyTap
      rw [padded]
      refine congrArg _ (funext fun o => ?_)
      rw [Bool.eq_iff_iff, List.any_eq_true, List.any_eq_true]
      exact exists_congr fun j => and_congr_right fun hj => by rw [hp o j (List.mem_range.1 hj)]
    have hlast : a.lastReached k = a'.lastReached k := by
      rw [SlidingAxis.lastReached, reached _ _ (Nat.sub_lt pos one_pos), padded]
      rfl
    have hshort : a.anyTap k a.fallsShort = a'.anyTap k a'.fallsShort :=
      hany fun o j hj => by simp only [SlidingAxis.fallsShort, reached o j hj, padded]
    have hunder : a.anyTap k (fun o j => (a.under? o j).isSome) =
        a'.anyTap k fun o j => (a'.under? o j).isSome :=
      hany fun o j hj => by simp only [SlidingAxis.under?, reached o j hj, padded]
    simp only [Neuroform.someFallsShort, hlast, hshort, hunder, ih]

theorem requireTaps (h : SameWindows ks axes axes') :
    requireTaps ks axes = requireTaps ks axes' := by
  have hall : axes.all (0 < ·.padded.output) = axes'.all (0 < ·.padded.output) := by
    induction h with
    | nil => rfl
    | cons _ padded _ _ ih => simp only [List.all_cons, padded, ih]
  simp only [Neuroform.requireTaps, hall, h.someFallsShort]

end SameWindows

/-- The windows of a geometry, with one tap beside the other. -/
def Geometry.undilated (g : Geometry) : Geometry :=
  { g with dilations := List.replicate g.dilations.length 1 }

theorem Padding.axes_undilated {p : Padding} : ∀ {ds ks dils ss : List Nat}
    {padded : List PaddedAxis},
    p.axes ds ks dils ss = .ok padded → ks.length = ds.length → ss.length = ds.length →
    dils.length = ds.length → (∀ dil ∈ dils, Word.signed dil = 1) →
    p.axes ds ks (List.replicate dils.length 1) ss = .ok padded ∧
      SameWindows ks
        (padded.zipWith (fun p (stride, dilation) => ⟨p, stride, dilation⟩) (ss.zip dils))
        (padded.zipWith (fun p (stride, dilation) => ⟨p, stride, dilation⟩)
          (ss.zip (List.replicate dils.length 1)))
  | [], [], [], [], _, h, _, _, _, _ => by
    obtain rfl := Except.ok.inj h
    exact ⟨rfl, .nil⟩
  | d :: ds, k :: ks, dil :: dils, s :: ss, padded, h, hk, hs, hd, hone => by
    simp only [Padding.axes, bind_eq_ok, pure_eq_ok] at h
    obtain ⟨a, ha, rest, hrest, rfl⟩ := h
    obtain ⟨ha', hpos, htap⟩ := Padding.axis_undilated ha (hone dil (by simp))
    obtain ⟨hrest', hsame⟩ := Padding.axes_undilated hrest (Nat.succ.inj hk) (Nat.succ.inj hs)
      (Nat.succ.inj hd) fun e he => hone e (List.mem_cons_of_mem _ he)
    refine ⟨?_, .cons hpos rfl (fun o j hj => ?_) hsame⟩
    · simp only [List.length_cons, List.replicate_succ, Padding.axes, bind_eq_ok, pure_eq_ok]
      exact ⟨a, ha', rest, hrest', rfl⟩
    · rcases htap with rfl | rfl
      · obtain rfl : j = 0 := by omega
        simp [SlidingAxis.reached]
      · rfl

section
variable {α : Type} [Zero α] [Add α] [Mul α] {g : Geometry} {x y kernel : Grid α} {l : Layout}

/-- Dilation rates that count as one do not matter. -/
theorem convolve_undilated (h : convolve l g x kernel = .ok y)
    (hone : ∀ dil ∈ g.dilations, Word.signed dil = 1) :
    convolve l g.undilated x kernel = .ok y := by
  have hlast : ∀ {x y : Grid α}, convolveLast g x kernel = .ok y →
      convolveLast g.undilated x kernel = .ok y := by
    intro x y h
    simp only [convolveLast_eq, bind_eq_ok, orRefuse_eq_ok, Geometry.check, Geometry.axes,
      require_eq_ok, pure_eq_ok] at h ⊢
    obtain ⟨channels, hc, ⟨⟩, ⟨⟨⟩, hcheck, hmoves⟩, _, hk, _, he, axes, ⟨padded, hp, haxes⟩, ⟨⟩,
      htaps, h⟩ := h
    obtain ⟨hp', hsame⟩ := Padding.axes_undilated hp hcheck.1 hcheck.2.1 hcheck.2.2 hone
    rw [haxes] at hsame
    refine ⟨channels, hc, ⟨⟩, ⟨⟨⟩, ⟨hcheck.1, hcheck.2.1, ?_⟩, hmoves⟩, ⟨⟩, hk, ⟨⟩, he, _,
      ⟨padded, hp', rfl⟩, ⟨⟩, ?_, ?_⟩
    · simpa [Geometry.undilated] using hcheck.2.2
    · exact hsame.requireTaps.symm.trans htaps
    · simp only [slidGrid, hsame.outputDims, hsame.taps] at h
      exact h
  obtain ⟨z, hz, rfl, hrank⟩ := Grid.throughLast_eq_ok h
  exact (if_neg fun h => hrank h.1 h.2).trans (bind_eq_ok.2 ⟨_, hlast hz, rfl⟩)

end

end Neuroform

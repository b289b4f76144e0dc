/-
  Neuroform — convolutions of rows that do not fail.

  A convolution that is made for its input, and whose output size is known, has
  a value for every window and filter.  Besides that, its input and output have
  to be shapes that arrays have, the padded input may not reach beyond the signed
  words (`ConvolutionTransform.Fits`), and memory has to hold the output.
-/
import Neuroform.Network.Transform
import Neuroform.Proofs.Window

namespace Neuroform

variable {α : Type}

/-! ## Windows on one axis -/

theorem ceilDiv_lt {n step : Nat} (h : 0 < ceilDiv n step) : (ceilDiv n step - 1) * step < n := by
  have hsplit := Nat.div_add_mod n step
  unfold ceilDiv at h ⊢
  rw [mul_comm] at hsplit
  split at h
  case isTrue hmod =>
    have hpos : 0 < n / step := by simpa [hmod] using h
    have hstep : 0 < step := Nat.pos_of_ne_zero fun h0 => by simp [h0] at hpos
    rw [if_pos hmod, add_zero, Nat.sub_mul, one_mul]
    have : step ≤ n / step * step := Nat.le_mul_of_pos_left _ hpos
    omega
  case isFalse hmod =>
    rw [if_neg hmod, Nat.add_sub_cancel]
    omega

theorem windowReach_eq_ok {kernel dilation reach : Nat} :
    windowReach kernel dilation = .ok reach → reach = (kernel - 1) * dilation + 1 := by
  unfold windowReach
  split
  · simp
  · exact fun h => (ofNat_eq_ok.1 h).2.symm

theorem SlidingAxis.reached_le_lastReached {a : SlidingAxis} {kernel o k : Nat}
    (ho : o < a.padded.output) (hk : k < kernel) : a.reached o k ≤ a.lastReached kernel :=
  Nat.add_le_add (Nat.mul_le_mul_right _ (Nat.le_sub_one_of_lt ho))
    (Nat.mul_le_mul_right _ (Nat.le_sub_one_of_lt hk))

/-- The length of an axis with its padding. -/
def PaddedAxis.length (a : PaddedAxis) : Nat := a.before + a.input + a.after

/-- The last tap of the last window lies on the padded axis. -/
theorem Padding.lastReached_lt {p : Padding} {input kernel dilation stride : Nat} {a : PaddedAxis}
    (h : p.axis input kernel dilation stride = .ok a) (hs : 0 < stride) (ho : 0 < a.output) :
    (SlidingAxis.mk a stride dilation).lastReached kernel < a.length := by
  obtain ⟨reach, hreach, h⟩ := bind_eq_ok.1 h
  have hreach := windowReach_eq_ok hreach
  rw [if_neg hs.ne'] at h
  cases p with
  | valid =>
    obtain ⟨cells, hcells, h⟩ := bind_eq_ok.1 h
    obtain ⟨-, rfl⟩ := ofNat_eq_ok.1 hcells
    obtain rfl := pure_eq_ok.1 h
    have hlast := ceilDiv_lt ho
    simp only [SlidingAxis.lastReached, SlidingAxis.reached, PaddedAxis.length]
    omega
  | same =>
    obtain ⟨cells, hcells, h⟩ := bind_eq_ok.1 h
    obtain ⟨-, rfl⟩ := ofNat_eq_ok.1 hcells
    obtain rfl := pure_eq_ok.1 h
    have hmax : max (ceilDiv input stride) 1 = ceilDiv input stride := max_eq_left ho
    simp only [SlidingAxis.lastReached, SlidingAxis.reached, PaddedAxis.length, hmax]
    omega

/-! ## Windows on all axes -/

/-- The axes under windows with the given steps and dilations. -/
def slidingAxes (padded : List PaddedAxis) (strides dilations : List Nat) : List SlidingAxis :=
  padded.zipWith (fun p (stride, dilation) => ⟨p, stride, dilation⟩) (strides.zip dilations)

/-- No tap lies so far out that its distance from the input is no signed
    word. -/
theorem someFallsShort_eq_false {p : Padding} : ∀ {ds ks dils ss : List Nat}
    {padded : List PaddedAxis}, p.axes ds ks dils ss = .ok padded → (∀ s ∈ ss, 0 < s) →
    (∀ a ∈ slidingAxes padded ss dils, 0 < a.padded.output) →
    (∀ a ∈ padded, a.length < Word.signLimit) →
    someFallsShort (slidingAxes padded ss dils) ks = false
  | [], ks, dils, ss, padded, h, _, _, _ => by
    obtain rfl := Except.ok.inj h
    cases ks <;> rfl
  | _ :: _, [], _, _, _, h, _, _, _ => by simp [Padding.axes] at h
  | _ :: _, _ :: _, [], _, _, h, _, _, _ => by simp [Padding.axes] at h
  | _ :: _, _ :: _, _ :: _, [], _, h, _, _, _ => by simp [Padding.axes] at h
  | d :: ds, k :: ks, dil :: dils, s :: ss, padded, h, hs, ho, hl => by
    simp only [Padding.axes, bind_eq_ok, pure_eq_ok] at h
    obtain ⟨a, ha, rest, hrest, rfl⟩ := h
    have hlast : ¬ Word.signLimit ≤ (SlidingAxis.mk a s dil).lastReached k := by
      have := Padding.lastReached_lt ha (hs s (by simp)) (ho ⟨a, s, dil⟩ (by simp [slidingAxes]))
      have := hl a (by simp)
      omega
    have hothers := someFallsShort_eq_false hrest (fun s hs' => hs s (List.mem_cons_of_mem _ hs'))
      (fun a ha' => ho a (List.mem_cons_of_mem _ ha'))
      fun a ha' => hl a (List.mem_cons_of_mem _ ha')
    change ((decide _ && _) || (_ && someFallsShort (slidingAxes rest ss dils) ks)) = false
    rw [decide_eq_false hlast, hothers]
    simp

theorem requireTaps_eq_ok {g : Geometry} {ds : List Nat} {padded : List PaddedAxis}
    (h : g.padding.axes ds g.kernel g.dilations g.strides = .ok padded)
    (hs : ∀ s ∈ g.strides, 0 < s)
    (hl : ∀ a ∈ padded, a.length < Word.signLimit) :
    requireTaps g.kernel (slidingAxes padded g.strides g.dilations) = .ok () := by
  refine if_neg fun ⟨ho, hshort⟩ => ?_
  rw [someFallsShort_eq_false h hs (by simpa using ho) hl] at hshort
  simp at hshort

/-! ## Convolutions -/

namespace ConvolutionTransform
variable {c : ConvolutionTransform α}

/-- A convolution that `make` gives, with windows that have taps and move. -/
structure WellFormed (c : ConvolutionTransform α) : Prop where
  made : make c.filters c.inputShape c.kernelSize c.strides c.padding c.layout c.kernel = .ok c
  taps : ∀ k ∈ c.kernelSize, 0 < k
  moves : ∀ s ∈ c.strides, 0 < s

/-- Input and output are shapes that arrays have, and padded axes are as long as
    axes can be. -/
structure Fits (c : ConvolutionTransform α) : Prop where
  input : addressable c.inputShape
  output : ∀ shape, c.outputShape = .ok shape → addressable shape
  padded : ∀ axes, c.padding.axes (c.layout.spatial c.inputShape) c.kernelSize
    c.geometry.dilations c.strides = .ok axes → ∀ a ∈ axes, a.length < Word.signLimit

theorem WellFormed.ranks (h : c.WellFormed) : c.inputShape.length = c.kernelSize.length + 1 ∧
    c.strides.length = c.kernelSize.length ∧
    c.kernel.shape = c.kernelSize ++ [(c.layout.channel? c.inputShape).getD 0, c.filters] := by
  obtain ⟨_, hranks, h⟩ := bind_eq_ok.1 h.made
  obtain ⟨_, hkernel, -⟩ := bind_eq_ok.1 h
  exact ⟨(require_eq_ok.1 hranks).1, (require_eq_ok.1 hranks).2, require_eq_ok.1 hkernel⟩

theorem WellFormed.exists_channel (h : c.WellFormed) :
    ∃ channels, c.layout.channel? c.inputShape = some channels := by
  refine Option.isSome_iff_exists.1 (List.getLast?_isSome.2 fun hnil => ?_)
  have hlen := c.layout.length_toLast c.inputShape
  rw [hnil, h.ranks.1] at hlen
  simp at hlen

theorem WellFormed.length_spatial (h : c.WellFormed) :
    (c.layout.spatial c.inputShape).length = c.kernelSize.length := by
  rw [c.layout.length_spatial, h.ranks.1, Nat.add_sub_cancel]

/-- Samples whose channels come last are accepted. -/
theorem WellFormed.accepts (h : c.WellFormed) {x : Grid α} {channels : Nat}
    (hchannels : c.layout.channel? c.inputShape = some channels)
    (hx : x.shape = c.layout.toLast c.inputShape) :
    c.geometry.Accepts x c.kernel (c.layout.spatial c.inputShape) channels c.filters := by
  obtain ⟨-, hstrides, hkernel⟩ := h.ranks
  rw [hchannels, Option.getD_some] at hkernel
  exact
    { input := hx.trans (List.dropLast_append_getLast? _ hchannels).symm
      kernel := hkernel
      windows := h.length_spatial.symm
      strides := hstrides.trans h.length_spatial.symm
      dilations := List.length_replicate.trans h.length_spatial.symm
      moves := h.moves }

variable [Zero α] [Add α] [Mul α]

/-- The values of a grid are read as the grid. -/
theorem applyRow_toList {x : Grid α} (hx : x.shape = c.inputShape)
    (ha : addressable c.inputShape) :
    c.applyRow x.toList = convolve c.layout c.geometry x c.kernel := by
  have hreshape : (Grid.ofList x.toList).reshape c.inputShape = .ok x := by
    rw [← hx] at ha ⊢
    exact dif_pos ⟨ha, x.size_cells.symm⟩
  rw [applyRow, hreshape]
  rfl

/-- A sample whose channels come last is convolved. -/
theorem exists_convolveLast (h : c.WellFormed) (hf : c.Fits) {shape : List Nat}
    (hout : c.outputShape = .ok shape) (hroom : volume shape * valueBytes < Word.signLimit)
    {x : Grid α} (hx : x.shape = c.layout.toLast c.inputShape) :
    ∃ y, convolveLast c.geometry x c.kernel = .ok y := by
  obtain ⟨axes, haxes, hshape⟩ := bind_eq_ok.1 hout
  obtain rfl := pure_eq_ok.1 hshape
  obtain ⟨padded, hpadded, hslide⟩ := bind_eq_ok.1 haxes
  obtain rfl := pure_eq_ok.1 hslide
  obtain ⟨channels, hchannels⟩ := h.exists_channel
  have htaps := requireTaps_eq_ok (g := c.geometry) hpadded h.moves (hf.padded padded hpadded)
  have hspace := requireRoom_eq_ok.2 ⟨hf.output _ hout, hroom⟩
  rw [requireRoom_perm (c.layout.join_perm _ _)] at hspace
  rw [(h.accepts hchannels hx).convolveLast_eq]
  exact ⟨_, bind_eq_ok.2 ⟨_, haxes, bind_eq_ok.2 ⟨(), htaps, slidGrid_eq_ok.2 ⟨hspace, rfl⟩⟩⟩⟩

end ConvolutionTransform
end Neuroform

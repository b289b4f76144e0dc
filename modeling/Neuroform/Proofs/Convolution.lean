/-
  Neuroform — convolution is the discrete convolution.

  A convolution computes sizes in words and decides in signed words which taps
  lie on the input.  `WindowAxis` describes one axis under its window in numbers
  without bounds, and `Geometry.Fits` says when the bounds do not matter: then,
  and only then, an accepted convolution has a result (`convolveLast_eq_ok_iff`).
  In exact arithmetic, every value of it is a sum over all kernel positions and
  channels, where the input is zero outside of its box (`Grid.valueAt`).
-/
import Neuroform.Proofs.Network.Convolving
import Neuroform.Proofs.Rational

namespace Neuroform

/-! ## One axis -/

/-- An axis and the window that slides over it. -/
structure WindowAxis where
  length : Nat
  kernel : Nat
  dilation : Nat
  stride : Nat

namespace WindowAxis

/-- The number of cells from the first tap of the window to its last. -/
def reach (w : WindowAxis) : Nat := (w.kernel - 1) * w.dilation + 1

/-- The number of window positions. -/
def output (w : WindowAxis) : Padding → Nat
  | .valid => ceilDiv (w.length + 1 - w.reach) w.stride
  | .same => ceilDiv w.length w.stride

/-- The largest number that is computed besides the reach: the cells that the
    windows cover, or one more than the cells that there are. -/
def extent (w : WindowAxis) : Padding → Nat
  | .valid => w.length + 1
  | .same => (max (w.output .same) 1 - 1) * w.stride + w.reach

/-- The number of padding cells. -/
def padding (w : WindowAxis) : Padding → Nat
  | .valid => 0
  | .same => w.extent .same - w.length

/-- The number of padding cells before the input. -/
def before (w : WindowAxis) (p : Padding) : Nat := w.padding p / 2

/-- The coordinate of tap `k` of window `o`; it is negative in the padding before
    the input. -/
def coordinate (w : WindowAxis) (p : Padding) (o k : Nat) : Int :=
  o * w.stride + k * w.dilation - w.before p

/-- The computed sizes are words. -/
structure Fits (w : WindowAxis) (p : Padding) : Prop where
  reach : w.reach < Word.limit
  extent : w.extent p < Word.limit

/-- The axis as the convolution sees it. -/
def sliding (w : WindowAxis) (p : Padding) : SlidingAxis :=
  ⟨⟨w.length, w.output p, w.before p, w.padding p - w.before p⟩, w.stride, w.dilation⟩

variable {w : WindowAxis} {p : Padding}

theorem axis_eq_ok_iff (hk : 0 < w.kernel) (hs : 0 < w.stride) {a : PaddedAxis} :
    p.axis w.length w.kernel w.dilation w.stride = .ok a ↔
      w.Fits p ∧ a = (w.sliding p).padded := by
  have hreach : ∀ {r}, windowReach w.kernel w.dilation = .ok r ↔
      w.reach < Word.limit ∧ w.reach = r := by
    intro r
    rw [windowReach, if_neg hk.ne', ofNat_eq_ok]
    rfl
  have hfits : ∀ {b : PaddedAxis}, (w.reach < Word.limit ∧ w.extent p < Word.limit ∧ b = a) ↔
      w.Fits p ∧ a = b := by
    intro b
    constructor
    · rintro ⟨hreach, hextent, rfl⟩
      exact ⟨⟨hreach, hextent⟩, rfl⟩
    · rintro ⟨hfits, rfl⟩
      exact ⟨hfits.reach, hfits.extent, rfl⟩
  rw [Padding.axis, bind_eq_ok, ← hfits]
  simp only [hreach, if_neg hs.ne', and_assoc, exists_and_left, exists_eq_left']
  refine and_congr_right fun _ => ?_
  cases p with
  | valid =>
    simp only [bind_eq_ok, ofNat_eq_ok, pure_eq_ok, and_assoc, exists_and_left, exists_eq_left']
    simp [sliding, output, before, padding, extent]
  | same =>
    simp only [bind_eq_ok, ofNat_eq_ok, pure_eq_ok, and_assoc, exists_and_left, exists_eq_left']
    rfl

theorem reached_sliding (o k : Nat) :
    ((w.sliding p).reached o k : Int) = w.coordinate p o k + w.before p := by
  simp [SlidingAxis.reached, coordinate, sliding]

/-- The cell under a tap is the one at its coordinate. -/
theorem under?_sliding (o k : Nat) : (w.sliding p).under? o k =
    if 0 ≤ w.coordinate p o k ∧ w.coordinate p o k < w.length then
      some (w.coordinate p o k).toNat
    else none := by
  have hreached := reached_sliding (w := w) (p := p) o k
  have hbefore : (w.sliding p).padded.before = w.before p := rfl
  have hinput : (w.sliding p).padded.input = w.length := rfl
  rw [SlidingAxis.under?, hbefore, hinput]
  by_cases h : 0 ≤ w.coordinate p o k ∧ w.coordinate p o k < w.length
  · rw [if_pos h, if_pos (by omega), Option.some.injEq]
    omega
  · rw [if_neg h, if_neg (by omega)]

/-- The taps whose distance from the input is no signed word. -/
theorem fallsShort_sliding (o k : Nat) : (w.sliding p).fallsShort o k = true ↔
    w.coordinate p o k < Word.signLimit ∧ Word.signLimit ≤ w.coordinate p o k + w.before p := by
  have hreached := reached_sliding (w := w) (p := p) o k
  have hbefore : (w.sliding p).padded.before = w.before p := rfl
  rw [SlidingAxis.fallsShort, Bool.and_eq_true, decide_eq_true_iff, decide_eq_true_iff, hbefore]
  omega

end WindowAxis

/-! ## All axes -/

/-- The axes of an input and the windows over them. -/
def windowAxes : List Nat → List Nat → List Nat → List Nat → List WindowAxis
  | n :: ns, k :: ks, dil :: dils, s :: ss => ⟨n, k, dil, s⟩ :: windowAxes ns ks dils ss
  | _, _, _, _ => []

/-- The axes of an input with spatial dimensions `dims` and the windows of a
    geometry over them. -/
def Geometry.windowAxes (g : Geometry) (dims : List Nat) : List WindowAxis :=
  Neuroform.windowAxes dims g.kernel g.dilations g.strides

/-- The coordinates of tap `k` of window `o`. -/
def coordinates (p : Padding) (ws : List WindowAxis) (o k : List Nat) : List Int :=
  List.zipWith (fun w (o, k) => w.coordinate p o k) ws (o.zip k)

/-- Coordinates that lie in a box. -/
def InBox (is : List Int) (dims : List Nat) : Prop :=
  List.Forall₂ (fun (i : Int) (d : Nat) => 0 ≤ i ∧ i < d) is dims

instance (is : List Int) (dims : List Nat) : Decidable (InBox is dims) :=
  inferInstanceAs (Decidable (List.Forall₂ _ _ _))

theorem InBox.mem_positions {is : List Int} {dims : List Nat} (h : InBox is dims) :
    is.map Int.toNat ∈ positions dims :=
  Neuroform.mem_positions.2 (List.forall₂_map_left_iff.2
    (h.imp fun i d ⟨hpos, hlt⟩ => by omega))

theorem Padding.axes_eq_ok_iff {p : Padding} : ∀ {ns ks dils ss : List Nat}
    {padded : List PaddedAxis}, ks.length = ns.length → dils.length = ns.length →
    ss.length = ns.length → (∀ k ∈ ks, 0 < k) → (∀ s ∈ ss, 0 < s) →
    (p.axes ns ks dils ss = .ok padded ↔ (∀ w ∈ windowAxes ns ks dils ss, w.Fits p) ∧
      padded = (windowAxes ns ks dils ss).map fun w => (w.sliding p).padded)
  | [], ks, dils, ss, padded, _, _, _, _, _ => by
    simp [Padding.axes, windowAxes, eq_comm]
  | n :: ns, k :: ks, dil :: dils, s :: ss, padded, hk, hd, hs, hkpos, hspos => by
    have hfirst := @WindowAxis.axis_eq_ok_iff ⟨n, k, dil, s⟩ p (hkpos k (by simp))
      (hspos s (by simp))
    have hrest := fun rest => @Padding.axes_eq_ok_iff p ns ks dils ss rest (Nat.succ.inj hk)
      (Nat.succ.inj hd) (Nat.succ.inj hs) (fun k hk => hkpos k (List.mem_cons_of_mem _ hk))
      fun s hs => hspos s (List.mem_cons_of_mem _ hs)
    simp only [Padding.axes, bind_eq_ok, pure_eq_ok, hfirst, hrest, windowAxes,
      List.forall_mem_cons, List.map_cons]
    constructor
    · rintro ⟨_, ⟨hw, rfl⟩, _, ⟨hws, rfl⟩, rfl⟩
      exact ⟨⟨hw, hws⟩, rfl⟩
    · rintro ⟨⟨hw, hws⟩, rfl⟩
      exact ⟨_, ⟨hw, rfl⟩, _, ⟨hws, rfl⟩, rfl⟩

theorem windowAxes_map : ∀ {ns ks dils ss : List Nat}, ks.length = ns.length →
    dils.length = ns.length → ss.length = ns.length →
    (windowAxes ns ks dils ss).map (·.length) = ns ∧ (windowAxes ns ks dils ss).map (·.kernel) = ks
  | [], [], _, _, _, _, _ => ⟨rfl, rfl⟩
  | n :: ns, k :: ks, dil :: dils, s :: ss, hk, hd, hs => by
    obtain ⟨hn, hk⟩ := @windowAxes_map ns ks dils ss (Nat.succ.inj hk) (Nat.succ.inj hd)
      (Nat.succ.inj hs)
    exact ⟨congrArg (n :: ·) hn, congrArg (k :: ·) hk⟩

theorem mem_windowAxes {w : WindowAxis} : ∀ {ns ks dils ss : List Nat},
    w ∈ windowAxes ns ks dils ss → w.length ∈ ns ∧ w.kernel ∈ ks ∧ w.dilation ∈ dils ∧ w.stride ∈ ss
  | [], _, _, _, h | _ :: _, [], _, _, h | _ :: _, _ :: _, [], _, h
  | _ :: _, _ :: _, _ :: _, [], h => by simp [windowAxes] at h
  | n :: ns, k :: ks, dil :: dils, s :: ss, h => by
    rcases List.mem_cons.1 h with rfl | h
    · simp
    · obtain ⟨hn, hk, hd, hs⟩ := mem_windowAxes h
      exact ⟨List.mem_cons_of_mem _ hn, List.mem_cons_of_mem _ hk, List.mem_cons_of_mem _ hd,
        List.mem_cons_of_mem _ hs⟩

theorem slidingAxes_windowAxes {p : Padding} : ∀ {ns ks dils ss : List Nat}, ks.length = ns.length →
    dils.length = ns.length → ss.length = ns.length →
    slidingAxes ((windowAxes ns ks dils ss).map fun w => (w.sliding p).padded) ss dils =
      (windowAxes ns ks dils ss).map (·.sliding p)
  | [], _, _, _, _, _, _ => by simp [windowAxes, slidingAxes]
  | n :: ns, k :: ks, dil :: dils, s :: ss, hk, hd, hs =>
    congrArg (WindowAxis.sliding ⟨n, k, dil, s⟩ p :: ·)
      (@slidingAxes_windowAxes p ns ks dils ss (Nat.succ.inj hk) (Nat.succ.inj hd)
        (Nat.succ.inj hs))

/-- The input position under a tap is the one at its coordinates, if it lies in
    the box of the input. -/
theorem underAll?_sliding {p : Padding} : ∀ {ws : List WindowAxis} {o k : List Nat},
    o.length = ws.length → k.length = ws.length → underAll? (ws.map (·.sliding p)) o k =
      if InBox (coordinates p ws o k) (ws.map (·.length)) then
        some ((coordinates p ws o k).map Int.toNat)
      else none
  | [], [], [], _, _ => (if_pos .nil).symm
  | w :: ws, o :: os, k :: ks, ho, hk => by
    have ih := @underAll?_sliding p ws os ks (Nat.succ.inj ho) (Nat.succ.inj hk)
    have hcons :
        InBox (coordinates p (w :: ws) (o :: os) (k :: ks)) (w.length :: ws.map (·.length)) ↔
        (0 ≤ w.coordinate p o k ∧ w.coordinate p o k < w.length) ∧
          InBox (coordinates p ws os ks) (ws.map (·.length)) := List.forall₂_cons
    simp only [List.map_cons, underAll?, WindowAxis.under?_sliding, ih]
    by_cases hfirst : 0 ≤ w.coordinate p o k ∧ w.coordinate p o k < w.length
    · by_cases hrest : InBox (coordinates p ws os ks) (ws.map (·.length))
      · rw [if_pos hfirst, if_pos hrest, if_pos (hcons.2 ⟨hfirst, hrest⟩)]
        rfl
      · rw [if_pos hfirst, if_neg hrest, if_neg fun h => hrest (hcons.1 h).2]
        rfl
    · rw [if_neg hfirst, if_neg fun h => hfirst (hcons.1 h).1]
      rfl

/-! ## Taps beyond the signed words -/

/-- Signed words do not tell whether a tap lies on an axis: its coordinate counted
    from the padding is none of them, while that counted from the input is.  On
    all axes before, the tap lies on the input. -/
def FallsShort (p : Padding) : List WindowAxis → List Nat → List Nat → Prop
  | w :: ws, o :: os, k :: ks =>
    (w.coordinate p o k < Word.signLimit ∧ Word.signLimit ≤ w.coordinate p o k + w.before p) ∨
      ((0 ≤ w.coordinate p o k ∧ w.coordinate p o k < w.length) ∧ FallsShort p ws os ks)
  | _, _, _ => False

theorem exists_mem_positions {dims : List Nat} (h : ∀ d ∈ dims, 0 < d) : ∃ p, p ∈ positions dims :=
  ⟨dims.map fun _ => 0, mem_positions.2 (List.forall₂_map_left_iff.2
    (List.forall₂_same.2 h))⟩

theorem requireTaps_eq_ok_iff {ks : List Nat} {axes : List SlidingAxis} :
    requireTaps ks axes = .ok () ↔
      ¬ (axes.all (0 < ·.padded.output) = true ∧ someFallsShort axes ks = true) := by
  unfold requireTaps
  split
  case isTrue h => exact iff_of_false fault_ne_ok (not_not_intro h)
  case isFalse h => exact iff_of_true rfl h

theorem SlidingAxis.anyTap_eq_true {a : SlidingAxis} {kernel : Nat} {q : Nat → Nat → Bool} :
    a.anyTap kernel q = true ↔ ∃ o < a.padded.output, ∃ k < kernel, q o k = true := by
  simp [anyTap]

/-- Whether some tap falls short is found out axis by axis. -/
theorem someFallsShort_sliding {p : Padding} : ∀ {ws : List WindowAxis},
    (∀ w ∈ ws, 0 < w.kernel ∧ 0 < w.output p) →
    (someFallsShort (ws.map (·.sliding p)) (ws.map (·.kernel)) = true ↔
      ∃ o ∈ positions (ws.map (·.output p)), ∃ k ∈ positions (ws.map (·.kernel)),
        FallsShort p ws o k)
  | [], _ => by simp [someFallsShort, FallsShort]
  | w :: ws, h => by
    have ih := @someFallsShort_sliding p ws fun w hw => h w (List.mem_cons_of_mem _ hw)
    obtain ⟨os, hos⟩ := @exists_mem_positions (ws.map (·.output p)) fun d hd => by
      obtain ⟨w, hw, rfl⟩ := List.mem_map.1 hd
      exact (h w (List.mem_cons_of_mem _ hw)).2
    obtain ⟨ks, hks⟩ := @exists_mem_positions (ws.map (·.kernel)) fun d hd => by
      obtain ⟨w, hw, rfl⟩ := List.mem_map.1 hd
      exact (h w (List.mem_cons_of_mem _ hw)).1
    have hunder : ∀ o k, ((w.sliding p).under? o k).isSome = true ↔
        0 ≤ w.coordinate p o k ∧ w.coordinate p o k < w.length := fun o k => by
      rw [WindowAxis.under?_sliding]
      split <;> simp [*]
    simp only [List.map_cons, someFallsShort, Bool.or_eq_true, Bool.and_eq_true,
      decide_eq_true_iff, SlidingAxis.anyTap_eq_true, WindowAxis.fallsShort_sliding, hunder, ih]
    constructor
    · rintro (⟨-, o, ho, k, hk, hshort⟩ | ⟨⟨o, ho, k, hk, hunder⟩, os, hos, ks, hks, hshort⟩)
      · exact ⟨o :: os, cons_mem_positions.2 ⟨ho, hos⟩, k :: ks, cons_mem_positions.2 ⟨hk, hks⟩,
          .inl hshort⟩
      · exact ⟨o :: os, cons_mem_positions.2 ⟨ho, hos⟩, k :: ks, cons_mem_positions.2 ⟨hk, hks⟩,
          .inr ⟨hunder, hshort⟩⟩
    · rintro ⟨o, ho, k, hk, hshort⟩
      obtain ⟨o, os, hol, hos, rfl⟩ := List.forall₂_cons_right_iff.1 (mem_positions.1 ho)
      obtain ⟨k, ks, hkl, hks, rfl⟩ := List.forall₂_cons_right_iff.1 (mem_positions.1 hk)
      rcases hshort with hshort | ⟨hunder, hshort⟩
      · refine .inl ⟨?_, o, hol, k, hkl, hshort⟩
        have hlast := SlidingAxis.reached_le_lastReached (a := w.sliding p) hol hkl
        have := (WindowAxis.fallsShort_sliding o k).2 hshort
        rw [SlidingAxis.fallsShort, Bool.and_eq_true, decide_eq_true_iff] at this
        exact this.1.trans hlast
      · exact .inr ⟨⟨o, hol, k, hkl, hunder⟩, os, mem_positions.2 hos, ks, mem_positions.2 hks,
          hshort⟩

/-! ## Geometries -/

namespace Geometry

/-- The number of windows on each axis of an input with spatial dimensions
    `dims`. -/
def outputs (g : Geometry) (dims : List Nat) : List Nat :=
  (g.windowAxes dims).map (·.output g.padding)

theorem outputDims_sliding (g : Geometry) (dims : List Nat) :
    outputDims ((g.windowAxes dims).map (·.sliding g.padding)) = g.outputs dims := by
  simp [outputDims, outputs, WindowAxis.sliding]

/-- The coordinates of tap `k` of window `o`. -/
def coordinates (g : Geometry) (dims o k : List Nat) : List Int :=
  Neuroform.coordinates g.padding (g.windowAxes dims) o k

/-- The computed sizes are words, memory can hold the output, and signed words
    tell of all taps whether they lie on the input. -/
structure Fits (g : Geometry) (dims : List Nat) (filters : Nat) : Prop where
  axes : ∀ w ∈ g.windowAxes dims, w.Fits g.padding
  output : requireRoom valueBytes (g.outputs dims ++ [filters]) = .ok ()
  taps : ∀ o ∈ positions (g.outputs dims), ∀ k ∈ positions g.kernel,
    ¬ FallsShort g.padding (g.windowAxes dims) o k

/-- What a geometry asks of the axes that it slides over: a window for each of
    them, which moves. -/
structure Slides (g : Geometry) (dims : List Nat) : Prop where
  windows : g.kernel.length = dims.length
  strides : g.strides.length = dims.length
  dilations : g.dilations.length = dims.length
  moves : ∀ s ∈ g.strides, 0 < s

theorem check_eq_ok {g : Geometry} {dims : List Nat} :
    g.check dims.length = .ok () ↔ g.Slides dims := by
  simp only [check, bind_eq_ok, require_eq_ok]
  constructor
  · rintro ⟨_, ⟨hwindows, hstrides, hdilations⟩, hmoves⟩
    exact ⟨hwindows, hstrides, hdilations, hmoves⟩
  · rintro ⟨hwindows, hstrides, hdilations, hmoves⟩
    exact ⟨(), ⟨hwindows, hstrides, hdilations⟩, hmoves⟩

theorem Accepts.slides {α : Type} {g : Geometry} {x kernel : Grid α} {dims : List Nat}
    {channels filters : Nat} (h : g.Accepts x kernel dims channels filters) : g.Slides dims :=
  ⟨h.windows, h.strides, h.dilations, h.moves⟩

namespace Slides
variable {g : Geometry} {dims : List Nat} (h : g.Slides dims)
include h

theorem windowAxes_map : (g.windowAxes dims).map (·.length) = dims ∧
    (g.windowAxes dims).map (·.kernel) = g.kernel :=
  Neuroform.windowAxes_map h.windows h.dilations h.strides

theorem axes_eq_ok_iff (hk : ∀ k ∈ g.kernel, 0 < k) {axes : List SlidingAxis} :
    g.axes dims = .ok axes ↔ (∀ w ∈ g.windowAxes dims, w.Fits g.padding) ∧
      axes = (g.windowAxes dims).map (·.sliding g.padding) := by
  have hpadded := fun padded => @Padding.axes_eq_ok_iff g.padding _ _ _ _ padded
    h.windows h.dilations h.strides hk h.moves
  have hsliding := slidingAxes_windowAxes (p := g.padding) h.windows h.dilations h.strides
  simp only [Geometry.axes, bind_eq_ok, hpadded, pure_eq_ok]
  constructor
  · rintro ⟨_, ⟨hfits, rfl⟩, rfl⟩
    exact ⟨hfits, hsliding⟩
  · rintro ⟨hfits, rfl⟩
    exact ⟨_, ⟨hfits, rfl⟩, hsliding⟩

theorem requireTaps_eq_ok_iff (hk : ∀ k ∈ g.kernel, 0 < k) :
    requireTaps g.kernel ((g.windowAxes dims).map (·.sliding g.padding)) = .ok () ↔
      ∀ o ∈ positions (g.outputs dims), ∀ k ∈ positions g.kernel,
        ¬ FallsShort g.padding (g.windowAxes dims) o k := by
  have hkernel := h.windowAxes_map.2
  have hall : ((g.windowAxes dims).map (·.sliding g.padding)).all (0 < ·.padded.output) = true ↔
      ∀ w ∈ g.windowAxes dims, 0 < w.output g.padding := by
    simp [WindowAxis.sliding]
  rw [Neuroform.requireTaps_eq_ok_iff, hall]
  have hpos : ∀ w ∈ g.windowAxes dims, 0 < w.kernel := fun w hw =>
    hk _ (hkernel ▸ List.mem_map_of_mem hw)
  constructor
  · intro hnone o ho k hk hshort
    have hout : ∀ w ∈ g.windowAxes dims, 0 < w.output g.padding := fun w hw => by
      obtain ⟨i, -, hi⟩ := forall₂_mem_left (mem_positions.1 ho).flip _ (List.mem_map_of_mem hw)
      exact (Nat.zero_le i).trans_lt hi
    refine hnone ⟨hout, ?_⟩
    rw [← hkernel] at hk ⊢
    exact (someFallsShort_sliding fun w hw => ⟨hpos w hw, hout w hw⟩).2 ⟨o, ho, k, hk, hshort⟩
  · rintro hnone ⟨hout, hshort⟩
    rw [← hkernel] at hshort hnone
    obtain ⟨o, ho, k, hk, hshort⟩ :=
      (someFallsShort_sliding fun w hw => ⟨hpos w hw, hout w hw⟩).1 hshort
    exact hnone o ho k hk hshort

/-- The input position under a tap of a window. -/
theorem underAll?_eq {o k : List Nat} (ho : o ∈ positions (g.outputs dims))
    (hk : k ∈ positions g.kernel) :
    underAll? ((g.windowAxes dims).map (·.sliding g.padding)) o k =
      if InBox (g.coordinates dims o k) dims then some ((g.coordinates dims o k).map Int.toNat)
      else none := by
  have hws := congrArg List.length h.windowAxes_map.1
  have hol := length_of_mem_positions ho
  have hkl := length_of_mem_positions hk
  rw [outputs, List.length_map] at hol
  rw [List.length_map] at hws
  rw [underAll?_sliding hol (hkl.trans (h.windows.trans hws.symm)), h.windowAxes_map.1]
  rfl

/-- The taps of a window, each at its coordinates. -/
theorem taps_eq {o : List Nat} (ho : o ∈ positions (g.outputs dims)) :
    taps g.kernel ((g.windowAxes dims).map (·.sliding g.padding)) o =
      ((positions g.kernel).filter fun k => InBox (g.coordinates dims o k) dims).map fun k =>
        (k, (g.coordinates dims o k).map Int.toNat) := by
  rw [taps, ← List.filterMap_eq_map (f := fun k => (k, (g.coordinates dims o k).map Int.toNat)),
    List.filterMap_filter]
  refine List.filterMap_congr fun k hk => ?_
  rw [h.underAll?_eq ho hk]
  by_cases hin : InBox (g.coordinates dims o k) dims
  · simp [hin]
  · simp [hin]

/-- What has a value for every window and channel is made if its sizes fit. -/
theorem slid_eq_ok_iff {α : Type} {y : Grid α} {channels : Nat} (hk : ∀ k ∈ g.kernel, 0 < k)
    {f : List SlidingAxis → List Nat → α} :
    (do let axes ← g.axes dims
        requireTaps g.kernel axes
        slidGrid axes channels (f axes)) = .ok y ↔
      g.Fits dims channels ∧ y = Grid.ofFn (g.outputs dims ++ [channels])
        (f ((g.windowAxes dims).map (·.sliding g.padding))) := by
  have houtput := g.outputDims_sliding dims
  simp only [bind_eq_ok, h.axes_eq_ok_iff hk]
  constructor
  · rintro ⟨_, ⟨hfits, rfl⟩, ⟨⟩, htaps, hy⟩
    obtain ⟨hroom, rfl⟩ := slidGrid_eq_ok.1 hy
    rw [houtput] at hroom ⊢
    exact ⟨⟨hfits, hroom, (h.requireTaps_eq_ok_iff hk).1 htaps⟩, rfl⟩
  · rintro ⟨hfits, rfl⟩
    refine ⟨_, ⟨hfits.axes, rfl⟩, (), (h.requireTaps_eq_ok_iff hk).2 hfits.taps, ?_⟩
    rw [← houtput]
    exact slidGrid_eq_ok.2 ⟨houtput ▸ hfits.output, rfl⟩

end Slides
end Geometry

/-! ## Sums over taps -/

theorem nodup_positions (dims : List Nat) : (positions dims).Nodup :=
  List.Nodup.of_map _ (map_offset_positions dims ▸ List.nodup_range)

section
variable {α : Type} [NonUnitalNonAssocSemiring α]

theorem foldl_add_eq {β : Type} (f : β → α) : ∀ (l : List β) (a : α),
    l.foldl (fun acc b => acc + f b) a = a + (l.map f).sum
  | [], a => by simp
  | b :: l, a => by rw [List.foldl_cons, foldl_add_eq f l, List.map_cons, List.sum_cons, add_assoc]

namespace Geometry
variable {g : Geometry} {x kernel y : Grid α} {dims : List Nat} {channels filters : Nat}

/-- A convolution has a result if its sizes fit, and this is it. -/
theorem Accepts.convolveLast_eq_ok_iff (h : g.Accepts x kernel dims channels filters)
    (hk : ∀ k ∈ g.kernel, 0 < k) : convolveLast g x kernel = .ok y ↔
    g.Fits dims filters ∧ y = Grid.ofFn (g.outputs dims ++ [filters]) fun p =>
      convolvedValue x kernel (Neuroform.taps g.kernel
        ((g.windowAxes dims).map (·.sliding g.padding)) p.dropLast) channels (p.getLastD 0) := by
  rw [h.convolveLast_eq]
  exact h.slides.slid_eq_ok_iff hk

/-- Two taps, three cells apart, over every cell. -/
def spread : Geometry := ⟨[2], [1], [3], .same⟩

/-- Three taps, so far apart that no word counts the cells under them. -/
def distant : Geometry := ⟨[3], [1], [Word.signLimit], .valid⟩

end Geometry

end

end Neuroform

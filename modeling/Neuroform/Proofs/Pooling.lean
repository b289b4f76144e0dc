/-
  Neuroform — pooling reduces the taps on the input.

  The padding never counts: a window is reduced to the average or the maximum of
  those of its taps that lie on the input (`PoolKind.Reduces`).  The number of
  padding cells is that of cells that windows reach beyond the input, so that
  windows without gaps between their taps always have some on it
  (`exists_tap_inBox`).
-/
import Neuroform.Proofs.Convolution

namespace Neuroform

/-! ## Windows without gaps -/

/-- A window whose taps lie side by side has one on its axis. -/
theorem WindowAxis.exists_tap {w : WindowAxis} {p : Padding} {o : Nat} (hk : 0 < w.kernel)
    (hd : w.dilation = 1) (ho : o < w.output p) :
    ∃ k < w.kernel, 0 ≤ w.coordinate p o k ∧ w.coordinate p o k < w.length := by
  have hreach : w.reach = w.kernel := by
    rw [reach, hd]
    omega
  have hle : o * w.stride ≤ (w.output p - 1) * w.stride :=
    Nat.mul_le_mul_right _ (Nat.le_sub_one_of_lt ho)
  have hlast : w.before p < w.kernel ∧ (w.output p - 1) * w.stride < w.length := by
    cases p with
    | valid =>
      have := ceilDiv_lt (Nat.zero_lt_of_lt ho)
      rw [output, before, padding]
      omega
    | same =>
      have := ceilDiv_lt (Nat.zero_lt_of_lt ho)
      rw [before, padding, extent, max_eq_left (Nat.succ_le_of_lt (Nat.zero_lt_of_lt ho))]
      rw [output] at *
      omega
  -- the first tap, or the first one behind the padding
  refine ⟨w.before p - o * w.stride, by omega, ?_⟩
  rw [coordinate, hd]
  omega

/-- A window whose taps lie side by side has one on the input. -/
theorem exists_tap_inBox {p : Padding} : ∀ {ws : List WindowAxis} {o : List Nat},
    (∀ w ∈ ws, 0 < w.kernel ∧ w.dilation = 1) → o ∈ positions (ws.map (·.output p)) →
      ∃ k ∈ positions (ws.map (·.kernel)), InBox (coordinates p ws o k) (ws.map (·.length))
  | [], _, _, _ => ⟨[], mem_positions.2 .nil, .nil⟩
  | w :: ws, os, h, ho => by
    obtain ⟨o, os, hol, hos, rfl⟩ := List.forall₂_cons_right_iff.1 (mem_positions.1 ho)
    obtain ⟨hk, hd⟩ := h w (by simp)
    obtain ⟨k, hkl, hin⟩ := w.exists_tap hk hd hol
    obtain ⟨ks, hks, hins⟩ :=
      exists_tap_inBox (fun w hw => h w (List.mem_cons_of_mem _ hw)) (mem_positions.2 hos)
    exact ⟨k :: ks, cons_mem_positions.2 ⟨hkl, hks⟩, .cons hin hins⟩

/-! ## Reductions -/

section
variable {α : Type} [LinearOrder α]

theorem larger_eq_max (x y : α) : larger x y = max x y := by
  rw [larger, max_def_lt]
  simp

theorem isGreatest_foldl_larger : ∀ (vs : List α) (v : α),
    IsGreatest {u | u ∈ v :: vs} (vs.foldl larger v)
  | [], v => by simp
  | u :: vs, v => by
    have ih := isGreatest_foldl_larger vs (max v u)
    rw [List.foldl_cons, larger_eq_max]
    refine ⟨?_, fun t ht => ?_⟩
    · rcases List.mem_cons.1 ih.1 with heq | hmem
      · rw [heq]
        rcases max_choice v u with h | h <;> simp [h]
      · exact List.mem_cons_of_mem _ (List.mem_cons_of_mem _ hmem)
    · have hmax : max v u ≤ vs.foldl larger (max v u) := ih.2 (by simp)
      rcases List.mem_cons.1 ht with rfl | ht
      · exact (le_max_left t u).trans hmax
      · rcases List.mem_cons.1 ht with rfl | ht
        · exact (le_max_right v t).trans hmax
        · exact ih.2 (List.mem_cons_of_mem _ ht)

/-- The largest of some values that are not below the lowest number. -/
theorem isGreatest_largest [Elementary α] (vs : List α) (hvs : vs ≠ [])
    (hlow : ∀ v ∈ vs, Elementary.lowest ≤ v) : IsGreatest {v | v ∈ vs} (largest vs) := by
  obtain ⟨hmem, hle⟩ := isGreatest_foldl_larger vs Elementary.lowest
  refine ⟨?_, fun v hv => hle (List.mem_cons_of_mem _ hv)⟩
  rcases List.mem_cons.1 hmem with heq | hmem
  · obtain ⟨v, hv⟩ := List.exists_mem_of_ne_nil vs hvs
    have heq : largest vs = Elementary.lowest := heq
    have hv' : v ≤ largest vs := hle (List.mem_cons_of_mem _ hv)
    rw [heq] at hv' ⊢
    exact le_antisymm hv' (hlow v hv) ▸ hv
  · exact hmem

end

section
variable {α : Type} [AddCommMonoid α] [Div α] [NatCast α] [LinearOrder α] [Elementary α]

/-- What the values at some taps are reduced to: their sum divided by their
    number, or the largest of them.  Without taps it is the value that the
    reduction starts from. -/
def PoolKind.Reduces (kind : PoolKind) (taps : Finset (List Nat)) (value : List Nat → α) (v : α) :
    Prop :=
  if taps = ∅ then v = kind.start else
    match kind with
    | .average => v = (∑ k ∈ taps, value k) / (taps.card : α)
    | .maximum => IsGreatest (value '' taps) v

/-- A list of taps is reduced to what they are as a set. -/
theorem PoolKind.reduces_ofWindow {kind : PoolKind} {ks : List (List Nat)} {value : List Nat → α}
    (hks : ks.Nodup) (hlow : kind = .maximum → ∀ k ∈ ks, Elementary.lowest ≤ value k) :
    kind.Reduces ks.toFinset value (kind.ofWindow (ks.map value)) := by
  unfold Reduces
  rcases ks with _ | ⟨k, ks⟩
  · rw [List.toFinset_nil, if_pos rfl]
    cases kind <;> rfl
  rw [if_neg (by simp)]
  cases kind with
  | average =>
    dsimp only [ofWindow]
    rw [if_neg (by simp), List.length_map, List.sum_toFinset _ hks,
      List.toFinset_card_of_nodup hks, total, ← List.sum_eq_foldl]
  | maximum =>
    have hgreatest := isGreatest_largest ((k :: ks).map value) (by simp)
      (List.forall_mem_map.2 (hlow rfl))
    have himage : value '' ((k :: ks).toFinset : Set (List Nat)) =
        {v | v ∈ (k :: ks).map value} := by
      ext v
      simp [eq_comm]
    dsimp only [ofWindow]
    rwa [himage]

/-! ## Poolings -/

namespace Geometry
variable {g : Geometry} {kind : PoolKind} {x y : Grid α} {dims : List Nat} {channels : Nat}

/-- The kernel positions whose taps at a window lie on the input. -/
def tapsOnInput (g : Geometry) (dims o : List Nat) : Finset (List Nat) :=
  ((positions g.kernel).filter fun k => InBox (g.coordinates dims o k) dims).toFinset

/-- The value of a channel under a tap of a window. -/
def tapped (g : Geometry) (x : Grid α) (dims o : List Nat) (c : Nat) (k : List Nat) : α :=
  x.value ((g.coordinates dims o k).map Int.toNat ++ [c])

/-- A pooling has a result if its sizes fit, and this is it. -/
theorem Slides.poolLast_eq_ok_iff (h : g.Slides dims) (hx : x.shape = dims ++ [channels])
    (hk : ∀ k ∈ g.kernel, 0 < k) : poolLast g kind x = .ok y ↔ g.Fits dims channels ∧
      y = Grid.ofFn (g.outputs dims ++ [channels]) fun p => kind.ofWindow
        (((positions g.kernel).filter fun k => InBox (g.coordinates dims p.dropLast k) dims).map
          (g.tapped x dims p.dropLast (p.getLastD 0))) := by
  have hslid : poolLast g kind x = (do
      let axes ← g.axes dims
      requireTaps g.kernel axes
      slidGrid axes channels fun p => kind.ofWindow ((taps g.kernel axes p.dropLast).map
        fun e => x.value (e.2 ++ [p.getLastD 0]))) := by
    rw [poolLast_eq, hx, List.getLast?_concat, List.dropLast_concat, check_eq_ok.2 h]
    rfl
  rw [hslid, h.slid_eq_ok_iff hk]
  refine and_congr_right fun _ => Eq.congr_right (Grid.ofFn_congr fun p hp => ?_)
  obtain ⟨o, c, ho, -, rfl⟩ := mem_positions_concat.1 hp
  rw [List.dropLast_concat, h.taps_eq ho, List.map_map]
  rfl

/-- **Pooling reduces the taps on the input.**  An accepted pooling has a result if
    and only if its sizes fit.  The result has a value for every window and
    channel, the average or the maximum of the taps of the window that lie on the
    input.  If taps lie side by side, all windows have some. -/
theorem pooling_reduces_taps (hx : x.shape = dims ++ [channels])
    (hg : g.check dims.length = .ok ()) (hk : ∀ k ∈ g.kernel, 0 < k)
    (hlow : kind = .maximum → ∀ v ∈ x.toList, Elementary.lowest ≤ v) :
    ((∃ y, poolLast g kind x = .ok y) ↔ g.Fits dims channels) ∧
    ∀ y, poolLast g kind x = .ok y → y.shape = g.outputs dims ++ [channels] ∧
      ∀ o ∈ positions (g.outputs dims),
        (∀ c < channels,
          kind.Reduces (g.tapsOnInput dims o) (g.tapped x dims o c) (y.value (o ++ [c]))) ∧
        ((∀ d ∈ g.dilations, d = 1) → (g.tapsOnInput dims o).Nonempty) := by
  have h := check_eq_ok.1 hg
  refine ⟨⟨fun ⟨y, hy⟩ => ((h.poolLast_eq_ok_iff hx hk).1 hy).1, fun hfits =>
    ⟨_, (h.poolLast_eq_ok_iff hx hk).2 ⟨hfits, rfl⟩⟩⟩, fun y hy => ?_⟩
  obtain ⟨-, rfl⟩ := (h.poolLast_eq_ok_iff hx hk).1 hy
  refine ⟨rfl, fun o ho => ⟨fun c hc => ?_, fun hone => ?_⟩⟩
  · have hdims : ∀ k ∈ (positions g.kernel).filter fun k => InBox (g.coordinates dims o k) dims,
        g.tapped x dims o c k ∈ x.toList := fun k hk => by
      have hin : InBox (g.coordinates dims o k) dims := by simpa using (List.mem_filter.1 hk).2
      exact Grid.value_mem (hx ▸ mem_positions_concat.2 ⟨_, c, hin.mem_positions, hc, rfl⟩)
    rw [Grid.value_ofFn _ (mem_positions_concat.2 ⟨o, c, ho, hc, rfl⟩), List.dropLast_concat,
      List.getLastD_concat]
    exact PoolKind.reduces_ofWindow ((nodup_positions _).filter _) fun hkind k hk =>
      hlow hkind _ (hdims k hk)
  · obtain ⟨hlengths, hkernels⟩ := h.windowAxes_map
    have hgaps : ∀ w ∈ g.windowAxes dims, 0 < w.kernel ∧ w.dilation = 1 := fun w hw =>
      ⟨hk _ (mem_windowAxes hw).2.1, hone _ (mem_windowAxes hw).2.2.1⟩
    obtain ⟨k, hk, hin⟩ := exists_tap_inBox hgaps ho
    rw [hlengths] at hin
    rw [hkernels] at hk
    exact ⟨k, List.mem_toFinset.2 (List.mem_filter.2 ⟨hk, decide_eq_true hin⟩)⟩

/-- On two cells the first window has no tap, and the second one has a tap on the
    first cell. -/
theorem pooling_reduces_taps_spread :
    spread.check [2].length = .ok () ∧ (∀ k ∈ spread.kernel, 0 < k) ∧
    (∀ v ∈ (Grid.fill [2, 1] (3 : ℚ)).toList, Elementary.lowest ≤ v) ∧
    spread.Fits [2] 1 ∧ ∃ y, poolLast spread .maximum (Grid.fill [2, 1] (3 : ℚ)) = .ok y ∧
      y.shape = [2, 1] ∧ y.value [0, 0] = Elementary.lowest ∧ y.value [1, 0] = 3 := by
  have hlow : ∀ v ∈ (Grid.fill [2, 1] (3 : ℚ)).toList, Elementary.lowest ≤ v := by decide +kernel
  have hshape : (Grid.fill [2, 1] (3 : ℚ)).shape = [2] ++ [1] := rfl
  have hmaximum : PoolKind.maximum = .maximum →
    ∀ v ∈ (Grid.fill [2, 1] (3 : ℚ)).toList, Elementary.lowest ≤ v := fun _ => hlow
  obtain ⟨hfits, hvalues⟩ :=
    pooling_reduces_taps (g := spread) hshape rfl (by decide) hmaximum
  have hsome : (poolLast spread .maximum (Grid.fill [2, 1] (3 : ℚ))).toOption.isSome := by
    decide +kernel
  obtain ⟨y, hy⟩ := Option.isSome_iff_exists.1 hsome
  have hy := toOption_eq_some.1 hy
  obtain ⟨hshape, hvalues⟩ := hvalues y hy
  refine ⟨rfl, by decide, hlow, hfits.1 ⟨y, hy⟩, y, hy, hshape, ?_, ?_⟩
  · have hreduces := (hvalues [0] (by decide)).1 0 (by decide)
    rwa [PoolKind.Reduces, if_pos (by decide)] at hreduces
  · have hreduces := (hvalues [1] (by decide)).1 0 (by decide)
    have htaps : spread.tapsOnInput [2] [1] = {[0]} := by decide
    rw [htaps, PoolKind.Reduces, if_neg (by decide)] at hreduces
    obtain ⟨k, hk, hvalue⟩ := hreduces.1
    obtain rfl := Finset.mem_singleton.1 hk
    exact hvalue.symm.trans (by decide +kernel)

end Geometry
end
end Neuroform

/-
  Neuroform — what convolutions and poolings accumulate.

  The taps of all windows are visited in one go.  After any number of visits,
  the accumulators hold for every window what the taps visited so far come to
  (`Convolved`, `Pooled.Holds`); windows that have no entries yet are read as
  windows without taps.  In the end every window has been convolved and reduced
  by itself (`convolveLast_eq`, `poolLast_eq`).
-/
import Neuroform.Proofs.Grid
import Neuroform.Window.Convolution
import Neuroform.Window.Pooling

namespace Neuroform

/-! ## Arrays that grow -/

section
variable {β : Type} {xs : Array β} {a : β}

/-- New entries are read as what was missing. -/
theorem getD_grown (size j : Nat) : (grown xs size a).getD j a = xs.getD j a := by
  simp only [grown, Array.getD_eq_getD_getElem?, Array.getElem?_append, Array.getElem?_replicate]
  by_cases hj : j < xs.size
  · rw [if_pos hj]
  · rw [if_neg hj, Array.getElem?_eq_none (not_lt.1 hj)]
    split <;> rfl

theorem size_grown (size : Nat) : (grown xs size a).size = max xs.size size := by
  rw [grown, Array.size_append, Array.size_replicate]
  omega

/-- Some entries in a row are replaced. -/
theorem getElem?_modify_range (f : Nat → β → β) (first : Nat) : ∀ (n j : Nat),
    ((List.range n).foldl (fun xs c => xs.modify (first + c) (f c)) xs)[j]? =
      if first ≤ j ∧ j < first + n then xs[j]?.map (f (j - first)) else xs[j]?
  | 0, j => by simp
  | n + 1, j => by
    rw [List.range_succ, List.foldl_append, List.foldl_cons, List.foldl_nil,
      Array.getElem?_modify, getElem?_modify_range f first n j]
    by_cases hj : first + n = j
    · subst hj
      rw [if_pos rfl, if_neg (by omega), if_pos (by omega), Nat.add_sub_cancel_left]
    · rw [if_neg hj]
      exact if_congr (by omega) rfl rfl

/-- The same entries in a row are replaced several times. -/
theorem getElem?_modify_rounds (f : Nat → Nat → β → β) (first n : Nat) : ∀ (rounds j : Nat),
    ((List.range rounds).foldl (fun xs c =>
      (List.range n).foldl (fun xs m => xs.modify (first + m) (f c m)) xs) xs)[j]? =
      if first ≤ j ∧ j < first + n then
        xs[j]?.map fun v => (List.range rounds).foldl (fun v c => f c (j - first) v) v
      else xs[j]?
  | 0, j => by simp
  | rounds + 1, j => by
    rw [List.range_succ, List.foldl_append, List.foldl_cons, List.foldl_nil,
      getElem?_modify_range (f rounds), getElem?_modify_rounds f first n rounds j]
    by_cases hj : first ≤ j ∧ j < first + n
    · simp only [if_pos hj, Option.map_map, List.foldl_append, List.foldl_cons, List.foldl_nil]
      rfl
    · simp only [if_neg hj]

theorem size_modify_range (f : Nat → β → β) (first n : Nat) :
    ((List.range n).foldl (fun xs c => xs.modify (first + c) (f c)) xs).size = xs.size := by
  induction n with
  | zero => rfl
  | succ n ih => rw [List.range_succ, List.foldl_append, List.foldl_cons, List.foldl_nil,
      Array.size_modify, ih]

end

/-! ## Visits -/

/-- The numbered entries of one number. -/
theorem filter_numbered {β γ : Type} (g : β → List γ) : ∀ (l : List β) (n w : Nat),
    ((l.zipIdx n).flatMap fun (b, m) => (g b).map (m, ·)).filter (·.1 = w) =
      if n ≤ w then (l[w - n]?.elim [] g).map (w, ·) else []
  | [], n, w => by simp
  | b :: l, n, w => by
    rw [List.zipIdx_cons, List.flatMap_cons, List.filter_append, filter_numbered g l (n + 1) w]
    rcases Nat.lt_trichotomy n w with h | rfl | h
    · obtain ⟨k, rfl⟩ := Nat.exists_eq_add_of_lt h
      rw [List.filter_eq_nil_iff.2 (by simp; omega), if_pos (by omega), if_pos (by omega),
        show n + k + 1 - n = k + 1 by omega, show n + k + 1 - (n + 1) = k by omega]
      rfl
    · rw [if_neg (by omega), if_pos le_rfl, Nat.sub_self, List.append_nil]
      exact List.filter_eq_self.2 (by simp)
    · rw [List.filter_eq_nil_iff.2 (by simp; omega), if_neg (by omega), if_neg (by omega)]
      rfl

section
variable {σ : Type} {seen : List (Nat × List Nat × List Nat)}

/-- The visits to a window are those to its taps. -/
theorem filter_visits {ks : List Nat} {axes : List SlidingAxis} {o : List Nat}
    (ho : o ∈ positions (outputDims axes)) :
    ((visits ks axes).filter (·.1 = offset (outputDims axes) o)).map Prod.snd =
      taps ks axes o := by
  have hfilter := filter_numbered (taps ks axes) (positions (outputDims axes)) 0
    (offset (outputDims axes) o)
  rw [if_pos (Nat.zero_le _), Nat.sub_zero, getElem?_positions ho] at hfilter
  exact (congrArg (List.map Prod.snd) hfilter).trans (List.map_map.trans (List.map_id _))

/-- The taps of a window that have been seen. -/
def seenTaps (seen : List (Nat × List Nat × List Nat)) (window : Nat) :
    List (List Nat × List Nat) :=
  (seen.filter (·.1 = window)).map Prod.snd

theorem seenTaps_concat (window : Nat) (e : Nat × List Nat × List Nat) :
    seenTaps (seen ++ [e]) window = seenTaps seen window ++ if e.1 = window then [e.2] else [] := by
  simp only [seenTaps, List.filter_append, List.map_append, List.filter_singleton]
  congr 1
  by_cases h : e.1 = window <;> simp [h]

/-- What every visit keeps up for one more tap holds after all visits. -/
theorem foldl_visits {f : σ → Nat × List Nat × List Nat → σ}
    {P : List (Nat × List Nat × List Nat) → σ → Prop}
    (step : ∀ {seen s}, P seen s → ∀ e, P (seen ++ [e]) (f s e)) :
    ∀ (more : List (Nat × List Nat × List Nat)) {seen : List (Nat × List Nat × List Nat)} {s : σ},
      P seen s → P (seen ++ more) (more.foldl f s)
  | [], _, _, h => by simpa using h
  | e :: more, seen, _, h => by
    have hrest := foldl_visits step more (step h e)
    rwa [List.append_assoc] at hrest

end

/-- The places of a window's channels among those of all windows. -/
theorem place_iff {channels window w c : Nat} (hc : c < channels) :
    window * channels ≤ w * channels + c ∧ w * channels + c < window * channels + channels ↔
      window = w := by
  constructor
  · rintro ⟨hle, hlt⟩
    by_contra hne
    rcases Nat.lt_or_gt_of_ne hne with h | h
    · have := Nat.mul_le_mul_right channels h
      rw [Nat.succ_mul] at this
      omega
    · have := Nat.mul_le_mul_right channels h
      rw [Nat.succ_mul] at this
      omega
  · rintro rfl
    omega

/-- The grid with a value for each window and channel; a number of values that
    is no word, or that memory cannot hold, is a fault. -/
def slidGrid {α : Type} (axes : List SlidingAxis) (channels : Nat) (f : List Nat → α) :
    Outcome (Grid α) := do
  let shape := outputDims axes ++ [channels]
  requireRoom valueBytes [← Word.product shape]
  Grid.arrange shape f

/-- The place of a value of a window in row-major order. -/
theorem offset_window {axes : List SlidingAxis} {channels c : Nat} {o : List Nat}
    (ho : o ∈ positions (outputDims axes)) :
    offset (outputDims axes ++ [channels]) (o ++ [c]) =
      offset (outputDims axes) o * channels + c := by
  rw [offset_append (length_of_mem_positions ho)]
  simp [offset]

/-! ## Convolutions -/

section
variable {α : Type} [Zero α] [Add α] [Mul α] {x kernel : Grid α} {channels filters : Nat}
  {sums : Array α} {seen : List (Nat × List Nat × List Nat)}

/-- One output value of a convolution: kernel positions outside, channels
    inside. -/
def convolvedValue (x kernel : Grid α) (taps : List (List Nat × List Nat))
    (channels filter : Nat) : α :=
  taps.foldl (fun acc (k, i) =>
    (List.range channels).foldl (fun acc c =>
      acc + x.value (i ++ [c]) * kernel.value (k ++ [c, filter])) acc) 0

/-- What the sums hold after some visits: of every window and filter the products
    that have been seen. -/
def Convolved (x kernel : Grid α) (channels filters : Nat)
    (seen : List (Nat × List Nat × List Nat)) (sums : Array α) : Prop :=
  ∀ window, ∀ f < filters, sums.getD (window * filters + f) 0 =
    convolvedValue x kernel (seenTaps seen window) channels f

theorem Convolved.empty : Convolved x kernel channels filters [] #[] := fun _ _ _ => rfl

/-- One visit: the sums of its window grow by its products, all other sums
    stay. -/
theorem Convolved.addTap (h : Convolved x kernel channels filters seen sums)
    (e : Nat × List Nat × List Nat) :
    Convolved x kernel channels filters (seen ++ [e])
      (Neuroform.addTap x kernel channels filters sums e) := by
  obtain ⟨window, k, i⟩ := e
  intro w f hf
  have hplace : window * filters ≤ w * filters + f ∧
      w * filters + f < window * filters + filters ↔ window = w := place_iff hf
  have hvalue := h w f hf
  rw [← getD_grown ((window + 1) * filters)] at hvalue
  rw [convolvedValue, seenTaps_concat, List.foldl_append, ← convolvedValue, ← hvalue]
  simp only [Neuroform.addTap, Array.getD_eq_getD_getElem?]
  rw [getElem?_modify_rounds fun c m => (· + x.value (i ++ [c]) * kernel.value (k ++ [c, m]))]
  by_cases hw : window = w
  · subst hw
    have hin : window * filters + f < (grown sums ((window + 1) * filters) 0).size := by
      rw [size_grown, Nat.succ_mul]
      omega
    rw [if_pos (hplace.2 rfl), if_pos rfl, Array.getElem?_eq_getElem hin, Nat.add_sub_cancel_left]
    rfl
  · rw [if_neg (mt hplace.1 hw), if_neg hw]
    rfl

/-- **A convolution sums up every window by itself.** -/
theorem convolveLast_eq (g : Geometry) (x kernel : Grid α) : convolveLast g x kernel = (do
    let channels ← orRefuse x.shape.getLast? GridCause.convolutionRank
    let dims := x.shape.dropLast
    let spatial := dims.length
    g.check spatial
    require (kernel.rank = spatial + 2 ∧ kernel.shape.take spatial = g.kernel)
      (GridCause.kernelGeometry kernel.shape g)
    let expected := kernel.shape.getD spatial 0
    require (expected = channels) (GridCause.kernelInputs expected channels)
    let filters := kernel.shape.getD (spatial + 1) 0
    let axes ← g.axes dims
    requireTaps g.kernel axes
    slidGrid axes filters fun p =>
      convolvedValue x kernel (taps g.kernel axes p.dropLast) channels (p.getLastD 0)) := by
  unfold convolveLast
  refine bind_congr fun channels => bind_congr fun _ => bind_congr fun _ => bind_congr fun _ =>
    bind_congr fun axes => bind_congr fun _ => bind_congr fun size => bind_congr fun _ => ?_
  unfold Grid.arrange
  refine bind_congr fun _ => congrArg Except.ok (Grid.ofFn_congr fun p hp => ?_)
  obtain ⟨o, f, ho, hf, rfl⟩ := mem_positions_concat.1 hp
  have hholds := foldl_visits
    (P := Convolved x kernel channels (kernel.shape.getD (x.shape.dropLast.length + 1) 0))
    (fun h => h.addTap) (visits g.kernel axes) .empty
  rw [offset_window ho, hholds _ f hf, List.dropLast_concat, List.getLastD_concat,
    List.nil_append, seenTaps, filter_visits ho]

end

/-! ## Poolings -/

/-- The sum of the values, from the left. -/
def total {α : Type} [Zero α] [Add α] (values : List α) : α := values.foldl (· + ·) 0

section
variable {α : Type} [Zero α] [Add α] [Div α] [NatCast α] [LT α] [DecidableLT α] [BEq α]
  [Elementary α] {kind : PoolKind} {x : Grid α} {channels : Nat} {s : Pooled α}
  {seen : List (Nat × List Nat × List Nat)}

/-- What the values of a window are reduced to: an empty one has average zero. -/
def PoolKind.ofWindow (kind : PoolKind) (values : List α) : α :=
  match kind with
  | average => if values.isEmpty then 0 else total values / (values.length : α)
  | maximum => largest values

/-- The values of a channel under the taps of a window that have been seen. -/
def seenValues (x : Grid α) (seen : List (Nat × List Nat × List Nat)) (window c : Nat) : List α :=
  (seenTaps seen window).map fun e => x.value (e.2 ++ [c])

omit [Add α] [Div α] [NatCast α] [LT α] [DecidableLT α] [BEq α] [Elementary α] in
theorem seenValues_concat (window c : Nat) (e : Nat × List Nat × List Nat) :
    seenValues x (seen ++ [e]) window c =
      seenValues x seen window c ++ if e.1 = window then [x.value (e.2.2 ++ [c])] else [] := by
  rw [seenValues, seenTaps_concat, List.map_append]
  congr 1
  split <;> rfl

/-- What accumulators hold after some visits: of every window the number of its
    taps and the values of its channels, as far as they have been seen. -/
structure Pooled.Holds (kind : PoolKind) (x : Grid α) (channels : Nat)
    (seen : List (Nat × List Nat × List Nat)) (s : Pooled α) : Prop where
  size : s.values.size = s.counts.size * channels
  counts : ∀ window, s.counts.getD window 0 = (seenTaps seen window).length
  values : ∀ window, ∀ c < channels, s.values.getD (window * channels + c) kind.start =
    (seenValues x seen window c).foldl kind.combine kind.start

namespace Pooled.Holds

omit [Div α] [NatCast α] in
theorem empty : Holds kind x channels [] ⟨#[], #[]⟩ := by
  refine ⟨(Nat.zero_mul _).symm, fun window => ?_, fun window c _ => ?_⟩ <;> rfl

omit [Div α] [NatCast α] in
/-- New entries are those of windows without taps. -/
theorem upTo (h : s.Holds kind x channels seen) (window : Nat) :
    (s.upTo kind channels window).Holds kind x channels seen ∧
      window < (s.upTo kind channels window).counts.size := by
  unfold Pooled.upTo
  split
  case isTrue hsize =>
    refine ⟨⟨?_, fun w => ?_, fun w c hc => ?_⟩, ?_⟩
    · have hle := Nat.mul_le_mul_right channels (hsize.trans (Nat.le_succ window))
      rw [size_grown, size_grown, h.size, max_eq_right hle, max_eq_right (by omega)]
    · rw [getD_grown, h.counts]
    · rw [getD_grown, h.values w c hc]
    · rw [size_grown]
      omega
  case isFalse hsize => exact ⟨h, not_le.1 hsize⟩

omit [Div α] [NatCast α] in
/-- One visit: one more tap and its values, at the window that it is a tap of. -/
theorem visit (h : s.Holds kind x channels seen) (e : Nat × List Nat × List Nat) :
    (s.visit kind x channels e).Holds kind x channels (seen ++ [e]) := by
  obtain ⟨window, k, i⟩ := e
  obtain ⟨hs, hlt⟩ := h.upTo window
  refine ⟨?_, fun w => ?_, fun w c hc => ?_⟩
  · simp only [Pooled.visit, size_modify_range, Array.size_modify, hs.size]
  · have hcount := hs.counts w
    simp only [Pooled.visit, Array.getD_eq_getD_getElem?, Array.getElem?_modify, seenTaps_concat,
      List.length_append, ← hcount]
    by_cases hw : window = w
    · subst hw
      simp [hlt]
    · simp [hw]
  · have hvalue := hs.values w c hc
    rw [seenValues_concat, List.foldl_append, ← hvalue]
    simp only [Pooled.visit, Array.getD_eq_getD_getElem?, getElem?_modify_range]
    have hplace : window * channels ≤ w * channels + c ∧
        w * channels + c < window * channels + channels ↔ window = w := place_iff hc
    by_cases hw : window = w
    · subst hw
      have hin : window * channels + c < (s.upTo kind channels window).values.size := by
        rw [hs.size]
        calc window * channels + c < window * channels + channels := by omega
          _ = (window + 1) * channels := (Nat.succ_mul _ _).symm
          _ ≤ _ := Nat.mul_le_mul_right _ hlt
      simp [hc, hin]
    · rw [if_neg (mt hplace.1 hw), if_neg hw]
      rfl

/-- In the end, every window is reduced to what its values come to. -/
theorem results (h : s.Holds kind x channels seen) {window c : Nat} (hc : c < channels) :
    (s.results kind channels).getD (window * channels + c) kind.start =
      kind.ofWindow (seenValues x seen window c) := by
  have hvalue := h.values window c hc
  cases kind with
  | maximum => exact hvalue
  | average =>
    have hwindow : (window * channels + c) / channels = window := by
      rw [mul_comm, Nat.mul_add_div (by omega), Nat.div_eq_of_lt hc, Nat.add_zero]
    have hcount : s.counts.getD window 0 = (seenValues x seen window c).length := by
      rw [h.counts]
      simp [seenValues]
    rw [Pooled.results, Array.getD_eq_getD_getElem?, Array.getElem?_mapIdx, PoolKind.ofWindow]
    simp only [hwindow, hcount, List.isEmpty_iff_length_eq_zero]
    cases hv : s.values[window * channels + c]? with
    | none =>
      have hlt : ¬ window < s.counts.size := fun hlt => by
        have hplace := Nat.mul_le_mul_right channels hlt
        rw [Nat.succ_mul, ← h.size] at hplace
        have := Array.getElem?_eq_none_iff.1 hv
        omega
      rw [Array.getD_eq_getD_getElem?, Array.getElem?_eq_none (not_lt.1 hlt),
        Option.getD_none] at hcount
      rw [if_pos hcount.symm]
      rfl
    | some v =>
      rw [Array.getD_eq_getD_getElem?, hv, Option.getD_some] at hvalue
      rcases Nat.eq_zero_or_pos (seenValues x seen window c).length with hnone | hsome
      · rw [List.length_eq_zero_iff.1 hnone] at hvalue ⊢
        exact hvalue
      · rw [if_neg hsome.ne', Option.map_some, if_pos hsome, Option.getD_some, hvalue]
        rfl

end Pooled.Holds

/-- **A pooling reduces every window by itself.** -/
theorem poolLast_eq (g : Geometry) (kind : PoolKind) (x : Grid α) : poolLast g kind x = (do
    let channels ← orRefuse x.shape.getLast? GridCause.poolingRank
    g.check x.shape.dropLast.length
    let axes ← g.axes x.shape.dropLast
    requireTaps g.kernel axes
    slidGrid axes channels fun p => kind.ofWindow
      ((taps g.kernel axes p.dropLast).map fun e => x.value (e.2 ++ [p.getLastD 0]))) := by
  unfold poolLast
  refine bind_congr fun channels => bind_congr fun _ => bind_congr fun axes => bind_congr fun _ =>
    bind_congr fun size => bind_congr fun _ => ?_
  unfold Grid.arrange
  refine bind_congr fun _ => congrArg Except.ok (Grid.ofFn_congr fun p hp => ?_)
  obtain ⟨o, c, ho, hc, rfl⟩ := mem_positions_concat.1 hp
  have hholds := foldl_visits (P := Pooled.Holds kind x channels) (fun h => h.visit)
    (visits g.kernel axes) .empty
  rw [offset_window ho, hholds.results hc, List.dropLast_concat, List.getLastD_concat,
    List.nil_append, seenValues, seenTaps, filter_visits ho]

end
end Neuroform

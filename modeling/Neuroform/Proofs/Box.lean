/-
  Neuroform — the places of a box and of the boxes inside of it.

  The places of a box are its positions counted in row-major order
  (`bijOn_indexGrid`); they are numbered for all positions before some of them
  are picked, so that memory has to hold them all.  A box inside of another
  one is picked in its own row-major order, which is the order of the places
  (`mem_selectBox`, `sorted_selectBox`).
-/
import Neuroform.Proofs.Grid

namespace Neuroform

/-! ## Numbered positions -/

/-- The places at all positions of a box, computed from how far apart neighbours
    are. -/
def indexGrid (dims : List Nat) : Grid Nat :=
  Grid.ofFn dims fun p => (List.zipWith (· * ·) p (rowMajorStrides dims)).sum

theorem sum_rowMajorStrides : ∀ {dims p : List Nat}, p.length = dims.length →
    (List.zipWith (· * ·) p (rowMajorStrides dims)).sum = offset dims p
  | [], [], _ => rfl
  | d :: ds, i :: is, h => by
    have ih := @sum_rowMajorStrides ds is (by simpa using h)
    rw [rowMajorStrides, List.zipWith_cons_cons, List.sum_cons, ih]
    rfl

theorem value_indexGrid {dims p : List Nat} (hp : p ∈ positions dims) :
    (indexGrid dims).value p = offset dims p := by
  rw [indexGrid, Grid.value_ofFn _ hp]
  exact sum_rowMajorStrides (length_of_mem_positions hp)

theorem toList_indexGrid (dims : List Nat) :
    (indexGrid dims).toList = List.range (volume dims) := by
  rw [← map_offset_positions]
  exact List.map_congr_left fun p hp => sum_rowMajorStrides (length_of_mem_positions hp)

/-- The numbers below the volume are the places, each of one position. -/
theorem bijOn_indexGrid (dims : List Nat) : Set.BijOn (indexGrid dims).value
    {p | List.Forall₂ (· < ·) p dims} (Set.Iio (volume dims)) := by
  refine ⟨?_, ?_, ?_⟩
  · intro p hp
    rw [Set.mem_Iio, value_indexGrid (mem_positions.2 hp)]
    exact offset_lt (mem_positions.2 hp)
  · intro p hp q hq h
    rw [value_indexGrid (mem_positions.2 hp), value_indexGrid (mem_positions.2 hq)] at h
    exact offset_inj (mem_positions.2 hp) (mem_positions.2 hq) h
  · intro k hk
    obtain ⟨p, hp, rfl⟩ := exists_position hk
    exact ⟨p, mem_positions.1 hp, value_indexGrid hp⟩

/-- The places of a box are numbered, if memory can hold them. -/
theorem places_eq_ok_iff {dims ps : List Nat} : places dims = .ok ps ↔
    requireRoom placeBytes dims = .ok () ∧ ps = (indexGrid dims).toList := by
  rw [places, bind_eq_ok, toList_indexGrid]
  constructor
  · rintro ⟨_, hroom, h⟩
    exact ⟨hroom, (pure_eq_ok.1 h).symm⟩
  · rintro ⟨hroom, rfl⟩
    exact ⟨(), hroom, rfl⟩

/-- Neighbours in a box of a shape that arrays have are words apart. -/
theorem wordStrides_of_addressable : ∀ {dims : List Nat}, addressable dims →
    wordStrides dims = .ok (rowMajorStrides dims)
  | [], _ => rfl
  | d :: ds, h => by
    have hds : addressable ds := by
      rcases Nat.eq_zero_or_pos d with rfl | hd
      · exact h
      · exact addressable_tail hd h
    refine mapM_forall₂.2 (.cons (ofNat_of_addressable hds) ?_)
    exact mapM_forall₂.1 (wordStrides_of_addressable hds)

/-! ## Boxes inside -/

theorem checkIntervals_eq_ok : ∀ {axis : Nat} {dims : List Nat} {ranges : List Interval},
    dims.length = ranges.length → (checkIntervals axis dims ranges = .ok () ↔
      List.Forall₂ (fun r d => r.start ≤ r.stop ∧ r.stop ≤ d) ranges dims)
  | _, [], [], _ => iff_of_true rfl .nil
  | axis, d :: ds, r :: rs, hl => by
    have ih := @checkIntervals_eq_ok (axis + 1) ds rs (by simpa using hl)
    rw [checkIntervals, bind_eq_ok, List.forall₂_cons, ← ih]
    exact ⟨fun ⟨_, hr, h⟩ => ⟨require_eq_ok.1 hr, h⟩, fun ⟨hr, h⟩ => ⟨(), require_eq_ok.2 hr, h⟩⟩

/-- The places of a box are those of its positions, moved to its corner, if
    memory can hold the places of all positions around it. -/
theorem selectBox_eq_ok_iff {dims places : List Nat} {ranges : List Interval} :
    selectBox dims ranges = .ok places ↔
      List.Forall₂ (fun r d => r.start ≤ r.stop ∧ r.stop ≤ d) ranges dims ∧
      requireRoom placeBytes dims = .ok () ∧
      places = (positions (ranges.map Interval.length)).map fun q =>
        offset dims (List.zipWith (· + ·) (ranges.map Interval.start) q) := by
  constructor
  · intro h
    obtain ⟨_, hl, h⟩ := bind_eq_ok.1 h
    obtain ⟨_, hc, h⟩ := bind_eq_ok.1 h
    obtain ⟨_, hroom, h⟩ := bind_eq_ok.1 h
    obtain rfl := pure_eq_ok.1 h
    exact ⟨(checkIntervals_eq_ok (require_eq_ok.1 hl)).1 hc, hroom, List.map_map⟩
  · rintro ⟨hranges, hroom, rfl⟩
    have hl := hranges.length_eq.symm
    exact bind_eq_ok.2 ⟨(), require_eq_ok.2 hl, bind_eq_ok.2 ⟨(), (checkIntervals_eq_ok hl).2 hranges,
      bind_eq_ok.2 ⟨(), hroom, congrArg Except.ok List.map_map⟩⟩⟩

theorem selectBox_eq_ok {dims places : List Nat} {ranges : List Interval}
    (h : selectBox dims ranges = .ok places) :
    List.Forall₂ (fun r d => r.start ≤ r.stop ∧ r.stop ≤ d) ranges dims ∧
      places = (positions (ranges.map Interval.length)).map fun q =>
        offset dims (List.zipWith (· + ·) (ranges.map Interval.start) q) :=
  have ⟨hranges, _, hplaces⟩ := selectBox_eq_ok_iff.1 h
  ⟨hranges, hplaces⟩

/-- A position of a box, moved to the corner. -/
theorem moved_mem_positions {ranges : List Interval} {dims : List Nat}
    (h : List.Forall₂ (fun r d => r.start ≤ r.stop ∧ r.stop ≤ d) ranges dims) : ∀ {q : List Nat},
    q ∈ positions (ranges.map Interval.length) →
      List.zipWith (· + ·) (ranges.map Interval.start) q ∈ positions dims := by
  induction h with
  | nil => intro q _; simp [positions]
  | @cons r d ranges dims hr _ ih =>
    intro q hq
    obtain ⟨k, ks, hk, -, rfl⟩ := List.forall₂_cons_right_iff.1 (mem_positions.1 hq)
    refine cons_mem_positions.2 ⟨?_, ih (cons_mem_positions.1 hq).2⟩
    simp only [Interval.length] at hk
    change r.start + k < d
    omega

/-- Moving positions keeps their order. -/
theorem zipWith_add_lt : ∀ {ss p q : List Nat}, p.length = ss.length → q.length = ss.length →
    p < q → List.zipWith (· + ·) ss p < List.zipWith (· + ·) ss q
  | [], [], [], _, _, h => h
  | s :: ss, i :: is, j :: js, hp, hq, h => by
    simp only [List.zipWith_cons_cons, List.cons_lt_cons_iff] at h ⊢
    rcases h with h | ⟨rfl, h⟩
    · exact .inl (Nat.add_lt_add_left h s)
    · exact .inr ⟨rfl, zipWith_add_lt (by simpa using hp) (by simpa using hq) h⟩

/-- The places of a box are listed in order. -/
theorem sorted_selectBox {dims places : List Nat} {ranges : List Interval}
    (h : selectBox dims ranges = .ok places) : places.Pairwise (· < ·) := by
  obtain ⟨hranges, rfl⟩ := selectBox_eq_ok h
  have hlength : ∀ {q : List Nat}, q ∈ positions (ranges.map Interval.length) →
      q.length = (ranges.map Interval.start).length := fun hq => by
    simpa using length_of_mem_positions hq
  refine List.pairwise_map.2 ((sorted_positions _).imp_of_mem fun hp hq hlt => ?_)
  exact (offset_lt_offset (moved_mem_positions hranges hp) (moved_mem_positions hranges hq)).2
    (zipWith_add_lt (hlength hp) (hlength hq) hlt)

/-- The positions of a box inside are those in all of its intervals. -/
theorem mem_intervalPositions : ∀ {ranges : List Interval} {p : List Nat},
    p ∈ Interval.positions ranges ↔
      List.Forall₂ (fun i (r : Interval) => r.start ≤ i ∧ i < r.stop) p ranges
  | [], p => by simp [Interval.positions, positions]
  | r :: rs, p => by
    simp only [Interval.positions, List.mem_map, List.map_cons, List.forall₂_cons_right_iff,
      ← @mem_intervalPositions rs]
    constructor
    · rintro ⟨q, hq, rfl⟩
      obtain ⟨k, ks, hk, hks, rfl⟩ := List.forall₂_cons_right_iff.1 (mem_positions.1 hq)
      have hlt : k < r.stop - r.start := hk
      exact ⟨r.start + k, _, ⟨by omega, by omega⟩, ⟨ks, mem_positions.2 hks, rfl⟩, rfl⟩
    · rintro ⟨i, _, ⟨hle, hlt⟩, ⟨ks, hks, rfl⟩, rfl⟩
      refine ⟨(i - r.start) :: ks, cons_mem_positions.2 ⟨Nat.sub_lt_sub_right hle hlt, hks⟩, ?_⟩
      rw [List.zipWith_cons_cons, Nat.add_sub_cancel' hle]

/-- The places of a box are those of the positions in it. -/
theorem mem_selectBox {dims ps : List Nat} {ranges : List Interval}
    (h : selectBox dims ranges = .ok ps) {k : Nat} : k ∈ ps ↔
      ∃ p, List.Forall₂ (· < ·) p dims ∧
        List.Forall₂ (fun i (r : Interval) => r.start ≤ i ∧ i < r.stop) p ranges ∧
        offset dims p = k := by
  obtain ⟨hranges, rfl⟩ := selectBox_eq_ok h
  simp only [← mem_intervalPositions, Interval.positions, List.mem_map]
  constructor
  · rintro ⟨q, hq, rfl⟩
    exact ⟨_, mem_positions.1 (moved_mem_positions hranges hq), ⟨q, hq, rfl⟩, rfl⟩
  · rintro ⟨_, -, ⟨q, hq, rfl⟩, rfl⟩
    exact ⟨q, hq, rfl⟩

/-- Selecting a box inside of another one.  It succeeds if its intervals lie on the
    axes and memory can hold all places; these are then listed in order, and in
    the order of the positions of the box.  All places are a numbering of the
    positions. -/
theorem selectBox_lists (dims : List Nat) (ranges : List Interval) :
    ((∃ ps, selectBox dims ranges = .ok ps) ↔
      List.Forall₂ (fun r d => r.start ≤ r.stop ∧ r.stop ≤ d) ranges dims ∧
        requireRoom placeBytes dims = .ok ()) ∧
    (∀ ps, selectBox dims ranges = .ok ps →
      ps.Pairwise (· < ·) ∧ ps.length = volume (ranges.map Interval.length) ∧
      (∀ k, k ∈ ps ↔ ∃ p, List.Forall₂ (· < ·) p dims ∧
        List.Forall₂ (fun i (r : Interval) => r.start ≤ i ∧ i < r.stop) p ranges ∧
        (indexGrid dims).value p = k) ∧
      ∀ q, List.Forall₂ (· < ·) q (ranges.map Interval.length) →
        ps[(indexGrid (ranges.map Interval.length)).value q]? =
          some ((indexGrid dims).value (List.zipWith (· + ·) (ranges.map Interval.start) q))) ∧
    (∀ ps, places dims = .ok ps ↔
      requireRoom placeBytes dims = .ok () ∧ ps = (indexGrid dims).toList) ∧
    (requireRoom placeBytes dims = .ok () → wordStrides dims = .ok (rowMajorStrides dims)) ∧
    Set.BijOn (indexGrid dims).value {p | List.Forall₂ (· < ·) p dims}
      (Set.Iio (volume dims)) := by
  refine ⟨?_, fun ps h => ⟨sorted_selectBox h, ?_, fun k => ?_, fun q hq => ?_⟩,
    fun ps => places_eq_ok_iff, fun hroom => ?_, bijOn_indexGrid dims⟩
  · simp only [selectBox_eq_ok_iff, exists_and_left, exists_eq, and_true]
  · obtain ⟨-, rfl⟩ := selectBox_eq_ok h
    rw [List.length_map, length_positions]
  · rw [mem_selectBox h]
    refine exists_congr fun p => and_congr_right fun hp => and_congr_right fun _ => ?_
    rw [value_indexGrid (mem_positions.2 hp)]
  · obtain ⟨hranges, rfl⟩ := selectBox_eq_ok h
    have hmem := mem_positions.2 hq
    rw [value_indexGrid hmem, value_indexGrid (moved_mem_positions hranges hmem), List.getElem?_map,
      getElem?_positions hmem, Option.map_some]
  · exact wordStrides_of_addressable (requireRoom_eq_ok.1 hroom).1

/-- The last two columns of two rows of three. -/
theorem selectBox_lists_columns :
    selectBox [2, 3] [⟨0, 2⟩, ⟨1, 3⟩] = .ok [1, 2, 4, 5] ∧ requireRoom placeBytes [2, 3] = .ok () ∧
    [1, 2, 4, 5].Pairwise (· < ·) ∧ wordStrides [2, 3] = .ok [3, 1] ∧
    Set.BijOn (indexGrid [2, 3]).value {p | List.Forall₂ (· < ·) p [2, 3]} (Set.Iio 6) := by
  have hok : selectBox [2, 3] [⟨0, 2⟩, ⟨1, 3⟩] = .ok [1, 2, 4, 5] := rfl
  obtain ⟨hsucceeds, hlists, -, hstrides, hbij⟩ := selectBox_lists [2, 3] [⟨0, 2⟩, ⟨1, 3⟩]
  have hroom := (hsucceeds.1 ⟨_, hok⟩).2
  exact ⟨hok, hroom, (hlists _ hok).1, hstrides hroom, hbij⟩

/-- An empty box inside of one that is too long for memory to number its
    positions. -/
theorem selectBox_beyond_memory :
    List.Forall₂ (fun (r : Interval) d => r.start ≤ r.stop ∧ r.stop ≤ d) [⟨0, 0⟩] [2 ^ 60] ∧
      ¬ ∃ ps, selectBox [2 ^ 60] [⟨0, 0⟩] = .ok ps := by
  refine ⟨.cons ⟨le_rfl, Nat.zero_le _⟩ .nil, ?_⟩
  rintro ⟨ps, h⟩
  obtain ⟨-, hroom, -⟩ := selectBox_eq_ok_iff.1 h
  have hlt := (requireRoom_eq_ok.1 hroom).2
  norm_num [placeBytes] at hlt

end Neuroform

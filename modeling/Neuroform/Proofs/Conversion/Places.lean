/-
  Neuroform — the places that up-sampling reads and that zero padding fills.

  An up-sampled value is read at the position which it repeats
  (`UpSampling.value_forward`).  A padded sample is filled between its padding
  cells, in a box whose places are listed in order (`sorted_selectBox`).
-/
import Neuroform.Conversion.Rule.Resampling
import Neuroform.Proofs.Box
import Neuroform.Proofs.Layer.Matching
import Neuroform.Proofs.Layer.Sampling

namespace Neuroform

/-! ## Repeated positions -/

theorem div_mem_positions : ∀ {p ds ss : List Nat}, p ∈ positions (List.zipWith (· * ·) ds ss) →
    ds.length = ss.length → List.zipWith (· / ·) p ss ∈ positions ds
  | p, [], [], h, _ => by simp [positions]
  | p, d :: ds, s :: ss, h, hl => by
    obtain ⟨k, ks, hk, -, rfl⟩ := List.forall₂_cons_right_iff.1 (mem_positions.1 h)
    exact cons_mem_positions.2 ⟨Nat.div_lt_of_lt_mul (by rwa [Nat.mul_comm]),
      div_mem_positions (cons_mem_positions.1 h).2 (by simpa using hl)⟩

@[simp] theorem upSampledDims_join {l : Layout} {size : List Nat} (c : Nat) (hw : List Nat) :
    upSampledDims l size (l.join c hw) = l.join c (List.zipWith (· * ·) hw size) := by
  simp [upSampledDims, Layout.join]

@[simp] theorem repeatedPosition_join {l : Layout} {size : List Nat} (k : Nat) (ps : List Nat) :
    repeatedPosition l size (l.join k ps) = l.join k (List.zipWith (· / ·) ps size) := by
  simp [repeatedPosition, Layout.join]

/-- A position of an up-sampled sample repeats one of the sample. -/
theorem repeatedPosition_mem {l : Layout} {size : List Nat} {c : Nat} {hw p : List Nat}
    (hlen : hw.length = size.length)
    (hp : p ∈ positions (l.join c (List.zipWith (· * ·) hw size))) :
    repeatedPosition l size p ∈ positions (l.join c hw) := by
  obtain ⟨ps, k, hps, hk, rfl⟩ := Layout.mem_positions_join.1 hp
  rw [repeatedPosition_join]
  exact Layout.mem_positions_join.2 ⟨_, k, div_mem_positions hps hlen, hk, rfl⟩

theorem gatherPlaces_eq_ok {l : Layout} {size dims places : List Nat}
    (h : gatherPlaces l size dims = .ok places) : places =
      (positions (upSampledDims l size dims)).map fun p =>
        offset dims (repeatedPosition l size p) := by
  obtain ⟨_, -, h⟩ := bind_eq_ok.1 h
  obtain ⟨_, -, h⟩ := bind_eq_ok.1 h
  obtain ⟨_, -, h⟩ := bind_eq_ok.1 h
  exact (pure_eq_ok.1 h).symm

namespace UpSampling
variable {α : Type} [Scalar α] {u : UpSampling} {x y z : Grid α} {b c : Nat} {hw p : List Nat}

/-- A value of an up-sampled sample is that of the position which it repeats. -/
theorem value_sample (hn : u.interpolation = .nearest) (hx : x.shape = u.layout.join c hw)
    (hlen : hw.length = u.size.length) (hz : u.sample x = .ok z)
    (hp : p ∈ positions (u.layout.join c (List.zipWith (· * ·) hw u.size))) :
    z.value p = x.value (repeatedPosition u.layout u.size p) := by
  obtain rfl := sample_eq_ok hz
  obtain ⟨ps, k, hps, hk, rfl⟩ := Layout.mem_positions_join.1 hp
  have hshape : (x.toLast u.layout).shape = hw ++ [c] := by
    change u.layout.toLast x.shape = _
    rw [hx, Layout.toLast_join]
  have hq : List.zipWith (· / ·) ps u.size ++ [k] ∈ positions (hw ++ [c]) :=
    mem_positions_concat.2 ⟨_, k, div_mem_positions hps hlen, hk, rfl⟩
  have hlast : ps ++ [k] ∈ positions (u.dimsLast (x.toLast u.layout).shape) := by
    rw [hshape, dimsLast_join]
    exact mem_positions_concat.2 ⟨ps, k, hps, hk, rfl⟩
  rw [repeatedPosition_join]
  generalize hX : x.toLast u.layout = X at hshape hlast ⊢
  calc ((u.sampleLast X).fromLast u.layout).value (u.layout.join k ps)
      = (u.sampleLast X).value (ps ++ [k]) := Grid.value_fromLast_join hlast
    _ = X.value (List.zipWith (· / ·) ps u.size ++ [k]) := by
      rw [sampleLast, Grid.value_ofFn _ hlast]
      simp [hn, Interpolation.read]
    _ = x.value (u.layout.join k (List.zipWith (· / ·) ps u.size)) := by
      subst hX
      refine Grid.value_toLast_concat ?_
      change _ ∈ positions (x.toLast u.layout).shape
      rwa [hshape]

/-- So is a value of an up-sampled batch. -/
theorem value_forward (hn : u.interpolation = .nearest) (hb : 0 < b)
    (hx : x.shape = b :: u.layout.join c hw) (hlen : hw.length = u.size.length)
    (hy : u.forward [x] = .ok [y]) :
    y.shape = b :: u.layout.join c (List.zipWith (· * ·) hw u.size) ∧
    ∀ i < b, ∀ p ∈ positions (u.layout.join c (List.zipWith (· * ·) hw u.size)),
      repeatedPosition u.layout u.size p ∈ positions (u.layout.join c hw) ∧
        y.value (i :: p) = x.value (i :: repeatedPosition u.layout u.size p) := by
  obtain ⟨_, hshape⟩ := batch_forward hb hx (Layout.channel?_join u.layout c hw) hy
  obtain ⟨hsingle, hshape⟩ := hshape
  obtain rfl := List.singleton_inj.1 hsingle
  rw [Layout.spatial_join] at hshape
  obtain ⟨y', hy', hsingle⟩ := forward_eq_ok hy
  obtain rfl := List.singleton_inj.1 hsingle
  obtain ⟨out, hyout, hsample⟩ := Grid.mapSamples_eq_ok hb hx hy'
  obtain rfl := (List.cons.inj (hyout.shape.symm.trans hshape.shape)).2
  refine ⟨hshape.shape, fun i hi p hp => ?_⟩
  obtain ⟨z, hz, -, hzv⟩ := hsample i hi
  have hrepeated := repeatedPosition_mem hlen hp
  have hsampled : (x.sample i).shape = u.layout.join c hw := congrArg List.tail hx
  rw [hzv p hp, value_sample hn hsampled hlen hz hp, Grid.value_sample hx hrepeated]
  exact ⟨hrepeated, rfl⟩

/-- A batch is repeated if memory can hold the results. -/
theorem exists_forward (hn : u.interpolation = .nearest) (hb : 0 < b)
    (hx : x.shape = b :: u.layout.join c hw) (hlen : hw.length = u.size.length)
    (hroom : requireRoom valueBytes (u.layout.join c (List.zipWith (· * ·) hw u.size)) = .ok ())
    (ha : addressable (b :: u.layout.join c (List.zipWith (· * ·) hw u.size))) :
    ∃ y, u.forward [x] = .ok [y] := by
  have hsampled : ∀ i, (x.sample i).shape = u.layout.join c hw := fun i => congrArg List.tail hx
  obtain ⟨y, hy⟩ := Grid.exists_mapSamples hb hx ha fun i _ =>
    exists_sample hn (hsampled i) hlen hroom
  exact ⟨y, bind_eq_ok.2 ⟨x, onlyInput_eq_ok.2 rfl, bind_eq_ok.2 ⟨y, hy, rfl⟩⟩⟩

end UpSampling

/-! ## Interiors -/

theorem paddedDims_eq_map (padding : List (Nat × Nat)) (hw : List Nat) :
    paddedDims padding hw = (padding.zip hw).map fun e => e.2 + e.1.1 + e.1.2 :=
  List.map_uncurry_zip_eq_zipWith.symm

/-- The intervals between the padding cells. -/
theorem interiorIntervals_eq_ok : ∀ {hw : List Nat} {padding : List (Nat × Nat)} {first n : Nat}
    {intervals : List Interval},
    (((paddedDims padding hw).zip padding).zipIdx n).mapM (fun ((d, pads), i) =>
      interiorInterval (first + i) d pads) = .ok intervals ↔
    (∀ e ∈ padding.zip hw, e.1.1 + e.1.2 < Word.limit) ∧
      intervals = (padding.zip hw).map fun e => ⟨e.1.1, e.1.1 + e.2⟩
  | _, [], _, _, _ => by simp [paddedDims, pure, Except.pure, eq_comm]
  | [], _ :: _, _, _, _ => by simp [paddedDims, pure, Except.pure, eq_comm]
  | d :: hw, pad :: padding, first, n, intervals => by
    have hfirst : ∀ r, interiorInterval (first + n) (d + pad.1 + pad.2) pad = .ok r ↔
        pad.1 + pad.2 < Word.limit ∧ r = ⟨pad.1, pad.1 + d⟩ := fun r => by
      have hstop : d + pad.1 + pad.2 - pad.2 = pad.1 + d := by omega
      have hle : pad.1 + pad.2 ≤ d + pad.1 + pad.2 := by omega
      simp only [interiorInterval, bind_eq_ok, ofNat_eq_ok, require_eq_ok, pure_eq_ok, hstop]
      constructor
      · rintro ⟨_, ⟨hlt, rfl⟩, _, -, rfl⟩
        exact ⟨hlt, rfl⟩
      · rintro ⟨hlt, rfl⟩
        exact ⟨_, ⟨hlt, rfl⟩, (), hle, rfl⟩
    have hrest := fun rs => @interiorIntervals_eq_ok hw padding first (n + 1) rs
    have hpadded : paddedDims (pad :: padding) (d :: hw) =
        (d + pad.1 + pad.2) :: paddedDims padding hw := rfl
    rw [hpadded, List.zip_cons_cons, List.zip_cons_cons, List.zipIdx_cons, List.mapM_cons]
    simp only [bind_eq_ok, pure_eq_ok, hfirst, hrest, List.forall_mem_cons, List.map_cons]
    constructor
    · rintro ⟨_, ⟨hlt, rfl⟩, _, ⟨hall, rfl⟩, rfl⟩
      exact ⟨⟨hlt, hall⟩, rfl⟩
    · rintro ⟨⟨hlt, hall⟩, rfl⟩
      exact ⟨_, ⟨hlt, rfl⟩, _, ⟨hall, rfl⟩, rfl⟩

/-- The part of a padded sample between the padding cells. -/
def interiorBox (l : Layout) (padding : List (Nat × Nat)) (c : Nat) (hw : List Nat) :
    List Interval :=
  l.join ⟨0, c⟩ ((padding.zip hw).map fun e => ⟨e.1.1, e.1.1 + e.2⟩)

section
variable {l : Layout} {padding : List (Nat × Nat)} {c : Nat} {hw : List Nat}

theorem length_interiorBox (hlen : hw.length = padding.length) :
    (interiorBox l padding c hw).map Interval.length = l.join c hw := by
  rw [interiorBox, Layout.map_join, List.map_map]
  congr 1
  refine Eq.trans (List.map_congr_left fun e _ => ?_) (List.map_snd_zip hlen.le)
  exact Nat.add_sub_cancel_left _ _

theorem start_interiorBox (hlen : hw.length = padding.length) :
    (interiorBox l padding c hw).map Interval.start = l.join 0 (padding.map Prod.fst) := by
  rw [interiorBox, Layout.map_join, List.map_map]
  congr 1
  have hfst : (padding.zip hw).map Prod.fst = padding := List.map_fst_zip hlen.ge
  conv_rhs => rw [← hfst, List.map_map]
  rfl

theorem interiorBox_inside : List.Forall₂ (fun r d => r.start ≤ r.stop ∧ r.stop ≤ d)
    (interiorBox l padding c hw) (l.join c (paddedDims padding hw)) := by
  refine Layout.forall₂_join ⟨Nat.zero_le c, le_rfl⟩ ?_
  rw [paddedDims_eq_map, List.forall₂_map_left_iff, List.forall₂_map_right_iff, List.forall₂_same]
  exact fun e _ => ⟨Nat.le_add_right _ _, by dsimp only; omega⟩

/-- The places in the interior of a padded sample are those of a box. -/
theorem interiorPlaces_eq_ok {places : List Nat} (hlen : hw.length = padding.length) :
    interiorPlaces l padding (l.join c (paddedDims padding hw)) = .ok places ↔
      selectBox (l.join c (paddedDims padding hw)) (interiorBox l padding c hw) = .ok places := by
  have hcount : (paddedDims padding hw).length = padding.length := by simp [paddedDims, hlen]
  have hbox : l.fromLast ((padding.zip hw).map (fun e => (⟨e.1.1, e.1.1 + e.2⟩ : Interval)) ++
      (some c).toList.map fun d => ⟨0, d⟩) = interiorBox l padding c hw := rfl
  simp only [interiorPlaces, bind_eq_ok, Layout.spatial_join, Layout.channel?_join,
    interiorIntervals_eq_ok]
  constructor
  · rintro ⟨_, -, _, ⟨-, rfl⟩, h⟩
    exact hbox ▸ h
  · intro h
    obtain ⟨-, hroom, -⟩ := selectBox_eq_ok_iff.1 h
    refine ⟨(), hcount ▸ Layout.requireSpatial_join c _, _, ⟨fun e he => ?_, rfl⟩, hbox ▸ h⟩
    -- what memory can hold has axes that words count
    have hmem : e.2 + e.1.1 + e.1.2 ∈ l.join c (paddedDims padding hw) := by
      rw [(l.join_perm _ _).mem_iff, paddedDims_eq_map]
      exact List.mem_append_left _ (List.mem_map_of_mem he)
    have hlt := lt_of_addressable (requireRoom_eq_ok.1 hroom).1 hmem
    have hlimits : Word.signLimit < Word.limit := by decide
    omega

end

end Neuroform

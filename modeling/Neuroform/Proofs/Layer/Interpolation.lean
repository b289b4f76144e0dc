/-
  Neuroform — bilinear up-sampling.

  An up-sampled value lies between the input values around it.  On one axis it
  has a lower and an upper neighbour, whose shares add up to one, and neither of
  them leaves the axis (`Neighbours.around_eq`).  The weight of a corner is the
  product of its shares, so that the weights of all corners add up to one as
  well, whatever the number of axes (`sum_corners`), and an up-sampled value is
  a blend of values of the sample (`Interpolation.exists_weighting`).
-/
import Neuroform.Layer.Resampling
import Neuroform.Proofs.Convolution
import Neuroform.Proofs.Layer.Layouts
import Neuroform.Proofs.Layer.Sampling
import Neuroform.Proofs.Pooling
import Neuroform.Proofs.Rational

namespace Neuroform

/-! ## Blends -/

section
variable {ι κ : Type} {near : ι → Prop} {taps : List (ι × ℚ)} {value : ι → ℚ} {lo hi : ℚ}

/-- The sum of the values at some indices, each with its weight. -/
def blend (taps : List (ι × ℚ)) (value : ι → ℚ) : ℚ := (taps.map fun t => t.2 * value t.1).sum

/-- Indices with positive weights that add up to one. -/
structure Weighting (near : ι → Prop) (taps : List (ι × ℚ)) : Prop where
  near : ∀ t ∈ taps, near t.1
  pos : ∀ t ∈ taps, 0 < t.2
  total : (taps.map Prod.snd).sum = 1

/-- What has no weight does not count. -/
theorem blend_filter (taps : List (ι × ℚ)) (value : ι → ℚ) :
    blend (taps.filter fun t => t.2 ≠ 0) value = blend taps value := by
  unfold blend
  induction taps with
  | nil => rfl
  | cons t taps ih =>
    by_cases ht : t.2 = 0
    · rw [List.filter_cons_of_neg (by simpa using ht), ih, List.map_cons, List.sum_cons, ht,
        zero_mul, zero_add]
    · rw [List.filter_cons_of_pos (by simpa using ht), List.map_cons, List.map_cons,
        List.sum_cons, List.sum_cons, ih]

theorem blend_const (c : ℚ) : blend taps (fun _ => c) = (taps.map Prod.snd).sum * c :=
  List.sum_map_mul_right ..

theorem blend_map (f : ι → κ) (taps : List (ι × ℚ)) (value : κ → ℚ) :
    blend (taps.map fun t => (f t.1, t.2)) value = blend taps fun i => value (f i) := by
  unfold blend
  rw [List.map_map]
  rfl

theorem weighting_filter (hnonneg : ∀ t ∈ taps, 0 ≤ t.2) (hnear : ∀ t ∈ taps, t.2 ≠ 0 → near t.1)
    (htotal : (taps.map Prod.snd).sum = 1) : Weighting near (taps.filter fun t => t.2 ≠ 0) := by
  have hmem : ∀ t ∈ taps.filter fun t => t.2 ≠ 0, t ∈ taps ∧ t.2 ≠ 0 := fun t ht =>
    ⟨(List.mem_filter.1 ht).1, of_decide_eq_true (List.mem_filter.1 ht).2⟩
  refine ⟨fun t ht => hnear t (hmem t ht).1 (hmem t ht).2,
    fun t ht => (hnonneg t (hmem t ht).1).lt_of_ne' (hmem t ht).2, ?_⟩
  have hsame := blend_filter taps fun _ => 1
  rwa [blend_const, blend_const, htotal, mul_one, mul_one] at hsame

namespace Weighting

theorem map {near' : κ → Prop} (h : Weighting near taps) (f : ι → κ)
    (hf : ∀ i, near i → near' (f i)) : Weighting near' (taps.map fun t => (f t.1, t.2)) where
  near := by
    simp only [List.mem_map, forall_exists_index, and_imp, forall_apply_eq_imp_iff₂]
    exact fun t ht => hf _ (h.near t ht)
  pos := by
    simp only [List.mem_map, forall_exists_index, and_imp, forall_apply_eq_imp_iff₂]
    exact h.pos
  total := by rw [List.map_map]; exact h.total

theorem blend_congr (h : Weighting near taps) {value' : ι → ℚ}
    (hv : ∀ i, near i → value i = value' i) : blend taps value = blend taps value' :=
  congrArg List.sum (List.map_congr_left fun t ht => by rw [hv _ (h.near t ht)])

/-- A blend of one value is that value. -/
theorem blend_eq (h : Weighting near taps) {c : ℚ} (hv : ∀ i, near i → value i = c) :
    blend taps value = c := by
  rw [h.blend_congr hv, blend_const, h.total, one_mul]

/-- A blend stays between the values. -/
theorem blend_le (h : Weighting near taps) (hv : ∀ i, near i → value i ≤ hi) :
    blend taps value ≤ hi := by
  calc blend taps value ≤ blend taps fun _ => hi := List.sum_le_sum fun t ht =>
        mul_le_mul_of_nonneg_left (hv _ (h.near t ht)) (h.pos t ht).le
    _ = hi := h.blend_eq fun _ _ => rfl

theorem le_blend (h : Weighting near taps) (hv : ∀ i, near i → lo ≤ value i) :
    lo ≤ blend taps value := by
  calc lo = blend taps fun _ => lo := (h.blend_eq fun _ _ => rfl).symm
    _ ≤ blend taps value := List.sum_le_sum fun t ht =>
        mul_le_mul_of_nonneg_left (hv _ (h.near t ht)) (h.pos t ht).le

end Weighting
end

/-! ## One axis -/

namespace Neighbours
variable {d f i k : ℕ} {n : Neighbours ℚ}

/-- The place on the input axis that an output coordinate falls on. -/
def source (f i : ℕ) : ℚ := max ((i + 1 / 2) / f - 1 / 2) 0

theorem source_nonneg : 0 ≤ source f i := le_max_right _ _

theorem source_lt (hi : i < d * f) : source f i < d := by
  have hd : (0 : ℚ) < d := by exact_mod_cast Nat.pos_of_mul_pos_right (Nat.zero_lt_of_lt hi)
  have hf : (0 : ℚ) < f := by exact_mod_cast Nat.pos_of_mul_pos_left (Nat.zero_lt_of_lt hi)
  have hlast : (i : ℚ) + 1 ≤ d * f := by exact_mod_cast hi
  refine max_lt ?_ hd
  rw [sub_lt_iff_lt_add, div_lt_iff₀ hf]
  nlinarith

/-- The source falls on the axis, so that neither neighbour has to be moved
    down from behind its end but an upper one at the end itself. -/
theorem around_eq (hi : i < d * f) : (around d f i : Neighbours ℚ) =
    ⟨⌊source f i⌋.toNat, min (⌊source f i⌋.toNat + 1) (d - 1), Int.fract (source f i)⟩ := by
  have hfloor : ((⌊source f i⌋.toNat : ℕ) : ℤ) = ⌊source f i⌋ :=
    Int.toNat_of_nonneg (Int.floor_nonneg.2 source_nonneg)
  have hlt : ⌊source f i⌋ < d := Int.floor_lt.2 (by exact_mod_cast source_lt hi)
  have hlow : min ⌊source f i⌋.toNat (d - 1) = ⌊source f i⌋.toNat := by omega
  have hsource : larger (((i : ℚ) + 0.5) / (f : ℚ) - 0.5) 0 = source f i := by
    rw [larger_eq_max, source]
    norm_num
  have hfract : source f i - ((⌊source f i⌋.toNat : ℕ) : ℚ) = Int.fract (source f i) := by
    have hcast : ((⌊source f i⌋.toNat : ℕ) : ℚ) = ⌊source f i⌋ := by exact_mod_cast hfloor
    rw [hcast]
    rfl
  unfold around
  rw [hsource]
  change (⟨min ⌊source f i⌋.toNat (d - 1), min (min ⌊source f i⌋.toNat (d - 1) + 1) (d - 1),
    source f i - ((min ⌊source f i⌋.toNat (d - 1) : ℕ) : ℚ)⟩ : Neighbours ℚ) = _
  rw [hlow, hfract]

/-- Shares are nonnegative. -/
theorem fraction_around (hi : i < d * f) : 0 ≤ (around d f i : Neighbours ℚ).fraction ∧
    (around d f i : Neighbours ℚ).fraction ≤ 1 := by
  rw [around_eq hi]
  exact ⟨Int.fract_nonneg _, (Int.fract_lt_one _).le⟩

/-- A neighbour with a share of its own. -/
def Counts (n : Neighbours ℚ) (k : ℕ) : Prop :=
  k = n.low ∧ n.fraction ≠ 1 ∨ k = n.high ∧ n.fraction ≠ 0

theorem Counts.lt (hi : i < d * f) (h : (around d f i : Neighbours ℚ).Counts k) : k < d := by
  have hd : 0 < d := Nat.pos_of_mul_pos_right (Nat.zero_lt_of_lt hi)
  have hlt : ⌊source f i⌋ < d := Int.floor_lt.2 (by exact_mod_cast source_lt hi)
  rw [around_eq hi] at h
  rcases h with ⟨rfl, -⟩ | ⟨rfl, -⟩
  · dsimp only
    omega
  · dsimp only
    omega

/-- On an axis that is not stretched a coordinate is its own neighbour. -/
theorem Counts.eq (hi : i < d) (h : (around d 1 i : Neighbours ℚ).Counts k) : k = i := by
  have hsource : source 1 i = i := by
    rw [source, Nat.cast_one, div_one, add_sub_cancel_right]
    exact max_eq_left (Nat.cast_nonneg i)
  rw [around_eq (by omega), hsource] at h
  simpa [Counts] using h

end Neighbours

/-! ## All axes -/

section
variable {n : Neighbours ℚ} {ns : List (Neighbours ℚ)} {b : Bool} {bs : List Bool}

/-- The coordinate and the share of a chosen neighbour. -/
def Neighbours.chosen (n : Neighbours ℚ) : Bool → ℕ × ℚ
  | true => (n.high, n.fraction)
  | false => (n.low, 1 - n.fraction)

theorem corner_nil : corner ([] : List (Neighbours ℚ)) bs = ([], 1) := rfl

theorem corner_cons : corner (n :: ns) (b :: bs) =
    ((n.chosen b).1 :: (corner ns bs).1, (n.chosen b).2 * (corner ns bs).2) := by
  have hprod : ∀ (l : List (Neighbours ℚ × Bool)) (w : ℚ),
      l.foldl (fun w e => w * if e.2 then e.1.fraction else 1 - e.1.fraction) w =
        w * l.foldl (fun w e => w * if e.2 then e.1.fraction else 1 - e.1.fraction) 1 := by
    intro l
    induction l with
    | nil => simp
    | cons e l ih =>
      intro w
      rw [List.foldl_cons, List.foldl_cons, ih, ih (1 * _), one_mul, mul_assoc]
  refine Prod.ext ?_ ?_
  · cases b <;> rfl
  · refine (hprod (ns.zip bs) _).trans ?_
    cases b <;> exact congrArg (· * _) (one_mul _)

theorem length_choices (m number : ℕ) : (choices m number).length = m := by simp [choices]

/-- The lowest bit chooses on the first axis. -/
theorem choices_succ (m number : ℕ) :
    choices (m + 1) number = number.testBit 0 :: choices m (number / 2) := by
  rw [choices, List.range_succ_eq_map, List.map_cons, List.map_map, choices]
  refine congrArg _ (List.map_congr_left fun bit _ => ?_)
  exact Nat.testBit_succ number bit

/-- Even and odd numbers in turn. -/
theorem sum_range_double (f : ℕ → ℚ) (m : ℕ) : ((List.range (2 * m)).map f).sum =
    ((List.range m).map fun k => f (2 * k) + f (2 * k + 1)).sum := by
  induction m with
  | zero => rfl
  | succ m ih =>
    rw [Nat.mul_succ, List.range_succ, List.range_succ, List.range_succ]
    simp only [List.map_append, List.sum_append, ih, List.map_cons, List.map_nil, List.sum_cons,
      List.sum_nil]
    ring

theorem corner_nonneg (h : ∀ n ∈ ns, 0 ≤ n.fraction ∧ n.fraction ≤ 1) (hbs : bs.length = ns.length) :
    0 ≤ (corner ns bs).2 := by
  induction ns generalizing bs with
  | nil => exact zero_le_one
  | cons n ns ih =>
    obtain ⟨b, bs, rfl⟩ := List.exists_cons_of_length_eq_add_one hbs
    obtain ⟨h0, h1⟩ := h n (by simp)
    have hshare : 0 ≤ (n.chosen b).2 := by
      cases b with
      | true => exact h0
      | false => exact sub_nonneg.2 h1
    rw [corner_cons]
    exact mul_nonneg hshare
      (ih (fun m hm => h m (List.mem_cons_of_mem _ hm)) (Nat.succ_inj.1 hbs))

/-- The corners that are read have a neighbour with a share on every axis. -/
theorem corner_counts (hbs : bs.length = ns.length) (h : (corner ns bs).2 ≠ 0) :
    List.Forall₂ Neighbours.Counts ns (corner ns bs).1 := by
  induction ns generalizing bs with
  | nil => exact .nil
  | cons n ns ih =>
    obtain ⟨b, bs, rfl⟩ := List.exists_cons_of_length_eq_add_one hbs
    rw [corner_cons] at h ⊢
    refine .cons ?_ (ih (Nat.succ_inj.1 hbs) (right_ne_zero_of_mul h))
    have hshare := left_ne_zero_of_mul h
    cases b with
    | true => exact .inr ⟨rfl, hshare⟩
    | false => exact .inl ⟨rfl, (sub_ne_zero.1 hshare).symm⟩

/-- The weights of all corners add up to one: on each axis both shares do. -/
theorem sum_corners (ns : List (Neighbours ℚ)) :
    ((List.range (1 <<< ns.length)).map fun number =>
      (corner ns (choices ns.length number)).2).sum = 1 := by
  induction ns with
  | nil => simp [corner_nil]
  | cons n ns ih =>
    -- two numbers that differ in the lowest bit alone
    have hpair : ∀ k, (corner (n :: ns) (choices (n :: ns).length (2 * k))).2 +
        (corner (n :: ns) (choices (n :: ns).length (2 * k + 1))).2 =
          (corner ns (choices ns.length k)).2 := fun k => by
      have heven : (2 * k).testBit 0 = false := by simp [Nat.testBit_zero]
      have hodd : (2 * k + 1).testBit 0 = true := by simp [Nat.testBit_zero]
      have hhalf : 2 * k / 2 = k := by omega
      have hhalf' : (2 * k + 1) / 2 = k := by omega
      rw [List.length_cons, choices_succ, choices_succ, heven, hodd, hhalf, hhalf', corner_cons,
        corner_cons]
      simp only [Neighbours.chosen]
      ring
    rw [List.length_cons, Nat.shiftLeft_succ, sum_range_double]
    simp only [← List.length_cons (a := n), hpair]
    exact ih

/-- Neighbours with a share are positions of the sample, and the same coordinate
    on axes that are not stretched. -/
theorem mem_positions_of_counts : ∀ {dims factors p q : List ℕ}, dims.length = factors.length →
    p ∈ positions (List.zipWith (· * ·) dims factors) →
    List.Forall₂ Neighbours.Counts
      ((dims.zip (factors.zip p)).map fun e => .around e.1 e.2.1 e.2.2) q →
    q ∈ positions dims ∧ ∀ a : ℕ, factors[a]? = some 1 → q[a]? = p[a]?
  | [], [], p, q, _, _, hq => by
    obtain rfl := List.forall₂_nil_left_iff.1 hq
    exact ⟨mem_positions.2 .nil, by simp⟩
  | d :: dims, f :: factors, p, q, hlen, hp, hq => by
    obtain ⟨i, p, hi, -, rfl⟩ := List.forall₂_cons_right_iff.1 (mem_positions.1 hp)
    obtain ⟨k, q, hk, hrest, rfl⟩ := List.forall₂_cons_left_iff.1 hq
    obtain ⟨hmem, hsame⟩ := mem_positions_of_counts (Nat.succ_inj.1 hlen)
      (cons_mem_positions.1 hp).2 hrest
    refine ⟨cons_mem_positions.2 ⟨hk.lt hi, hmem⟩, fun a ha => ?_⟩
    cases a with
    | zero =>
      obtain rfl : f = 1 := Option.some.inj ha
      exact congrArg some (hk.eq (by simpa using hi))
    | succ a => exact hsame a ha

/-- The coordinates of a position of an up-sampled sample, axis by axis. -/
theorem lt_of_mem_axes : ∀ {dims factors p : List ℕ},
    p ∈ positions (List.zipWith (· * ·) dims factors) →
    ∀ e ∈ dims.zip (factors.zip p), e.2.2 < e.1 * e.2.1
  | [], _, _, _, e, he => by simp at he
  | _ :: _, [], _, _, e, he => by simp at he
  | d :: dims, f :: factors, p, hp, e, he => by
    obtain ⟨i, p, hi, -, rfl⟩ := List.forall₂_cons_right_iff.1 (mem_positions.1 hp)
    rcases List.mem_cons.1 he with rfl | he
    · exact hi
    · exact lt_of_mem_axes (cons_mem_positions.1 hp).2 e he

/-- What is read at a position is a blend of the values around it. -/
theorem Interpolation.exists_weighting {dims factors p : List ℕ}
    (hlen : dims.length = factors.length)
    (hp : p ∈ positions (List.zipWith (· * ·) dims factors)) :
    ∃ taps, Weighting (fun q => q ∈ positions dims ∧
        ∀ a : ℕ, factors[a]? = some 1 → q[a]? = p[a]?) taps ∧
      ∀ value, bilinear.read dims factors value p = blend taps value := by
  let axes : List (Neighbours ℚ) :=
    (dims.zip (factors.zip p)).map fun e => .around e.1 e.2.1 e.2.2
  have hshares : ∀ n ∈ axes, 0 ≤ n.fraction ∧ n.fraction ≤ 1 := fun n hn => by
    obtain ⟨e, he, rfl⟩ := List.mem_map.1 hn
    exact Neighbours.fraction_around (lt_of_mem_axes hp e he)
  let around : ℕ → List ℕ × ℚ := fun number => corner axes (choices axes.length number)
  refine ⟨((List.range (1 <<< axes.length)).map around).filter fun t => t.2 ≠ 0,
    weighting_filter (fun t ht => ?_) (fun t ht hne => ?_) ?_, fun value => ?_⟩
  · obtain ⟨number, -, rfl⟩ := List.mem_map.1 ht
    exact corner_nonneg hshares (length_choices _ number)
  · obtain ⟨number, -, rfl⟩ := List.mem_map.1 ht
    exact mem_positions_of_counts hlen hp (corner_counts (length_choices _ number) hne)
  · rw [List.map_map]
    exact sum_corners axes
  · rw [blend_filter, blend, List.map_map]
    exact (foldl_add_eq (fun number => (around number).2 * value (around number).1) _ 0).trans
      (zero_add _)

end

/-! ## Samples -/

namespace UpSampling
variable {u : UpSampling} {dims p q : List ℕ}

/-- Where the values around a position of an up-sampled sample are: those of the
    same channel, at the same coordinate on axes that are not stretched. -/
def Near (u : UpSampling) (dims p q : List ℕ) : Prop :=
  q ∈ positions dims ∧ u.layout.channel? q = u.layout.channel? p ∧
    ∀ a : ℕ, u.size[a]? = some 1 → (u.layout.spatial q)[a]? = (u.layout.spatial p)[a]?

theorem dropLast_append_getLast? (xs : List ℕ) : xs.dropLast ++ xs.getLast?.toList = xs := by
  rcases List.eq_nil_or_concat xs with rfl | ⟨xs, x, rfl⟩ <;> simp

theorem zipWith_mul_ones : ∀ {ds ss : List ℕ}, ds.length = ss.length → (∀ s ∈ ss, s = 1) →
    List.zipWith (· * ·) ds ss = ds
  | [], _, _, _ => List.zipWith_nil_left
  | d :: ds, s :: ss, hlen, h => by
    rw [List.zipWith_cons_cons, h s (by simp), mul_one,
      zipWith_mul_ones (Nat.succ_inj.1 hlen) fun s hs => h s (List.mem_cons_of_mem _ hs)]

theorem split_dimsLast (u : UpSampling) (dims : List ℕ) :
    (u.dimsLast dims).dropLast = List.zipWith (· * ·) dims.dropLast u.size ∧
      (u.dimsLast dims).getLast? = dims.getLast? := by
  rcases List.eq_nil_or_concat dims with rfl | ⟨ds, c, rfl⟩ <;> simp [dimsLast]

theorem position_dimsLast (hlen : dims.dropLast.length = u.size.length)
    (hp : p ∈ positions (u.dimsLast dims)) :
    p.dropLast ∈ positions (List.zipWith (· * ·) dims.dropLast u.size) ∧
    ∀ q ∈ positions dims.dropLast, q ++ p.getLast?.toList ∈ positions dims ∧
      (q ++ p.getLast?.toList).getLast? = p.getLast? ∧ (q ++ p.getLast?.toList).dropLast = q := by
  rcases List.eq_nil_or_concat dims with rfl | ⟨ds, c, rfl⟩
  · obtain rfl := List.forall₂_nil_right_iff.1 (mem_positions.1 hp)
    refine ⟨hp, fun q hq => ?_⟩
    obtain rfl := List.forall₂_nil_right_iff.1 (mem_positions.1 hq)
    exact ⟨hq, rfl, rfl⟩
  · rw [List.concat_eq_append] at hlen hp ⊢
    rw [dimsLast_join] at hp
    obtain ⟨ps, k, hps, hk, rfl⟩ := mem_positions_concat.1 hp
    rw [List.dropLast_concat, List.dropLast_concat, List.getLast?_concat]
    exact ⟨hps, fun q hq => ⟨mem_positions_concat.2 ⟨q, k, hq, hk, rfl⟩, List.getLast?_concat,
      List.dropLast_concat⟩⟩

/-- A value of an up-sampled sample whose channels come last. -/
theorem exists_weighting_last (hb : u.interpolation = .bilinear)
    (hlen : dims.dropLast.length = u.size.length) (hp : p ∈ positions (u.dimsLast dims)) :
    ∃ taps, Weighting ({ u with layout := .channelsLast }.Near dims p) taps ∧
      ∀ x : Grid ℚ, x.shape = dims → (u.sampleLast x).value p = blend taps x.value := by
  obtain ⟨hspatial, hinside⟩ := position_dimsLast hlen hp
  obtain ⟨taps, htaps, hread⟩ := Interpolation.exists_weighting hlen hspatial
  refine ⟨_, htaps.map (· ++ p.getLast?.toList) fun q hq => ?_, fun x hx => ?_⟩
  · obtain ⟨hmem, hlast, hdrop⟩ := hinside q hq.1
    exact ⟨hmem, hlast, fun a ha => (congrArg (·[a]?) hdrop).trans (hq.2 a ha)⟩
  · subst hx
    rw [sampleLast, Grid.value_ofFn _ hp, hb, hread]
    exact (blend_map (· ++ p.getLast?.toList) taps x.value).symm

variable {x y : Grid ℚ}

/-- What a bilinear up-sampling takes: samples with its number of spatial axes,
    whose values still fit in memory when they are stretched.  There are fewer
    axes than bits of a word, unless no value has corners to be counted. -/
structure Takes (u : UpSampling) (dims : List ℕ) : Prop where
  framed : u.layout = .channelsLast → dims ≠ []
  rank : (u.layout.spatial dims).length = u.rank
  room : requireRoom valueBytes (u.dimsLast (u.layout.toLast dims)) = .ok ()
  corners : 0 < volume (u.dimsLast (u.layout.toLast dims)) → u.rank < 64

/-- Bilinear up-sampling gives a value just for the samples that it takes. -/
theorem sample_succeeds (hb : u.interpolation = .bilinear) :
    (∃ y, u.sample x = .ok y) ↔ u.Takes x.shape := by
  constructor
  · rintro ⟨y, hy⟩
    obtain ⟨_, hspatial, hy⟩ := bind_eq_ok.1 hy
    obtain ⟨_, hroom, hy⟩ := bind_eq_ok.1 hy
    obtain ⟨_, hcorners, -⟩ := bind_eq_ok.1 hy
    obtain ⟨hframed, hrank⟩ := Layout.requireSpatial_eq_ok.1 hspatial
    exact ⟨hframed, hrank, hroom, requireCorners_eq_ok.1 hcorners hb⟩
  · rintro ⟨hframed, hrank, hroom, hcorners⟩
    exact ⟨_, bind_eq_ok.2 ⟨(), Layout.requireSpatial_eq_ok.2 ⟨hframed, hrank⟩,
      bind_eq_ok.2 ⟨(), hroom, bind_eq_ok.2 ⟨(), requireCorners_eq_ok.2 fun _ => hcorners, rfl⟩⟩⟩⟩

/-- The dimensions of an up-sampled sample. -/
theorem shape_sample (hb : u.interpolation = .bilinear) (hy : u.sample x = .ok y) :
    y.shape = u.layout.fromLast (u.dimsLast (u.layout.toLast x.shape)) ∧
      (u.layout.spatial x.shape).length = u.size.length :=
  ⟨congrArg Grid.shape (sample_eq_ok hy), ((sample_succeeds hb).1 ⟨y, hy⟩).rank⟩

theorem exists_weighting (hb : u.interpolation = .bilinear)
    (hlen : (u.layout.toLast dims).dropLast.length = u.size.length)
    (hp : p ∈ positions (u.layout.fromLast (u.dimsLast (u.layout.toLast dims)))) :
    ∃ taps, Weighting (u.Near dims p) taps ∧ ∀ x y : Grid ℚ, x.shape = dims →
      u.sample x = .ok y → y.value p = blend taps x.value := by
  obtain ⟨taps, htaps, hvalue⟩ :=
    exists_weighting_last hb hlen (Layout.mem_positions_fromLast.1 hp)
  refine ⟨_, htaps.map u.layout.fromLast fun q ⟨hq, hchannel, hspatial⟩ => ⟨?_, ?_, ?_⟩,
    fun x y hx hy => ?_⟩
  · rw [← Layout.mem_positions_toLast (l := u.layout), Layout.toLast_fromLast]
    exact hq
  · rw [Layout.channel?, Layout.toLast_fromLast]
    exact hchannel
  · rw [Layout.spatial, Layout.toLast_fromLast]
    exact hspatial
  · obtain rfl := sample_eq_ok hy
    subst hx
    rw [Grid.value_fromLast hp, hvalue _ rfl, blend_map]
    exact htaps.blend_congr fun q hq => Grid.value_toLast hq.1

/-- If no axis is stretched, a position is the only one near it. -/
theorem Near.eq (h : u.Near dims p q) (hones : ∀ s ∈ u.size, s = 1)
    (hlen : (u.layout.spatial dims).length = u.size.length) (hp : p ∈ positions dims) : q = p := by
  have hlength : ∀ {r}, r ∈ positions dims → (u.layout.spatial r).length = u.size.length :=
    fun hr => by
      rw [← hlen, Layout.spatial, Layout.spatial, List.length_dropLast, List.length_dropLast,
        Layout.length_toLast, Layout.length_toLast, length_of_mem_positions hr]
  have hspatial : u.layout.spatial q = u.layout.spatial p := by
    refine List.ext_getElem? fun a => ?_
    rcases lt_or_ge a u.size.length with ha | ha
    · exact h.2.2 a (by rw [List.getElem?_eq_getElem ha, hones _ (List.getElem_mem ha)])
    · rw [List.getElem?_eq_none ((hlength h.1).trans_le ha),
        List.getElem?_eq_none ((hlength hp).trans_le ha)]
  have hback : ∀ r : List ℕ,
      u.layout.fromLast (u.layout.spatial r ++ (u.layout.channel? r).toList) = r := fun r => by
    rw [Layout.spatial, Layout.channel?, dropLast_append_getLast?, Layout.fromLast_toLast]
  rw [← hback q, ← hback p, hspatial, h.2.1]

/-- **Bilinear up-sampling takes means of values around.**  Just the samples with
    a spatial axis for each factor, and with room for the stretched ones, are
    up-sampled, as long as a word can count the corners around a value.  Spatial
    axes are stretched by their factors and channels are kept.  Every value is a
    sum of values of the sample with positive weights that add up to one, and the
    weights depend on the dimensions of the sample alone; all of them are in the
    same channel, and at the same coordinate on every axis with factor 1.  So
    constant samples stay constant, no value leaves the range of the sample, and a
    sample is up-sampled to itself if all factors are 1. -/
theorem bilinear_blends (hb : u.interpolation = .bilinear) :
    ((∃ y, u.sample x = .ok y) ↔ u.Takes x.shape) ∧ ∀ y, u.sample x = .ok y →
    u.layout.spatial y.shape = List.zipWith (· * ·) (u.layout.spatial x.shape) u.size ∧
    u.layout.channel? y.shape = u.layout.channel? x.shape ∧
    (∀ p ∈ positions y.shape,
      (∃ taps, Weighting (u.Near x.shape p) taps ∧ ∀ x' y' : Grid ℚ, x'.shape = x.shape →
        u.sample x' = .ok y' → y'.value p = blend taps x'.value) ∧
      (∀ c, (∀ q ∈ positions x.shape, x.value q = c) → y.value p = c) ∧
      ∀ lo hi, (∀ q ∈ positions x.shape, lo ≤ x.value q ∧ x.value q ≤ hi) →
        lo ≤ y.value p ∧ y.value p ≤ hi) ∧
    ((∀ s ∈ u.size, s = 1) → y = x) := by
  refine ⟨sample_succeeds hb, fun y hy => ?_⟩
  obtain ⟨hshape, hlen⟩ := shape_sample hb hy
  have hexists : ∀ p ∈ positions y.shape, ∃ taps, Weighting (u.Near x.shape p) taps ∧
      ∀ x' y' : Grid ℚ, x'.shape = x.shape → u.sample x' = .ok y' →
        y'.value p = blend taps x'.value :=
    fun p hp => exists_weighting hb hlen (hshape ▸ hp)
  have hones : (∀ s ∈ u.size, s = 1) → y = x := fun hones => by
    have hdims : y.shape = x.shape := by
      rw [Layout.spatial] at hlen
      rw [hshape, dimsLast, zipWith_mul_ones hlen hones, dropLast_append_getLast?,
        Layout.fromLast_toLast]
    refine Grid.ext_values hdims fun p hp => ?_
    obtain ⟨taps, htaps, hvalue⟩ := hexists p hp
    rw [hvalue x y rfl hy]
    exact htaps.blend_eq fun q hq => congrArg x.value (hq.eq hones hlen (hdims ▸ hp))
  refine ⟨?_, ?_, fun p hp => ⟨hexists p hp, ?_⟩, hones⟩
  · rw [hshape, Layout.spatial, Layout.toLast_fromLast, (u.split_dimsLast _).1]
    rfl
  · rw [hshape, Layout.channel?, Layout.toLast_fromLast, (u.split_dimsLast _).2]
    rfl
  · obtain ⟨taps, htaps, hvalue⟩ := hexists p hp
    rw [hvalue x y rfl hy]
    exact ⟨fun c hc => htaps.blend_eq fun q hq => hc q hq.1,
      fun lo hi hin => ⟨htaps.le_blend fun q hq => (hin q hq.1).1,
        htaps.blend_le fun q hq => (hin q hq.1).2⟩⟩

/-- Two cells stretched to four, on the first axis of two. -/
def stretched : UpSampling := ⟨[2, 1], .channelsLast, .bilinear⟩

/-- A sample that grows by 4 on the first axis and by 1 on the second. -/
def slope : Grid ℚ := Grid.ofFn [2, 2, 1] fun p => 4 * p.getD 0 0 + p.getD 1 0

theorem bilinear_blends_stretched : ∃ y, stretched.sample slope = .ok y ∧
    y.toList = [0, 1, 1, 2, 3, 4, 4, 5] ∧ stretched.interpolation = .bilinear ∧
    (∀ p ∈ positions y.shape, ∃ taps, Weighting (stretched.Near [2, 2, 1] p) taps ∧
      y.value p = blend taps slope.value) ∧
    ∀ p ∈ positions y.shape, 0 ≤ y.value p ∧ y.value p ≤ 5 := by
  obtain ⟨htakes, hmeans⟩ := bilinear_blends (x := slope) (u := stretched) rfl
  obtain ⟨y, hy⟩ := htakes.2 ⟨fun _ => List.cons_ne_nil _ _, rfl, rfl, fun _ => by decide⟩
  have hlist : y.toList = [0, 1, 1, 2, 3, 4, 4, 5] := by
    rw [sample_eq_ok hy]
    decide +kernel
  obtain ⟨-, -, hvalues, -⟩ := hmeans y hy
  refine ⟨y, hy, hlist, rfl, fun p hp => ?_, fun p hp => ?_⟩
  · obtain ⟨taps, htaps, hvalue⟩ := (hvalues p hp).1
    exact ⟨taps, htaps, hvalue slope y rfl hy⟩
  · refine (hvalues p hp).2.2 0 5 ?_
    decide +kernel

/-- An axis of two cells stretched to four, and as many axes in all as a word
    has bits. -/
def manyAxes : UpSampling := ⟨2 :: List.replicate 63 1, .channelsLast, .bilinear⟩

/-- A sample with one cell on all its axes but the first. -/
def needle : Grid ℚ := Grid.ofFn (2 :: List.replicate 64 1) fun p => 4 * p.getD 0 0

/-- The corners around a value are more than a word can count: the sample has the
    axes of the up-sampling and room for its values, and is not up-sampled. -/
theorem corners_uncounted : manyAxes.interpolation = .bilinear ∧ (∀ s ∈ manyAxes.size, 0 < s) ∧
    (∀ d ∈ needle.shape, 0 < d) ∧ (manyAxes.layout.spatial needle.shape).length = manyAxes.rank ∧
    requireRoom valueBytes (manyAxes.dimsLast needle.shape) = .ok () ∧
    ¬ ∃ y, manyAxes.sample needle = .ok y := by
  refine ⟨rfl, by decide, by decide, rfl, rfl, fun h => ?_⟩
  have htakes := (sample_succeeds (u := manyAxes) rfl).1 h
  exact absurd (htakes.corners (by decide)) (by decide)

end UpSampling
end Neuroform

/-
  Neuroform — reshaping keeps the number of values, as far as words reach.

  A target shape is resolved with two products: that of its given entries in
  signed words, and that of the resolved dimensions.  Where a product that is no
  word ends the computation, exactly the target shapes are accepted that some
  value for the wildcard completes, and whose given entries have a signed word as
  their product (`Reshape.resolve_of_completes`).  Where products wrap around, the
  same target shapes are accepted, and others besides, whose product comes back
  to the volume (`Reshape.resolveIn_wrapping_iff`): they have negative entries or
  entries that are too large (`Reshape.completes_of_wrapping`).
-/
import Neuroform.Proofs.Graph.Dims
import Neuroform.Proofs.Layer.Rearrangement

namespace Neuroform

/-! ## Products of words -/

/-- What becomes of a result that is no word: it ends a checked computation, and
    loses its upper bits in a wrapping one. -/
inductive Word.Arithmetic where
  | checked
  | wrapping

namespace Word.Arithmetic

/-- A computed size. -/
def ofNat : Arithmetic → Nat → Outcome Nat
  | checked, n => Word.ofNat n
  | wrapping, n => .ok (n % limit)

/-- A computed integer. -/
def ofInt : Arithmetic → Int → Outcome Int
  | checked, i => Word.ofInt i
  | wrapping, i => .ok (i.bmod limit)

/-- The product of sizes. -/
def product (a : Arithmetic) (sizes : List Nat) : Outcome Nat :=
  sizes.foldlM (fun n d => a.ofNat (n * d)) 1

/-- The product of integers. -/
def signedProduct (a : Arithmetic) (is : List Int) : Outcome Int :=
  is.foldlM (fun n i => a.ofInt (n * i)) 1

/-- Only the bits of the exact product are left. -/
theorem signedProduct_wrapping (is : List Int) :
    wrapping.signedProduct is = .ok (is.prod.bmod limit) := by
  have hfold : ∀ (is : List Int) (a : Int), a.bmod limit = a →
      is.foldlM (fun n i => wrapping.ofInt (n * i)) a = .ok ((a * is.prod).bmod limit) := by
    intro is
    induction is with
    | nil =>
      intro a ha
      rw [List.prod_nil, mul_one, ha]
      rfl
    | cons i is ih =>
      intro a _
      refine foldlM_cons_eq_ok.2 ⟨(a * i).bmod limit, rfl, (ih _ Int.bmod_bmod).trans ?_⟩
      rw [Int.bmod_mul_bmod, List.prod_cons, mul_assoc]
  have hone := hfold is 1 (by decide)
  rwa [one_mul] at hone

theorem product_wrapping (ds : List Nat) : wrapping.product ds = .ok (volume ds % limit) := by
  have hfold : ∀ (ds : List Nat) (a : Nat), a % limit = a →
      ds.foldlM (fun n d => wrapping.ofNat (n * d)) a = .ok (a * volume ds % limit) := by
    intro ds
    induction ds with
    | nil =>
      intro a ha
      rw [volume_nil, mul_one, ha]
      rfl
    | cons d ds ih =>
      intro a _
      refine foldlM_cons_eq_ok.2 ⟨a * d % limit, rfl, (ih _ (Nat.mod_mod _ _)).trans ?_⟩
      rw [Nat.mod_mul_mod, volume_cons, mul_assoc]
  have hone := hfold ds 1 (by decide)
  rwa [one_mul] at hone

end Word.Arithmetic

/-- A product of positive integers is computed, if it is a signed word. -/
theorem signedProduct_of_pos {is : List Int} (hpos : ∀ i ∈ is, 0 < i)
    (hlt : is.prod < Word.signLimit) : Word.signedProduct is = .ok is.prod := by
  have hfold : ∀ (is : List Int) (a : Int), 0 < a → (∀ i ∈ is, 0 < i) →
      a * is.prod < Word.signLimit →
      is.foldlM (fun n i => Word.ofInt (n * i)) a = .ok (a * is.prod) := by
    intro is
    induction is with
    | nil =>
      intro a _ _ _
      rw [List.prod_nil, mul_one]
      rfl
    | cons i is ih =>
      intro a ha hpos hlt
      obtain ⟨hi, hrest⟩ := List.forall_mem_cons.1 hpos
      rw [List.prod_cons, ← mul_assoc] at hlt ⊢
      have hai : 0 < a * i := mul_pos ha hi
      have hle : a * i ≤ a * i * is.prod := le_mul_of_one_le_right hai.le (List.prod_pos hrest)
      have hword : Word.ofInt (a * i) = .ok (a * i) := if_pos ⟨by omega, by omega⟩
      exact foldlM_cons_eq_ok.2 ⟨_, hword, ih _ hai hrest hlt⟩
  have hone := hfold is 1 one_pos hpos (by rwa [one_mul])
  rwa [one_mul] at hone

/-- A product of positive sizes is computed, if it is a word. -/
theorem product_of_pos {ds : List Nat} (hpos : ∀ d ∈ ds, 0 < d) (hlt : volume ds < Word.limit) :
    Word.product ds = .ok (volume ds) := by
  have hfold : ∀ (ds : List Nat) (a : Nat), (∀ d ∈ ds, 0 < d) → a * volume ds < Word.limit →
      ds.foldlM (fun n d => Word.ofNat (n * d)) a = .ok (a * volume ds) := by
    intro ds
    induction ds with
    | nil =>
      intro a _ _
      rw [volume_nil, mul_one]
      rfl
    | cons d ds ih =>
      intro a hpos hlt
      obtain ⟨-, hrest⟩ := List.forall_mem_cons.1 hpos
      rw [volume_cons, ← mul_assoc] at hlt ⊢
      have hle : a * d ≤ a * d * volume ds := Nat.le_mul_of_pos_right _ (List.prod_pos hrest)
      exact foldlM_cons_eq_ok.2 ⟨_, ofNat_eq_ok.2 ⟨hle.trans_lt hlt, rfl⟩, ih _ hrest hlt⟩
  have hone := hfold ds 1 hpos (by rwa [one_mul])
  rwa [one_mul] at hone

/-! ### Integers read as words -/

theorem unsigned_modEq (i : Int) : (Word.unsigned i : Int) ≡ i [ZMOD Word.limit] := by
  have hnonneg : 0 ≤ i % Word.limit := Int.emod_nonneg _ (by decide)
  rw [Word.unsigned, Int.toNat_of_nonneg hnonneg]
  exact Int.mod_modEq _ _

/-- Integers and the words with their bits have the same product, up to its upper
    bits. -/
theorem volume_unsigned_modEq (is : List Int) :
    (volume (is.map Word.unsigned) : Int) ≡ is.prod [ZMOD Word.limit] := by
  induction is with
  | nil => rfl
  | cons i is ih =>
    rw [List.map_cons, volume_cons, List.prod_cons, Nat.cast_mul]
    exact (unsigned_modEq i).mul ih

/-- Words whose product is a positive signed word are positive as integers. -/
theorem pos_of_volume_unsigned {is : List Int} (his : ∀ i ∈ is, -(Word.signLimit : Int) ≤ i)
    (hpos : 0 < volume (is.map Word.unsigned))
    (hlt : volume (is.map Word.unsigned) < Word.signLimit) : ∀ i ∈ is, 0 < i := by
  intro i hi
  have hdvd : Word.unsigned i ∣ volume (is.map Word.unsigned) :=
    List.dvd_prod (List.mem_map_of_mem hi)
  have hle := Nat.le_of_dvd hpos hdvd
  have hne := Nat.pos_of_dvd_of_pos hdvd hpos
  have hsigned := his i hi
  have hlimit : Word.limit = 2 * Word.signLimit := rfl
  by_contra hneg
  rcases Int.lt_or_eq_of_le (not_lt.1 hneg) with hneg | rfl
  · have hword : Word.unsigned i = (i + Word.limit).toNat := by
      rw [Word.unsigned, ← Int.add_emod_right, Int.emod_eq_of_lt (by omega) (by omega)]
    omega
  · exact absurd hne (by decide)

theorem unsigned_of_nonneg {i : Int} (h0 : 0 ≤ i) (hlt : i < Word.limit) :
    Word.unsigned i = i.toNat := by
  rw [Word.unsigned, Int.emod_eq_of_lt h0 hlt]

theorem volume_unsigned_of_pos {is : List Int} (his : ∀ i ∈ is, 0 < i ∧ i < Word.limit) :
    (volume (is.map Word.unsigned) : Int) = is.prod := by
  induction is with
  | nil => rfl
  | cons i is ih =>
    obtain ⟨⟨hpos, hlt⟩, hrest⟩ := List.forall_mem_cons.1 his
    rw [List.map_cons, volume_cons, List.prod_cons, Nat.cast_mul, ih hrest,
      unsigned_of_nonneg hpos.le hlt, Int.toNat_of_nonneg hpos.le]

namespace Reshape

/-! ## Resolving by either arithmetic -/

/-- The dimensions for samples of `volume` values, by either arithmetic. -/
def resolveIn (a : Word.Arithmetic) (r : Reshape) (volume : Nat) : Outcome (List Nat) := do
  let known ← a.signedProduct (r.targetShape.filter (· ≠ -1))
  let impossible := LayerCause.reshape volume r.targetShape
  require (r.targetShape.count (-1) ≤ 1) (LayerCause.severalWildcards r.targetShape)
  require (0 < known ∧ volume % known.toNat = 0) impossible
  let fill := volume / known.toNat
  let dims := r.targetShape.map fun d => if d = -1 then fill else Word.unsigned d
  require ((← a.product dims) = volume) impossible
  return dims

/-- The given entries: all but the wildcards. -/
def given (r : Reshape) : List Int := r.targetShape.filter (· ≠ -1)

/-- The entries as words, with a dimension in the place of wildcards. -/
def filled (r : Reshape) (fill : Nat) : List Nat :=
  r.targetShape.map fun d => if d = -1 then fill else Word.unsigned d

/-- The product of the given entries, wrapped around to a signed word. -/
def wrapped (r : Reshape) : Int := r.given.prod.bmod Word.limit

/-- Dimensions complete a target shape for samples of `v` values: all given entries
    are positive, there is one wildcard at most, and with some dimension in its
    place there are `v` values. -/
structure Completes (r : Reshape) (v : Nat) (dims : List Nat) : Prop where
  wildcards : r.targetShape.count (-1) ≤ 1
  positive : ∀ d ∈ r.targetShape, d ≠ -1 → 0 < d
  fills : ∃ fill : Nat, dims = r.targetShape.map fun d => if d = -1 then fill else d.toNat
  volume : volume dims = v

variable {r : Reshape} {v : Nat} {dims : List Nat}

theorem resolveIn_checked : r.resolveIn .checked v = r.resolve v := rfl

theorem mem_given {d : Int} : d ∈ r.given ↔ d ∈ r.targetShape ∧ d ≠ -1 := by
  simp [given]

/-- Every wildcard contributes the dimension in its place. -/
theorem volume_filled (r : Reshape) (fill : Nat) : Neuroform.volume (r.filled fill) =
    Neuroform.volume (r.given.map Word.unsigned) * fill ^ r.targetShape.count (-1) := by
  obtain ⟨is⟩ := r
  simp only [filled, given]
  induction is with
  | nil => rfl
  | cons d is ih =>
    rw [List.map_cons, volume_cons, ih]
    by_cases hd : d = -1
    · rw [if_pos hd, List.filter_cons_of_neg (by simpa using hd), hd, List.count_cons_self, pow_succ]
      ring
    · rw [if_neg hd, List.filter_cons_of_pos (by simpa using hd), List.count_cons_of_ne hd,
        List.map_cons, volume_cons, mul_assoc]

/-- The bits of the given entries' product decide on those of the volume. -/
theorem volume_filled_modEq (r : Reshape) (fill : Nat) : (Neuroform.volume (r.filled fill) : Int) ≡
    r.wrapped * fill ^ r.targetShape.count (-1) [ZMOD Word.limit] := by
  have hwrapped : r.wrapped ≡ r.given.prod [ZMOD Word.limit] := Int.bmod_emod
  rw [volume_filled, Nat.cast_mul, Nat.cast_pow]
  exact ((volume_unsigned_modEq r.given).trans hwrapped.symm).mul_right _

theorem wrapped_lt (r : Reshape) : r.wrapped < Word.signLimit :=
  (Int.bmod_lt (by decide)).trans_le (by decide)

/-- What is missing is put in the place of the wildcard. -/
theorem filled_div {k fill : Nat} (hk : 0 < k) (hcount : r.targetShape.count (-1) ≤ 1)
    (h : k * fill ^ r.targetShape.count (-1) = v) : r.filled (v / k) = r.filled fill := by
  rcases Nat.le_one_iff_eq_zero_or_eq_one.1 hcount with hnone | hone
  · refine List.map_congr_left fun d hd => ?_
    have hne : d ≠ -1 := fun heq => List.count_eq_zero.1 hnone (heq ▸ hd)
    rw [if_neg hne, if_neg hne]
  · rw [hone, pow_one] at h
    rw [← h, Nat.mul_div_cancel_left _ hk]

/-- Positive entries are the words with their bits. -/
theorem filled_eq (hr : ∀ d ∈ r.targetShape, d < Word.signLimit)
    (hpos : ∀ d ∈ r.targetShape, d ≠ -1 → 0 < d) (fill : Nat) :
    r.filled fill = r.targetShape.map fun d => if d = -1 then fill else d.toNat := by
  refine List.map_congr_left fun d hd => ?_
  by_cases hwildcard : d = -1
  · rw [if_pos hwildcard, if_pos hwildcard]
  · have hlt := (hr d hd).trans (by decide : (Word.signLimit : Int) < Word.limit)
    rw [if_neg hwildcard, if_neg hwildcard, unsigned_of_nonneg (hpos d hd hwildcard).le hlt]

/-- What is checked where products wrap around. -/
theorem resolveIn_wrapping_eq_ok : r.resolveIn .wrapping v = .ok dims ↔
    r.targetShape.count (-1) ≤ 1 ∧ (0 < r.wrapped ∧ v % r.wrapped.toNat = 0) ∧
      Neuroform.volume (r.filled (v / r.wrapped.toNat)) % Word.limit = v ∧
      dims = r.filled (v / r.wrapped.toNat) := by
  simp only [resolveIn, bind_eq_ok, require_eq_ok, pure_eq_ok,
    Word.Arithmetic.signedProduct_wrapping, Word.Arithmetic.product_wrapping, Except.ok.injEq]
  constructor
  · rintro ⟨_, rfl, _, hcount, _, hdvd, _, rfl, _, hv, rfl⟩
    exact ⟨hcount, hdvd, hv, rfl⟩
  · rintro ⟨hcount, hdvd, hv, rfl⟩
    exact ⟨_, rfl, (), hcount, (), hdvd, _, rfl, (), hv, rfl⟩

/-- Where products wrap around, only the bits of the product of the given entries
    count. -/
theorem resolveIn_wrapping_iff (hlimit : v < Word.limit) : r.resolveIn .wrapping v = .ok dims ↔
    r.targetShape.count (-1) ≤ 1 ∧ 0 < r.wrapped ∧
      ∃ fill : Nat, r.wrapped * fill ^ r.targetShape.count (-1) = v ∧ dims = r.filled fill := by
  have hcongr := r.volume_filled_modEq
  have hword : r.wrapped < Word.limit := r.wrapped_lt.trans (by decide)
  rw [resolveIn_wrapping_eq_ok]
  generalize r.wrapped = s at hcongr hword ⊢
  refine and_congr_right fun hcount => ?_
  rw [and_assoc]
  refine and_congr_right fun hs => ?_
  obtain ⟨k, rfl⟩ := Int.eq_ofNat_of_zero_le hs.le
  rw [Int.toNat_natCast]
  constructor
  · rintro ⟨hdvd, hv, rfl⟩
    refine ⟨v / k, ?_, rfl⟩
    -- without a wildcard it is the second check that makes the product the volume
    rcases Nat.le_one_iff_eq_zero_or_eq_one.1 hcount with hnone | hone
    · have hmod := hcongr (v / k)
      rw [hnone, pow_zero, mul_one] at hmod ⊢
      rw [Int.ModEq, Int.emod_eq_of_lt hs.le hword] at hmod
      rw [← hmod, ← Int.natCast_emod, hv]
    · rw [hone, pow_one, ← Nat.cast_mul, Nat.mul_div_cancel' (Nat.dvd_of_mod_eq_zero hdvd)]
  · rintro ⟨fill, hfill, rfl⟩
    have hv : k * fill ^ r.targetShape.count (-1) = v := by exact_mod_cast hfill
    have hmod := hcongr fill
    rw [hfill, Int.ModEq, ← Int.natCast_emod, ← Int.natCast_emod, Nat.cast_inj,
      Nat.mod_eq_of_lt hlimit] at hmod
    rw [filled_div (Int.natCast_pos.1 hs) hcount hv]
    exact ⟨Nat.mod_eq_zero_of_dvd (hv ▸ Nat.dvd_mul_right _ _), hmod, rfl⟩

/-! ## Exactness -/

/-- What is accepted without leaving the words is accepted by wrapping products as
    well, and has the right number of values. -/
theorem wrapping_of_resolve (hlimit : v < Word.limit) (h : r.resolve v = .ok dims) :
    r.resolveIn .wrapping v = .ok dims ∧ Neuroform.volume dims = v := by
  simp only [resolve, bind_eq_ok, require_eq_ok, pure_eq_ok] at h
  obtain ⟨known, hknown, _, hcount, _, ⟨hpos, hdvd⟩, m, hm, _, rfl, rfl⟩ := h
  obtain ⟨rfl, hlt⟩ := signedProduct_eq_ok hknown
  have hvolume := product_eq_ok hm
  have hsigned : Word.limit = 2 * Word.signLimit := rfl
  have hwrapped : r.wrapped = r.given.prod :=
    Int.bmod_eq_of_le_mul_two (by change 0 < r.given.prod at hpos; omega)
      (by change r.given.prod < _ at hlt; omega)
  refine ⟨resolveIn_wrapping_eq_ok.2 ?_, hvolume.symm⟩
  rw [hwrapped]
  refine ⟨hcount, ⟨hpos, hdvd⟩, ?_, rfl⟩
  exact (congrArg (· % Word.limit) hvolume.symm).trans (Nat.mod_eq_of_lt hlimit)

/-- A target shape that is resolved to the right number of values is completed by
    them: the product of the words is then that of the integers. -/
theorem completes_of_wrapping
    (hr : ∀ d ∈ r.targetShape, -(Word.signLimit : Int) ≤ d ∧ d < Word.signLimit)
    (hv : 0 < v) (hlimit : v < Word.limit) (h : r.resolveIn .wrapping v = .ok dims)
    (hvolume : Neuroform.volume dims = v) :
    r.Completes v dims ∧ r.given.prod < Word.signLimit := by
  obtain ⟨hcount, hs, fill, hfill, rfl⟩ := (resolveIn_wrapping_iff hlimit).1 h
  have hpow : (fill : Int) ^ r.targetShape.count (-1) ≠ 0 := by
    rintro hzero
    rw [hzero, mul_zero] at hfill
    omega
  have hproduct : (Neuroform.volume (r.given.map Word.unsigned) : Int) = r.wrapped := by
    rw [volume_filled] at hvolume
    refine mul_right_cancel₀ hpow ?_
    rw [hfill, ← hvolume]
    push_cast
    rfl
  have hsigned := r.wrapped_lt
  have hgiven : ∀ d ∈ r.given, 0 < d :=
    pos_of_volume_unsigned (fun d hd => (hr d (mem_given.1 hd).1).1) (by omega) (by omega)
  have hpos : ∀ d ∈ r.targetShape, d ≠ -1 → 0 < d :=
    fun d hd hne => hgiven d (mem_given.2 ⟨hd, hne⟩)
  have hlt : ∀ d ∈ r.targetShape, d < Word.signLimit := fun d hd => (hr d hd).2
  have hexact : (Neuroform.volume (r.given.map Word.unsigned) : Int) = r.given.prod :=
    volume_unsigned_of_pos fun d hd => ⟨hgiven d hd, (hlt d (mem_given.1 hd).1).trans (by decide)⟩
  refine ⟨⟨hcount, hpos, ⟨fill, filled_eq hlt hpos fill⟩, hvolume⟩, ?_⟩
  rw [← hexact, hproduct]
  exact hsigned

/-- What completes a target shape is found, if the product of the given entries is a
    signed word. -/
theorem resolve_of_completes (hr : ∀ d ∈ r.targetShape, d < Word.signLimit) (hv : 0 < v)
    (hlimit : v < Word.limit) (h : r.Completes v dims) (hlt : r.given.prod < Word.signLimit) :
    r.resolve v = .ok dims := by
  obtain ⟨hcount, hpos, ⟨fill, hdims⟩, hvolume⟩ := h
  rw [← filled_eq hr hpos fill] at hdims
  subst hdims
  have hgiven : ∀ d ∈ r.given, 0 < d ∧ d < Word.limit := fun d hd =>
    ⟨hpos d (mem_given.1 hd).1 (mem_given.1 hd).2,
      (hr d (mem_given.1 hd).1).trans (by decide)⟩
  have hexact := volume_unsigned_of_pos hgiven
  have hproduct : r.given.prod.toNat * fill ^ r.targetShape.count (-1) = v := by
    rw [← hvolume, volume_filled, ← hexact, Int.toNat_natCast]
  have hprod : 0 < r.given.prod := List.prod_pos fun d hd => (hgiven d hd).1
  have hfilled := filled_div (r := r) (Int.lt_toNat.2 hprod) hcount hproduct
  have hdims : ∀ d ∈ r.filled fill, 0 < d := fun d hd =>
    Nat.pos_of_dvd_of_pos (hvolume ▸ List.dvd_prod hd) hv
  simp only [resolve, bind_eq_ok, require_eq_ok, pure_eq_ok]
  refine ⟨_, signedProduct_of_pos (fun d hd => (hgiven d hd).1) hlt, (), hcount, (),
    ⟨hprod, ?_⟩, v, ?_, (), rfl, hfilled⟩
  · exact Nat.mod_eq_zero_of_dvd (hproduct ▸ Nat.dvd_mul_right _ _)
  · refine (congrArg Word.product hfilled).trans ?_
    rw [product_of_pos hdims (hvolume ▸ hlimit), hvolume]

/-- Resolving a target shape of signed words for samples of at least one value.  As
    long as products are words, exactly the target shapes are accepted that some
    dimensions complete, and these dimensions are the result; the given entries
    have to have a signed word as their product.  Where products wrap around,
    those target shapes are accepted whose wrapped product completes them, and they
    have the right number of values if and only if they are accepted without
    leaving the words. -/
theorem resolve_exact (r : Reshape) (v : Nat)
    (hr : ∀ d ∈ r.targetShape, -(Word.signLimit : Int) ≤ d ∧ d < Word.signLimit)
    (hv : 0 < v) (hlimit : v < Word.limit) :
    r.resolveIn .checked v = r.resolve v ∧ ∀ dims,
      (r.resolve v = .ok dims ↔ r.Completes v dims ∧ r.given.prod < Word.signLimit) ∧
      (r.resolve v = .ok dims ↔
        r.resolveIn .wrapping v = .ok dims ∧ Neuroform.volume dims = v) ∧
      (r.resolveIn .wrapping v = .ok dims ↔
        r.targetShape.count (-1) ≤ 1 ∧ 0 < r.wrapped ∧
          ∃ fill : Nat, r.wrapped * fill ^ r.targetShape.count (-1) = v ∧
            dims = r.filled fill) := by
  refine ⟨resolveIn_checked, fun dims => ⟨⟨?_, ?_⟩, ⟨?_, ?_⟩, resolveIn_wrapping_iff hlimit⟩⟩
  · intro h
    obtain ⟨hwrapping, hvolume⟩ := wrapping_of_resolve hlimit h
    exact completes_of_wrapping hr hv hlimit hwrapping hvolume
  · rintro ⟨hcompletes, hlt⟩
    exact resolve_of_completes (fun d hd => (hr d hd).2) hv hlimit hcompletes hlt
  · exact wrapping_of_resolve hlimit
  · rintro ⟨hwrapping, hvolume⟩
    obtain ⟨hcompletes, hlt⟩ := completes_of_wrapping hr hv hlimit hwrapping hvolume
    exact resolve_of_completes (fun d hd => (hr d hd).2) hv hlimit hcompletes hlt

/-- Two rows of six values each are found.  Two negative entries have the product
    six as well, and wrap around to a shape of far more values; a product of
    two to the power of 63 is found in neither way. -/
theorem resolve_exact_negative :
    ((Reshape.mk [-1, 2]).resolve 12 = .ok [6, 2] ∧
      (Reshape.mk [-1, 2]).Completes 12 [6, 2]) ∧
    ((Reshape.mk [-2, -3]).resolveIn .wrapping 6 = .ok [2 ^ 64 - 2, 2 ^ 64 - 3] ∧
      ∀ dims, (Reshape.mk [-2, -3]).resolve 6 ≠ .ok dims) ∧
    (Reshape.mk [2 ^ 62, 2]).Completes (2 ^ 63) [2 ^ 62, 2] ∧
      ∀ dims, (Reshape.mk [2 ^ 62, 2]).resolve (2 ^ 63) ≠ .ok dims ∧
        (Reshape.mk [2 ^ 62, 2]).resolveIn .wrapping (2 ^ 63) ≠ .ok dims := by
  have htwelve : (Reshape.mk [-1, 2]).resolve 12 = .ok [6, 2] := rfl
  obtain ⟨-, hrows⟩ := resolve_exact ⟨[-1, 2]⟩ 12 (by decide) (by decide) (by decide)
  obtain ⟨-, hnegative⟩ := resolve_exact ⟨[-2, -3]⟩ 6 (by decide) (by decide) (by decide)
  obtain ⟨-, hlarge⟩ := resolve_exact ⟨[2 ^ 62, 2]⟩ (2 ^ 63) (by decide) (by decide) (by decide)
  refine ⟨⟨htwelve, ((hrows _).1.1 htwelve).1⟩, ⟨?_, fun dims h => ?_⟩, ?_, fun dims => ⟨?_, ?_⟩⟩
  · exact (hnegative _).2.2.2 ⟨by decide, by decide, 1, by decide, rfl⟩
  · have hpos := ((hnegative dims).1.1 h).1.positive (-2) (by decide) (by decide)
    omega
  · exact ⟨by decide, by decide, ⟨0, rfl⟩, rfl⟩
  · intro h
    exact absurd ((hlarge dims).1.1 h).2 (by decide)
  · intro h
    exact absurd ((hlarge dims).2.2.1 h).2.1 (by decide)

end Reshape
end Neuroform

/-
  Neuroform — sizes that are words, and axes.

  Sizes are computed in words, and what memory can hold is counted by one.  A
  computed size that succeeds is the exact one.
-/
import Neuroform.Position
import Neuroform.Proofs.Outcome

namespace Neuroform

@[simp] theorem volume_nil : volume [] = 1 := rfl

@[simp] theorem volume_cons (d : Nat) (ds : List Nat) : volume (d :: ds) = d * volume ds := rfl

@[simp] theorem totalSize_nil : totalSize [] = 0 := rfl

@[simp] theorem totalSize_cons (d : Nat) (ds : List Nat) : totalSize (d :: ds) = d + totalSize ds :=
  rfl

theorem ofNat_eq_ok {n m : Nat} : Word.ofNat n = .ok m ↔ n < Word.limit ∧ n = m := by
  unfold Word.ofNat
  split <;> simp [*]

theorem sum_eq_ok {sizes : List Nat} {n : Nat} (h : Word.sum sizes = .ok n) :
    n = totalSize sizes := (ofNat_eq_ok.1 h).2.symm

theorem product_eq_ok {dims : List Nat} {n : Nat} (h : Word.product dims = .ok n) :
    n = volume dims := by
  have hfold : ∀ (ds : List Nat) (a m : Nat),
      ds.foldlM (fun n d => Word.ofNat (n * d)) a = .ok m → m = a * volume ds := by
    intro ds
    induction ds with
    | nil => intro a m h; simp [foldlM_nil_eq_ok.1 h]
    | cons d ds ih =>
      intro a m h
      obtain ⟨a', ha, h⟩ := foldlM_cons_eq_ok.1 h
      obtain ⟨-, rfl⟩ := ofNat_eq_ok.1 ha
      rw [ih _ _ h, volume_cons, Nat.mul_assoc]
  simpa using hfold dims 1 n h

theorem volume_filter_pos (dims : List Nat) : 0 < volume (dims.filter (0 < ·)) := by
  induction dims with
  | nil => simp
  | cons d ds ih =>
    rw [List.filter_cons]
    split
    case isTrue h => exact Nat.mul_pos (of_decide_eq_true h) ih
    case isFalse => exact ih

/-- The sizes of a shape that arrays have are multiplied without a fault, in any
    order. -/
theorem product_of_addressable {dims : List Nat} (h : addressable dims) :
    Word.product dims = .ok (volume dims) := by
  have hfold : ∀ (ds : List Nat) (a : Nat),
      a = 0 ∨ a * volume (ds.filter (0 < ·)) < Word.signLimit →
      ds.foldlM (fun n d => Word.ofNat (n * d)) a = .ok (a * volume ds) := by
    intro ds
    induction ds with
    | nil => intro a _; simp
    | cons d ds ih =>
      intro a ha
      have hrest : a * d = 0 ∨ a * d * volume (ds.filter (0 < ·)) < Word.signLimit := by
        rcases ha with rfl | ha
        · exact .inl (zero_mul d)
        · rcases Nat.eq_zero_or_pos d with rfl | hd
          · exact .inl (mul_zero a)
          · rw [List.filter_cons, if_pos (decide_eq_true hd), volume_cons, ← mul_assoc] at ha
            exact .inr ha
      have hword : a * d < Word.limit := by
        rcases hrest with h0 | hlt
        · rw [h0]; decide
        · exact (Nat.le_mul_of_pos_right _ (volume_filter_pos ds)).trans_lt (hlt.trans (by decide))
      rw [volume_cons, ← mul_assoc]
      exact foldlM_cons_eq_ok.2 ⟨_, ofNat_eq_ok.2 ⟨hword, rfl⟩, ih _ hrest⟩
  have hone := hfold dims 1 (.inr (by simpa [addressable] using h))
  rwa [one_mul] at hone

theorem volume_le_filter_pos (dims : List Nat) : volume dims ≤ volume (dims.filter (0 < ·)) := by
  induction dims with
  | nil => exact le_refl _
  | cons d ds ih =>
    rw [List.filter_cons]
    split
    case isTrue => exact Nat.mul_le_mul_left d ih
    case isFalse h =>
      obtain rfl : d = 0 := by simpa using h
      simp

/-- The number of values of an array is a word. -/
theorem ofNat_of_addressable {dims : List Nat} (h : addressable dims) :
    Word.ofNat (volume dims) = .ok (volume dims) := by
  have hlt : volume dims < Word.signLimit :=
    (volume_le_filter_pos dims).trans_lt (of_decide_eq_true h)
  exact ofNat_eq_ok.2 ⟨hlt.trans (by decide), rfl⟩

theorem lt_of_addressable {dims : List Nat} {d : Nat} (h : addressable dims) (hd : d ∈ dims) :
    d < Word.signLimit := by
  rcases Nat.eq_zero_or_pos d with rfl | hpos
  · decide
  have hdvd : d ∣ volume (dims.filter (0 < ·)) :=
    List.dvd_prod (List.mem_filter.2 ⟨hd, decide_eq_true hpos⟩)
  exact (Nat.le_of_dvd (volume_filter_pos dims) hdvd).trans_lt (of_decide_eq_true h)

theorem addressable_perm {ds es : List Nat} (h : ds.Perm es) : addressable ds = addressable es := by
  have hvolume : volume (ds.filter (0 < ·)) = volume (es.filter (0 < ·)) := (h.filter _).prod_eq
  rw [addressable, addressable, hvolume]

theorem requireRoom_eq_ok {bytes : Nat} {dims : List Nat} : requireRoom bytes dims = .ok () ↔
    addressable dims ∧ volume dims * bytes < Word.signLimit := by
  unfold requireRoom
  split <;> simp [*]

theorem requireRoom_perm {bytes : Nat} {ds es : List Nat} (h : ds.Perm es) :
    requireRoom bytes ds = requireRoom bytes es := by
  have hvolume : volume ds = volume es := h.prod_eq
  rw [requireRoom, requireRoom, addressable_perm h, hvolume]

theorem addressable_single (n : Nat) : addressable [n] ↔ n < Word.signLimit := by
  rcases Nat.eq_zero_or_pos n with rfl | hn
  · decide
  · simp [addressable, hn]

theorem addressable_tail {d : Nat} {dims : List Nat} (hd : 0 < d) (h : addressable (d :: dims)) :
    addressable dims := by
  simp only [addressable, decide_eq_true_eq, List.filter_cons, hd, decide_true, if_true,
    volume_cons] at h ⊢
  exact (Nat.le_mul_of_pos_left _ hd).trans_lt h

/-- What memory can hold for a number of samples it can hold for one. -/
theorem requireRoom_tail {bytes d : Nat} {dims : List Nat} (hd : 0 < d)
    (h : requireRoom bytes (d :: dims) = .ok ()) : requireRoom bytes dims = .ok () := by
  obtain ⟨ha, hv⟩ := requireRoom_eq_ok.1 h
  refine requireRoom_eq_ok.2 ⟨addressable_tail hd ha, lt_of_le_of_lt ?_ hv⟩
  exact Nat.mul_le_mul_right _ (Nat.le_mul_of_pos_left _ hd)

theorem requireRoom_cons_one (bytes : Nat) (ds : List Nat) :
    requireRoom bytes (1 :: ds) = requireRoom bytes ds := by
  simp [requireRoom, addressable]

theorem requireRoom_single {n : Nat} :
    requireRoom valueBytes [n] = .ok () ↔ n * valueBytes < Word.signLimit := by
  rw [requireRoom_eq_ok, addressable_single, volume_cons, volume_nil, mul_one]
  exact and_iff_right_of_imp (Nat.le_mul_of_pos_right n (by decide)).trans_lt

theorem axisIndex_lt {axis : Int} {rank n : Nat} (h : axisIndex axis rank = .ok n) : n < rank := by
  have hlast : ∀ {resolved : Int}, (do
      require (0 ≤ resolved ∧ resolved < rank) (GridCause.axisRange axis rank)
      return resolved.toNat : Outcome Nat) = .ok n → n < rank := by
    intro resolved h
    obtain ⟨_, hin, h⟩ := bind_eq_ok.1 h
    obtain ⟨h0, hlt⟩ := require_eq_ok.1 hin
    obtain rfl := pure_eq_ok.1 h
    omega
  unfold axisIndex at h
  dsimp only at h
  split at h
  · obtain ⟨resolved, -, h⟩ := bind_eq_ok.1 h
    exact hlast h
  · obtain ⟨resolved, -, h⟩ := bind_eq_ok.1 h
    exact hlast h

end Neuroform

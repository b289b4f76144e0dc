/-
  Neuroform — operations on batches that treat each sample by itself.

  Such an operation makes of each row of a table, whatever the others are, a
  row of its own, or fails (`Table.ActsByRow`).  Views, transforms and objects
  are of this kind, tensor nodes if their functions are
  (`TensorNode.ActsByRow`).  What is made of two tables, one below the other, is
  therefore made of each of them, as long as memory can hold it
  (`Table.ActsByRow.stack`).
-/
import Neuroform.Proofs.Network.Equations

namespace Neuroform

variable {α : Type}

/-! ## Tables -/

namespace Table
variable [Zero α] {t u v w x y : Table α} {a b c i j k : Nat}

theorem row_getD (hj : j < t.columns) : (t.row i).getD j 0 = t.value i j := by
  simp [row, List.getD_eq_getElem?_getD, hj]

theorem row_congr (hc : t.columns = u.columns)
    (hv : ∀ j < t.columns, t.value i j = u.value k j) : t.row i = u.row k := by
  rw [row, row, ← hc]
  exact List.map_congr_left fun j hj => hv j (List.mem_range.1 hj)

/-- Tables of one size with the same rows are the same. -/
theorem ext_rows (ht : t.Sized a c) (hu : u.Sized a c) (h : ∀ i < a, t.row i = u.row i) :
    t = u := by
  refine ext_values (ht.rows.trans hu.rows.symm) (ht.columns.trans hu.columns.symm)
    fun i hi j hj => ?_
  rw [← row_getD hj, h i (ht.rows ▸ hi), row_getD (hu.columns ▸ ht.columns ▸ hj)]

/-- A table and another one below it. -/
def stack (t u : Table α) : Table α :=
  ofFn (t.rows + u.rows) t.columns fun i j =>
    if i < t.rows then t.value i j else u.value (i - t.rows) j

/-- Some of the rows of a table. -/
def part (t : Table α) (first count : Nat) : Table α :=
  ofFn count t.columns fun i j => t.value (first + i) j

theorem Sized.stack (ht : t.Sized a c) (hu : u.Sized b c) : (t.stack u).Sized (a + b) c := by
  obtain ⟨rfl, rfl⟩ := ht
  obtain ⟨rfl, -⟩ := hu
  exact ⟨rfl, rfl⟩

theorem Sized.part (ht : t.Sized a c) (first count : Nat) : (t.part first count).Sized count c :=
  ⟨rfl, ht.columns⟩

theorem value_stack_left (hi : i < t.rows) (hj : j < t.columns) :
    (t.stack u).value i j = t.value i j := by
  rw [stack, value_ofFn _ (by omega) hj, if_pos hi]

theorem value_stack_right (hi : i < u.rows) (hj : j < t.columns) :
    (t.stack u).value (t.rows + i) j = u.value i j := by
  rw [stack, value_ofFn _ (by omega) hj, if_neg (by omega), Nat.add_sub_cancel_left]

theorem value_part {first count : Nat} (hi : i < count) (hj : j < t.columns) :
    (t.part first count).value i j = t.value (first + i) j := value_ofFn _ hi hj

theorem row_stack_left (hi : i < t.rows) : (t.stack u).row i = t.row i :=
  row_congr rfl fun _ hj => value_stack_left hi hj

theorem row_stack_right (hc : u.columns = t.columns) (hi : i < u.rows) :
    (t.stack u).row (t.rows + i) = u.row i :=
  row_congr hc.symm fun _ hj => value_stack_right hi hj

/-- A table is known by two parts of its rows. -/
theorem eq_stack_iff (ht : t.Sized a c) (hu : u.Sized b c) (hw : w.Sized (a + b) c) :
    w = t.stack u ↔ (∀ i < a, w.row i = t.row i) ∧ ∀ i < b, w.row (a + i) = u.row i := by
  have hleft : ∀ i < a, (t.stack u).row i = t.row i := fun i hi =>
    row_stack_left (ht.rows.symm ▸ hi)
  have hright : ∀ i < b, (t.stack u).row (a + i) = u.row i := fun i hi => by
    have := row_stack_right (hu.columns.trans ht.columns.symm) (hu.rows.symm ▸ hi)
    rwa [ht.rows] at this
  constructor
  · rintro rfl
    exact ⟨hleft, hright⟩
  · rintro ⟨hl, hr⟩
    refine ext_rows hw (ht.stack hu) fun i hi => ?_
    rcases Nat.lt_or_ge i a with hia | hia
    · rw [hl i hia, hleft i hia]
    · obtain ⟨k, rfl⟩ := Nat.exists_eq_add_of_le hia
      rw [hr k (by omega), hright k (by omega)]

/-- The rows of a table, cut at some place. -/
theorem stack_parts (hw : w.Sized (a + b) c) : (w.part 0 a).stack (w.part a b) = w := by
  refine ((eq_stack_iff (hw.part 0 a) (hw.part a b) hw).2 ⟨fun i hi => ?_, fun i hi => ?_⟩).symm
  · exact row_congr rfl fun j hj => by rw [value_part hi hj, Nat.zero_add]
  · exact row_congr rfl fun j hj => (value_part hi hj).symm

/-- A relation between tables of up to `limit` rows is one between rows: of each
    row of `m` values is made, if anything, a row of `n` values, as long as
    memory can hold them all. -/
def ActsByRow (limit : Nat) (R : Nat → Table α → Table α → Prop) (fits : Nat → Prop) (m n : Nat) :
    Prop :=
  ∃ f : List α → Option (List α), ∀ k ≤ limit, ∀ x : Table α, x.Sized k m → ∀ y : Table α,
    R k x y ↔ fits k ∧ y.Sized k n ∧ ∀ i < k, f (x.row i) = some (y.row i)

section
variable {R : Nat → Table α → Table α → Prop} {fits : Nat → Prop} {limit m n : Nat}

theorem ActsByRow.congr {R' : Nat → Table α → Table α → Prop} (h : ActsByRow limit R fits m n)
    (hR : ∀ k x, x.Sized k m → ∀ y, R' k x y ↔ R k x y) : ActsByRow limit R' fits m n :=
  let ⟨f, hf⟩ := h
  ⟨f, fun k hk x hx y => (hR k x hx y).trans (hf k hk x hx y)⟩

theorem ActsByRow.sized (h : ActsByRow limit R fits m n) (hk : k ≤ limit) (hx : x.Sized k m)
    (hy : R k x y) : y.Sized k n :=
  let ⟨_, hf⟩ := h
  ((hf k hk x hx y).1 hy).2.1

/-- What is made of a table and another one below it. -/
theorem ActsByRow.stack (h : ActsByRow limit R fits m n) (hab : a + b ≤ limit)
    (hfits : ∀ {k l}, k ≤ l → fits l → fits k) (hx : x.Sized a m) (hy : y.Sized b m) :
    R (a + b) (x.stack y) w ↔ fits (a + b) ∧ ∃ u v, R a x u ∧ R b y v ∧ w = u.stack v := by
  obtain ⟨f, hf⟩ := h
  obtain ⟨hl, hr⟩ := (eq_stack_iff hx hy (hx.stack hy)).1 rfl
  rw [hf _ hab _ (hx.stack hy)]
  refine and_congr_right fun hfit => ?_
  have hA : ∀ u, R a x u ↔ u.Sized a n ∧ ∀ i < a, f (x.row i) = some (u.row i) := fun u => by
    rw [hf a (by omega) x hx, and_iff_right (hfits (by omega) hfit)]
  have hB : ∀ v, R b y v ↔ v.Sized b n ∧ ∀ i < b, f (y.row i) = some (v.row i) := fun v => by
    rw [hf b (by omega) y hy, and_iff_right (hfits (by omega) hfit)]
  simp only [hA, hB]
  constructor
  · rintro ⟨hw, hrows⟩
    obtain ⟨hl', hr'⟩ := (eq_stack_iff (hw.part 0 a) (hw.part a b) hw).1 (stack_parts hw).symm
    refine ⟨w.part 0 a, w.part a b, ⟨hw.part 0 a, fun i hi => ?_⟩, ⟨hw.part a b, fun i hi => ?_⟩,
      (stack_parts hw).symm⟩
    · rw [← hl i hi, ← hl' i hi, hrows i (by omega)]
    · rw [← hr i hi, ← hr' i hi, hrows (a + i) (by omega)]
  · rintro ⟨u, v, ⟨hu, hru⟩, ⟨hv, hrv⟩, rfl⟩
    obtain ⟨hl', hr'⟩ := (eq_stack_iff hu hv (hu.stack hv)).1 rfl
    refine ⟨hu.stack hv, fun i hi => ?_⟩
    rcases Nat.lt_or_ge i a with hia | hia
    · rw [hl i hia, hl' i hia, hru i hia]
    · obtain ⟨k, rfl⟩ := Nat.exists_eq_add_of_le hia
      rw [hr k (by omega), hr' k (by omega), hrv k (by omega)]

end
end Table

/-! ## Memory -/

theorem addressable_mono {k l : Nat} {dims : List Nat} (h : k ≤ l) (hl : addressable (l :: dims)) :
    addressable (k :: dims) := by
  have hpos := volume_filter_pos dims
  have hlt : volume ((l :: dims).filter (0 < ·)) < Word.signLimit := of_decide_eq_true hl
  have hle : volume ((k :: dims).filter (0 < ·)) ≤ volume ((l :: dims).filter (0 < ·)) := by
    rcases Nat.eq_zero_or_pos k with rfl | hk
    · rw [List.filter_cons_of_neg (by simp), List.filter_cons]
      split
      case isTrue hl => exact Nat.le_mul_of_pos_left _ (of_decide_eq_true hl)
      case isFalse => exact le_refl _
    · rw [List.filter_cons_of_pos (by simpa using hk),
        List.filter_cons_of_pos (by simpa using hk.trans_le h)]
      exact Nat.mul_le_mul_right _ h
  exact decide_eq_true (hle.trans_lt hlt)

theorem requireRoom_mono {k l bytes : Nat} {dims : List Nat} (h : k ≤ l)
    (hl : requireRoom bytes (l :: dims) = .ok ()) : requireRoom bytes (k :: dims) = .ok () := by
  obtain ⟨ha, hv⟩ := requireRoom_eq_ok.1 hl
  refine requireRoom_eq_ok.2 ⟨addressable_mono h ha, lt_of_le_of_lt ?_ hv⟩
  exact Nat.mul_le_mul_right _ (Nat.mul_le_mul_right _ h)

/-! ## Connections -/

/-- Memory can hold what a transform gives for a number of rows. -/
def Transform.HasRoom (t : Transform α) (rows size : Nat) : Prop :=
  match t with
  | .dense _ | .sparse _ | .convolution _ => requireRoom valueBytes [rows, size] = .ok ()
  | _ => True

theorem Transform.HasRoom.mono {t : Transform α} {k l size : Nat} (h : k ≤ l)
    (hl : t.HasRoom l size) : t.HasRoom k size := by
  cases t with
  | dense => exact requireRoom_mono h hl
  | sparse => exact requireRoom_mono h hl
  | convolution => exact requireRoom_mono h hl
  | _ => exact hl

section
variable [Zero α] {limit m n : Nat}

omit [Zero α] in
/-- The result of an operation that does not fail. -/
theorem ok_iff_of_eq {o : Outcome (Table α)} {u y : Table α} (h : o = .ok u) :
    o = .ok y ↔ True ∧ y = u := by
  rw [h, Except.ok.injEq, true_and, eq_comm]

variable [Add α] [Mul α]

end

/-! ## Objects -/

section
variable [Scalar α] {limit size : Nat}

/-- A tensor node makes of each sample of a batch, by itself, a number of values
    that is always the same, or fails.  The batches have up to `limit` samples
    and can be laid out. -/
def TensorNode.ActsByRow (node : TensorNode α) (limit : Nat) : Prop :=
  ∃ (length : Nat) (f : List α → Option (List α)),
    ∀ k ≤ limit, addressable (k :: node.shapeIn) →
      ∀ (input : Table α) (x : Grid α), input.Holds k node.shapeIn x →
        (∀ y, node.function.eval x = .ok y → y.size = k * length) ∧
        ∀ t : Table α, t.Sized k length →
          ((∃ y, node.function.eval x = .ok y ∧ y.cells = t.cells) ↔
            ∀ i < k, f (input.row i) = some (t.row i))

/-- What a tensor node reads and gives can be laid out. -/
def ObjectKind.HasRoom (k : ObjectKind α) (batch : Nat) : Prop :=
  match k with
  | .tensorNode t => addressable (batch :: t.shapeIn) ∧ batch * t.sizeOut < Word.limit
  | _ => True

omit [Scalar α] in
theorem ObjectKind.HasRoom.mono {kind : ObjectKind α} {k l : Nat} (h : k ≤ l)
    (hl : kind.HasRoom l) : kind.HasRoom k := by
  cases kind with
  | tensorNode t => exact ⟨addressable_mono h hl.1, (Nat.mul_le_mul_right _ h).trans_lt hl.2⟩
  | _ => trivial

end

end Neuroform

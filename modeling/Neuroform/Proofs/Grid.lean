/-
  Neuroform — values of grids and tables.

  The positions of a box in row-major order have the places from zero on, so
  that a grid is known by its values at positions and a table by its cells.  A
  batch and the table with a row per sample keep their values in one order
  (`Table.Holds`).
-/
import Neuroform.Grid
import Neuroform.Proofs.Position

namespace Neuroform

/-! ## Positions -/

section
variable {dims p : List Nat}

theorem volume_append (ds es : List Nat) : volume (ds ++ es) = volume ds * volume es := by
  induction ds with
  | nil => simp
  | cons d ds ih => simp [ih, Nat.mul_assoc]

/-- A position has one coordinate on every axis. -/
theorem mem_positions : ∀ {dims p : List Nat}, p ∈ positions dims ↔ List.Forall₂ (· < ·) p dims
  | [], p => by simp [positions]
  | d :: ds, [] => by simp [positions_cons]
  | d :: ds, i :: is => by simp [positions_cons, mem_positions]

theorem length_of_mem_positions (h : p ∈ positions dims) : p.length = dims.length :=
  (mem_positions.1 h).length_eq

theorem getD_lt_of_mem_positions {a : Nat} (h : p ∈ positions dims) (ha : a < dims.length) :
    p.getD a 0 < dims.getD a 0 := by
  have hlength := length_of_mem_positions h
  have hlt := (List.forall₂_iff_get.1 (mem_positions.1 h)).2 a (hlength ▸ ha) ha
  rw [List.getD_eq_getElem _ _ (hlength ▸ ha), List.getD_eq_getElem _ _ ha]
  exact hlt

/-- The places of all positions, in order. -/
theorem map_offset_positions (dims : List Nat) :
    (positions dims).map (offset dims) = List.range (volume dims) := by
  induction dims with
  | nil => rfl
  | cons d ds ih =>
    have hrow : ∀ i, ((positions ds).map (i :: ·)).map (offset (d :: ds)) =
        (List.range (volume ds)).map (i * volume ds + ·) := by
      intro i
      rw [← ih, List.map_map, List.map_map]
      rfl
    have hrows : ∀ n, (List.range n).flatMap (fun i =>
        (List.range (volume ds)).map (i * volume ds + ·)) = List.range (n * volume ds) := by
      intro n
      induction n with
      | zero => simp
      | succ n ihn =>
        rw [List.range_succ, List.flatMap_append, ihn, Nat.succ_mul, List.range_add]
        simp
    rw [positions_cons, List.map_flatMap]
    simp only [hrow, hrows, volume_cons]

theorem offset_of_getElem? {k : Nat} (h : (positions dims)[k]? = some p) : offset dims p = k := by
  have hplace := congrArg (·[k]?) (map_offset_positions dims)
  obtain ⟨hlt, -⟩ := List.getElem?_eq_some_iff.1 h
  rw [length_positions] at hlt
  simpa only [List.getElem?_map, h, Option.map_some, List.getElem?_range hlt,
    Option.some.injEq] using hplace

theorem getElem?_positions (h : p ∈ positions dims) :
    (positions dims)[offset dims p]? = some p := by
  obtain ⟨k, hk⟩ := List.mem_iff_getElem?.1 h
  rw [offset_of_getElem? hk, hk]

theorem offset_lt (h : p ∈ positions dims) : offset dims p < volume dims := by
  rw [← length_positions]
  exact (List.getElem?_eq_some_iff.1 (getElem?_positions h)).1

theorem exists_position {j : Nat} (h : j < volume dims) :
    ∃ p ∈ positions dims, offset dims p = j := by
  have hmem : j ∈ (positions dims).map (offset dims) := by
    rw [map_offset_positions]
    exact List.mem_range.2 h
  exact List.mem_map.1 hmem

theorem offset_inj {q : List Nat} (hp : p ∈ positions dims) (hq : q ∈ positions dims)
    (h : offset dims p = offset dims q) : p = q := by
  have := getElem?_positions hp
  rw [h, getElem?_positions hq] at this
  exact (Option.some.inj this).symm

/-- Places follow one another as positions do, the first axis counting most. -/
theorem offset_lt_offset : ∀ {dims p q : List Nat}, p ∈ positions dims → q ∈ positions dims →
    (offset dims p < offset dims q ↔ p < q)
  | [], p, q, hp, hq => by
    obtain rfl := List.forall₂_nil_right_iff.1 (mem_positions.1 hp)
    obtain rfl := List.forall₂_nil_right_iff.1 (mem_positions.1 hq)
    simp
  | d :: ds, p, q, hp, hq => by
    obtain ⟨i, is, -, his, rfl⟩ := List.forall₂_cons_right_iff.1 (mem_positions.1 hp)
    obtain ⟨j, js, -, hjs, rfl⟩ := List.forall₂_cons_right_iff.1 (mem_positions.1 hq)
    have hi := offset_lt (mem_positions.2 his)
    have hj := offset_lt (mem_positions.2 hjs)
    -- a row ends before the next one starts
    have hrow : ∀ {a b : Nat}, a < b → a * volume ds + volume ds ≤ b * volume ds := fun h => by
      rw [← Nat.succ_mul]
      exact Nat.mul_le_mul_right _ h
    rw [List.cons_lt_cons_iff, ← offset_lt_offset (mem_positions.2 his) (mem_positions.2 hjs)]
    simp only [offset]
    rcases Nat.lt_trichotomy i j with h | rfl | h
    · have := hrow h
      omega
    · omega
    · have := hrow h
      omega

/-- Positions are listed in order. -/
theorem sorted_positions (dims : List Nat) : (positions dims).Pairwise (· < ·) := by
  have h : (List.range (volume dims)).Pairwise (· < ·) := List.pairwise_lt_range
  rw [← map_offset_positions, List.pairwise_map] at h
  exact h.imp_of_mem fun hp hq => (offset_lt_offset hp hq).1

/-- The coordinate of a place of a box on an axis. -/
def coordinate (dims : List Nat) (a j : Nat) : Nat := ((positions dims).getD j []).getD a 0

theorem coordinate_offset {dims p : List Nat} {a : Nat} (hp : p ∈ positions dims) :
    coordinate dims a (offset dims p) = p.getD a 0 := by
  simp [coordinate, getElem?_positions hp]

theorem cons_mem_positions {d i : Nat} {ds is : List Nat} :
    i :: is ∈ positions (d :: ds) ↔ i < d ∧ is ∈ positions ds := by
  simp [mem_positions]

theorem mem_positions_pair {r c : Nat} : p ∈ positions [r, c] ↔ ∃ i < r, ∃ j < c, p = [i, j] := by
  rw [mem_positions]
  constructor
  · intro h
    obtain ⟨i, is, hi, his, rfl⟩ := List.forall₂_cons_right_iff.1 h
    obtain ⟨j, js, hj, hjs, rfl⟩ := List.forall₂_cons_right_iff.1 his
    obtain rfl := List.forall₂_nil_right_iff.1 hjs
    exact ⟨i, hi, j, hj, rfl⟩
  · rintro ⟨i, hi, j, hj, rfl⟩
    exact .cons hi (.cons hj .nil)

theorem mem_positions_concat {ds : List Nat} {c : Nat} : ∀ {p : List Nat},
    p ∈ positions (ds ++ [c]) ↔ ∃ ps k, ps ∈ positions ds ∧ k < c ∧ p = ps ++ [k] := by
  induction ds with
  | nil =>
    intro p
    simp only [List.nil_append, mem_positions, List.forall₂_cons_right_iff,
      List.forall₂_nil_right_iff]
    constructor
    · rintro ⟨k, _, hk, rfl, rfl⟩
      exact ⟨[], k, rfl, hk, rfl⟩
    · rintro ⟨_, k, rfl, hk, rfl⟩
      exact ⟨k, [], hk, rfl, rfl⟩
  | cons d ds ih =>
    intro p
    rcases p with _ | ⟨i, is⟩
    · constructor
      · intro h
        simpa using length_of_mem_positions h
      · rintro ⟨ps, k, -, -, h⟩
        simp at h
    · rw [List.cons_append, cons_mem_positions, ih]
      constructor
      · rintro ⟨hi, ps, k, hps, hk, rfl⟩
        exact ⟨i :: ps, k, cons_mem_positions.2 ⟨hi, hps⟩, hk, rfl⟩
      · rintro ⟨_ | ⟨j, ps⟩, k, hps, hk, h⟩
        · simpa using length_of_mem_positions hps
        · obtain ⟨rfl, rfl⟩ := List.cons.inj h
          exact ⟨(cons_mem_positions.1 hps).1, ps, k, (cons_mem_positions.1 hps).2, hk, rfl⟩

theorem append_mem_positions {ds es is js : List Nat} (hi : is ∈ positions ds)
    (hj : js ∈ positions es) : is ++ js ∈ positions (ds ++ es) :=
  mem_positions.2 (List.rel_append (mem_positions.1 hi) (mem_positions.1 hj))

theorem offset_append : ∀ {ds is : List Nat}, is.length = ds.length → ∀ (es js : List Nat),
    offset (ds ++ es) (is ++ js) = offset ds is * volume es + offset es js
  | [], [], _, es, js => by simp [offset]
  | d :: ds, i :: is, h, es, js => by
    simp only [List.cons_append, offset, volume_append,
      @offset_append ds is (by simpa using h) es js]
    ring

end

/-! ## Grids -/

namespace Grid
variable {α β : Type} [Zero α] {g h : Grid α} {p : List Nat}

omit [Zero α] in
theorem cells_ofFn (shape : List Nat) (f : List Nat → α) :
    (ofFn shape f).cells = ((positions shape).map f).toArray := rfl

theorem value_ofFn {shape : List Nat} (f : List Nat → α) (hp : p ∈ positions shape) :
    (ofFn shape f).value p = f p := by
  simp [value, ofFn, getElem?_positions hp]

omit [Zero α] in
theorem ofFn_congr {shape : List Nat} {f f' : List Nat → α}
    (h : ∀ p ∈ positions shape, f p = f' p) : ofFn shape f = ofFn shape f' := by
  rw [ofFn, ofFn, Grid.mk.injEq]
  exact ⟨rfl, congrArg List.toArray (List.map_congr_left h)⟩

/-- What is read at a position is one of the values. -/
theorem value_mem (hp : p ∈ positions g.shape) : g.value p ∈ g.toList := by
  have hlt : offset g.shape p < g.cells.size := by rw [g.size_cells]; exact offset_lt hp
  rw [value, Array.getD_eq_getD_getElem?, Array.getElem?_eq_getElem hlt, Option.getD_some]
  exact Array.mem_toList_iff.2 (Array.getElem_mem hlt)

theorem value_map {f : α → β} [Zero β] (hp : p ∈ positions g.shape) :
    (g.map f).value p = f (g.value p) := by
  have hlt : offset g.shape p < g.cells.size := by rw [g.size_cells]; exact offset_lt hp
  simp [value, map, hlt]

/-- A grid is known by its shape and its values. -/
theorem ext_values (hs : g.shape = h.shape) (hv : ∀ p ∈ positions g.shape, g.value p = h.value p) :
    g = h := by
  obtain ⟨shape, cells, hc⟩ := g
  obtain ⟨shape', cells', hc'⟩ := h
  obtain rfl : shape = shape' := hs
  have hcells : cells = cells' := by
    refine Array.ext (by rw [hc, hc']) fun j hj hj' => ?_
    obtain ⟨p, hp, rfl⟩ := exists_position (hc ▸ hj)
    have := hv p hp
    simpa [value, hj, hj'] using this
  subst hcells
  rfl

end Grid

/-- An array that is stretched to its own shape is read where it is. -/
theorem Grid.stretchedPosition_self {shape p : List Nat} (h : p ∈ positions shape) :
    Grid.stretchedPosition shape p = p := by
  rw [Grid.stretchedPosition, length_of_mem_positions h, Nat.sub_self, List.drop_zero]
  induction shape generalizing p with
  | nil =>
    cases List.forall₂_nil_right_iff.1 (mem_positions.1 h)
    rfl
  | cons d ds ih =>
    obtain ⟨i, is, hi, -, rfl⟩ := List.forall₂_cons_right_iff.1 (mem_positions.1 h)
    rw [List.zipWith_cons_cons, ih (cons_mem_positions.1 h).2]
    congr 1
    split <;> omega

/-- An array is combined with what another one is stretched to. -/
theorem Grid.value_absorb {α : Type} [Zero α] {f : α → α → α} {x y z : Grid α}
    (h : x.absorb f y = .ok z) : z.shape = x.shape ∧
      ∀ p ∈ positions x.shape, z.value p = f (x.value p) (y.stretchedValue p) := by
  unfold Grid.absorb at h
  split at h
  case isTrue =>
    obtain rfl := Except.ok.inj h
    exact ⟨rfl, fun p hp => Grid.value_ofFn _ hp⟩
  case isFalse => simp at h

/-- Arrays of one shape are combined value by value. -/
theorem Grid.absorb_same {α : Type} [Zero α] {f : α → α → α} {x y z : Grid α}
    (h : x.absorb f y = .ok z) (hs : y.shape = x.shape) : z.shape = x.shape ∧
      ∀ p ∈ positions x.shape, z.value p = f (x.value p) (y.value p) := by
  obtain ⟨hshape, hvalue⟩ := Grid.value_absorb h
  refine ⟨hshape, fun p hp => ?_⟩
  rw [hvalue p hp, Grid.stretchedValue, hs, Grid.stretchedPosition_self hp]

theorem Grid.stretches_self (shape : List Nat) : Grid.stretches shape shape = true := by
  unfold Grid.stretches
  induction shape.reverse with
  | nil => rfl
  | cons d ds ih => simp [Grid.stretchesRev, ih]

/-- An array stretches to its own shape. -/
theorem Grid.absorb_of_shape {α : Type} [Zero α] {f : α → α → α} {x y : Grid α}
    (hs : y.shape = x.shape) :
    x.absorb f y = .ok (Grid.ofFn x.shape fun p => f (x.value p) (y.stretchedValue p)) :=
  if_pos (hs ▸ Grid.stretches_self _)

/-- A list that is stretched to rows of its length is read at the column. -/
theorem Grid.stretchedValue_row {α : Type} [Zero α] {ys : List α} (i : Nat) {j : Nat}
    (hj : j < ys.length) : (Grid.ofList ys).stretchedValue [i, j] = ys.getD j 0 := by
  have hposition : Grid.stretchedPosition (Grid.ofList ys).shape [i, j] = [j] := by
    simp only [Grid.stretchedPosition, Grid.ofList, List.length_cons, List.length_nil,
      List.drop_succ_cons, List.drop_zero, List.zipWith_cons_cons, List.zipWith_nil_right]
    congr 1
    split <;> omega
  rw [Grid.stretchedValue, hposition]
  simp [Grid.value, Grid.ofList, offset]

/-! ## Tables -/

namespace Table
variable {α : Type} [Zero α] {t u : Table α} {i j : Nat}

theorem value_ofFn {rows columns : Nat} (f : Nat → Nat → α) (hi : i < rows) (hj : j < columns) :
    (ofFn rows columns f).value i j = f i j := by
  have hp : [i, j] ∈ positions [rows, columns] := by simp [mem_positions, hi, hj]
  have := Grid.value_ofFn (fun p => f (p.getD 0 0) (p.getD 1 0)) hp
  simpa [Grid.value, Grid.ofFn, offset, volume, value, ofFn] using this

omit [Zero α] in
theorem ofGrid_eq_ok {rows columns : Nat} {g : Grid α} :
    ofGrid rows columns g = .ok t ↔ t.rows = rows ∧ t.columns = columns ∧ t.cells = g.cells := by
  obtain ⟨r, c, cells, hc⟩ := t
  unfold ofGrid
  split
  case isTrue h =>
    constructor
    · rintro ⟨⟩
      exact ⟨rfl, rfl, rfl⟩
    · rintro ⟨rfl, rfl, rfl⟩
      rfl
  case isFalse h =>
    constructor
    · simp
    · rintro ⟨rfl, rfl, rfl⟩
      exact absurd hc h

/-- A table is known by its size and its cells. -/
theorem ext_values (hr : t.rows = u.rows) (hc : t.columns = u.columns)
    (hv : ∀ i < t.rows, ∀ j < t.columns, t.value i j = u.value i j) : t = u := by
  obtain ⟨rows, columns, cells, hs⟩ := t
  obtain ⟨rows', columns', cells', hs'⟩ := u
  obtain rfl : rows = rows' := hr
  obtain rfl : columns = columns' := hc
  have hcells : cells = cells' := by
    refine Array.ext (by rw [hs, hs']) fun k hk hk' => ?_
    have hpos : 0 < columns := Nat.pos_of_ne_zero fun h => by simp [hs, h] at hk
    have hi : k / columns < rows := Nat.div_lt_of_lt_mul (by rw [Nat.mul_comm, ← hs]; exact hk)
    have := hv _ hi _ (Nat.mod_lt k hpos)
    simpa [value, Nat.div_add_mod', hk, hk'] using this
  subst hcells
  rfl

theorem ofFn_congr {rows columns : Nat} {f g : Nat → Nat → α}
    (h : ∀ i < rows, ∀ j < columns, f i j = g i j) : ofFn rows columns f = ofFn rows columns g :=
  ext_values rfl rfl fun i (hi : i < rows) j (hj : j < columns) => by
    rw [value_ofFn f hi hj, value_ofFn g hi hj]
    exact h i hi j hj

theorem ofFn_value (t : Table α) : ofFn t.rows t.columns t.value = t :=
  ext_values rfl rfl fun _ hi _ hj => value_ofFn _ hi hj

theorem value_zeros {rows columns : Nat} : (zeros rows columns : Table α).value i j = 0 := by
  unfold zeros value
  rw [Array.getD_eq_getD_getElem?, Array.getElem?_replicate]
  split <;> rfl

omit [Zero α] in
/-- Cells are listed row by row. -/
theorem index_lt (hi : i < t.rows) (hj : j < t.columns) : i * t.columns + j < t.cells.size := by
  rw [t.size_cells]
  calc i * t.columns + j < i * t.columns + t.columns := by omega
    _ = (i + 1) * t.columns := by ring
    _ ≤ t.rows * t.columns := Nat.mul_le_mul_right _ hi

theorem value_map {f : α → α} (hi : i < t.rows) (hj : j < t.columns) :
    (t.map f).value i j = f (t.value i j) := by
  have hlt := index_lt hi hj
  simp [value, map, hlt]

/-- What is read in a cell is one of the values. -/
theorem value_mem (hi : i < t.rows) (hj : j < t.columns) : t.value i j ∈ t.cells.toList := by
  have hlt := index_lt hi hj
  rw [value, Array.getD_eq_getD_getElem?, Array.getElem?_eq_getElem hlt, Option.getD_some]
  exact Array.getElem_mem_toList hlt

/-- Columns are selected if the table has them. -/
theorem selectColumns_eq_ok {columns : List Nat} : t.selectColumns columns = .ok u ↔
    (∀ j ∈ columns, j < t.columns) ∧
      u = ofFn t.rows columns.length fun i k => t.value i (columns.getD k 0) := by
  rw [selectColumns]
  split
  case isTrue h =>
    have hin : ∀ j ∈ columns, j < t.columns := by simpa using h
    rw [and_iff_right hin, Except.ok.injEq]
    exact eq_comm
  case isFalse h =>
    have hout : ¬ ∀ j ∈ columns, j < t.columns := by simpa using h
    exact iff_of_false nofun fun h' => hout h'.1

/-- The rows of a table are the samples of a batch. -/
structure Holds (t : Table α) (batch : Nat) (dims : List Nat) (g : Grid α) : Prop where
  shape : g.shape = batch :: dims
  rows : t.rows = batch
  columns : t.columns = volume dims
  cells : t.cells = g.cells

namespace Holds
variable {batch : Nat} {dims : List Nat} {g : Grid α} (h : t.Holds batch dims g)
include h

theorem value_cells (i j : Nat) : t.value i j = g.cells.getD (i * volume dims + j) 0 := by
  simp only [Table.value, h.cells, h.columns]

theorem value (i : Nat) (p : List Nat) : t.value i (offset dims p) = g.value (i :: p) := by
  simp only [Table.value, Grid.value, h.cells, h.shape, h.columns, offset]

omit [Zero α] in
theorem unique (h' : u.Holds batch dims g) : t = u := by
  obtain ⟨rows, columns, cells, hs⟩ := t
  obtain ⟨rows', columns', cells', hs'⟩ := u
  obtain ⟨-, rfl, rfl, rfl⟩ := h
  obtain ⟨-, rfl, rfl, rfl⟩ := h'
  rfl

end Holds

/-- A table holds a batch if its cells are the values of the samples. -/
theorem holds_of_values {batch : Nat} {dims : List Nat} {g : Grid α} (hs : g.shape = batch :: dims)
    (hr : t.rows = batch) (hc : t.columns = volume dims)
    (hv : ∀ i < batch, ∀ p ∈ positions dims, t.value i (offset dims p) = g.value (i :: p)) :
    t.Holds batch dims g := by
  have hsize : g.cells.size = batch * volume dims := by rw [g.size_cells, hs, volume_cons]
  have heq : t = ⟨batch, volume dims, g.cells, hsize⟩ := by
    refine ext_values hr hc fun i hi j hj => ?_
    obtain ⟨p, hp, rfl⟩ := exists_position (hc ▸ hj)
    rw [hv i (hr ▸ hi) p hp]
    simp only [value, Grid.value, hs, offset]
  subst heq
  exact ⟨hs, rfl, rfl, rfl⟩

end Table
end Neuroform

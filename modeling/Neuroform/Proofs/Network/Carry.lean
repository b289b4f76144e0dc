/-
  Neuroform — what wires carry, value by value.

  A table is described by a function of its rows and columns (`Table.Reads`).
  Views select and add columns of it, transforms map its rows; each of these
  succeeds on tables of fitting size.
-/
import Neuroform.Proofs.Grid
import Neuroform.Proofs.Network.Steady

namespace Neuroform

variable {α : Type}

/-- A table of a size with given values. -/
structure Table.Reads [Zero α] (t : Table α) (r c : Nat) (f : Nat → Nat → α) : Prop where
  rows : t.rows = r
  columns : t.columns = c
  value : ∀ i < r, ∀ j < c, t.value i j = f i j

namespace Table
variable [Zero α] {t : Table α} {r c : Nat} {f g : Nat → Nat → α}

theorem Reads.congr (h : t.Reads r c f) (hfg : ∀ i < r, ∀ j < c, f i j = g i j) : t.Reads r c g :=
  ⟨h.rows, h.columns, fun i hi j hj => (h.value i hi j hj).trans (hfg i hi j hj)⟩

theorem reads_ofFn : (ofFn r c f).Reads r c f :=
  ⟨rfl, rfl, fun _ hi _ hj => value_ofFn f hi hj⟩

theorem reads_zeros : (zeros r c : Table α).Reads r c fun _ _ => 0 :=
  ⟨rfl, rfl, fun _ _ _ _ => value_zeros⟩

theorem Holds.reads {batch : Nat} {dims : List Nat} {v : Grid α} (h : t.Holds batch dims v) :
    t.Reads batch (volume dims) t.value :=
  ⟨h.rows, h.columns, fun _ _ _ _ => rfl⟩

theorem Reads.map (h : t.Reads r c f) (φ : α → α) : (t.map φ).Reads r c fun i j => φ (f i j) := by
  obtain ⟨rfl, rfl, hv⟩ := h
  exact ⟨rfl, rfl, fun i hi j hj => by rw [value_map hi hj, hv i hi j hj]⟩

/-- The table of a grid of two axes. -/
theorem exists_ofGrid {x : Grid α} (hs : x.shape = [r, c])
    (hx : ∀ i < r, ∀ j < c, x.value [i, j] = f i j) :
    ∃ t, ofGrid r c x = .ok t ∧ t.Reads r c f := by
  have hsize : x.cells.size = r * c := by simp [x.size_cells, hs]
  refine ⟨⟨r, c, x.cells, hsize⟩, dif_pos hsize, rfl, rfl, fun i hi j hj => ?_⟩
  rw [← hx i hi j hj]
  simp [value, Grid.value, hs, offset]

theorem value_toGrid (t : Table α) (i j : Nat) : t.toGrid.value [i, j] = t.value i j := by
  simp [value, Grid.value, toGrid, offset]

end Table

/-! ## Views -/

section
variable [Zero α] {x y : Table α} {m n b : Nat} {f g : Nat → Nat → α} {o : ObjectId}

/-- Some columns of a table. -/
theorem select_at {indices : List Nat} (hx : x.Reads b m f) (hi : ∀ j ∈ indices, j < m) :
    ∃ y, View.select ⟨o, some indices⟩ x = .ok y ∧
      y.Reads b indices.length fun i k => f i (indices.getD k 0) := by
  obtain ⟨rfl, rfl, hv⟩ := hx
  refine ⟨_, if_pos (by simpa using hi),
    Table.reads_ofFn.congr fun i hib k hk => hv i hib _ (hi _ ?_)⟩
  rw [List.getD_eq_getElem?_getD, List.getElem?_eq_getElem hk]
  exact List.getElem_mem hk

variable [Add α]

/-- Values of the same size are added one by one. -/
theorem accumulate_full (hy : y.Reads b n g) (hx : x.Reads b n f) :
    ∃ t, (View.full o).accumulate y x = .ok t ∧ t.Reads b n fun i j => f i j + g i j := by
  obtain ⟨rfl, rfl, hvx⟩ := hx
  obtain ⟨hr, hc, hvy⟩ := hy
  have hshape : y.toGrid.shape = x.toGrid.shape := by simp [Table.toGrid, hr, hc]
  have habsorb : x.toGrid.absorb (· + ·) y.toGrid = .ok (Grid.ofFn x.toGrid.shape fun p =>
      x.toGrid.value p + y.toGrid.stretchedValue p) := Grid.absorb_of_shape hshape
  obtain ⟨t, ht, hv⟩ := Table.exists_ofGrid (f := fun i j => f i j + g i j)
    (x := Grid.ofFn x.toGrid.shape fun p => x.toGrid.value p + y.toGrid.stretchedValue p)
    rfl fun i hi j hj => by
      have hp : [i, j] ∈ positions x.toGrid.shape := by simp [Table.toGrid, mem_positions, hi, hj]
      have hstretch : Grid.stretchedPosition y.toGrid.shape [i, j] = [i, j] := by
        simp only [Grid.stretchedPosition, Table.toGrid, hr, hc, List.length_cons, List.length_nil,
          Nat.sub_self, List.drop_zero, List.zipWith_cons_cons, List.zipWith_nil_right]
        congr 1
        · split <;> omega
        · congr 1
          split <;> omega
      rw [Grid.value_ofFn _ hp, Grid.stretchedValue, hstretch, Table.value_toGrid,
        Table.value_toGrid, hvx i hi j hj, hvy i hi j hj]
  exact ⟨t, bind_eq_ok.2 ⟨_, habsorb, ht⟩, hv⟩

omit [Zero α] in
/-- In a sum over the entries of one key, only the entry with that key counts. -/
theorem foldl_miss {ε : Type} (key : ε → Nat) (φ : ε → α) {j : Nat} : ∀ {es : List ε} {a : α},
    j ∉ es.map key → es.foldl (fun acc e => if key e = j then acc + φ e else acc) a = a
  | [], _, _ => rfl
  | e :: es, a, h => by
    rw [List.map_cons, List.mem_cons, not_or] at h
    rw [List.foldl_cons, if_neg (Ne.symm h.1)]
    exact foldl_miss key φ h.2

omit [Zero α] in
theorem foldl_hit {ε : Type} (key : ε → Nat) (φ : ε → α) {e : ε} : ∀ {es : List ε} {a : α},
    (es.map key).Nodup → e ∈ es →
    es.foldl (fun acc e' => if key e' = key e then acc + φ e' else acc) a = a + φ e
  | [], _, _, h => by simp at h
  | u :: es, a, hd, h => by
    obtain ⟨hne, hd⟩ := List.nodup_cons.1 hd
    rcases List.mem_cons.1 h with rfl | h
    · rw [List.foldl_cons, if_pos rfl]
      exact foldl_miss key φ hne
    · have hu : key u ≠ key e := fun heq => hne (by rw [heq]; exact List.mem_map_of_mem h)
      rw [List.foldl_cons, if_neg hu]
      exact foldl_hit key φ hd h

/-- Different positions each get the value of their place added; the others
    stay. -/
theorem value_scatter {indices : List Nat} (hd : indices.Nodup) {i j : Nat} (hi : i < x.rows)
    (hj : j < x.columns) :
    (∀ k, indices[k]? = some j → (scatter indices y x).value i j = x.value i j + y.value i k) ∧
      (j ∉ indices → (scatter indices y x).value i j = x.value i j) := by
  have hvalue : (scatter indices y x).value i j = indices.zipIdx.foldl (fun acc e =>
      if e.1 = j then acc + y.value i e.2 else acc) (x.value i j) := Table.value_ofFn _ hi hj
  have hkeys : indices.zipIdx.map Prod.fst = indices := List.zipIdx_map_fst _ _
  rw [hvalue]
  constructor
  · intro k hk
    have hmem : (j, k) ∈ indices.zipIdx := List.mem_zipIdx_iff_getElem?.2 hk
    exact foldl_hit Prod.fst (fun e => y.value i e.2) (by rwa [hkeys]) hmem
  · intro hj'
    exact foldl_miss Prod.fst (fun e => y.value i e.2) (by rwa [hkeys])

theorem accumulate_at {indices : List Nat} (hd : indices.Nodup) (hy : y.Reads b indices.length g)
    (hx : x.Reads b n f) :
    ∃ t, View.accumulate ⟨o, some indices⟩ y x = .ok t ∧ t.rows = b ∧ t.columns = n ∧
      ∀ i < b, ∀ j < n, (∀ k, indices[k]? = some j → t.value i j = f i j + g i k) ∧
        (j ∉ indices → t.value i j = f i j) := by
  obtain ⟨rfl, rfl, hvx⟩ := hx
  refine ⟨scatter indices y x, if_pos hy.columns.ge, rfl, rfl, fun i hi j hj => ?_⟩
  obtain ⟨hhit, hmiss⟩ := value_scatter (y := y) hd hi hj
  refine ⟨fun k hk => ?_, fun hj' => (hmiss hj').trans (hvx i hi j hj)⟩
  rw [hhit k hk, hvx i hi j hj, hy.value i hi k (List.getElem?_eq_some_iff.1 hk).1]

end

/-! ## Transforms -/

section
variable [Zero α] [Add α] [Mul α] {x y : Table α} {b m n : Nat} {f : Nat → Nat → α}

theorem dot_congr {n : Nat} {f f' g g' : Nat → α} (hf : ∀ k < n, f k = f' k)
    (hg : ∀ k < n, g k = g' k) : Table.dot n f g = Table.dot n f' g' := by
  refine List.foldl_ext _ _ _ fun acc k hk => ?_
  rw [hf k (List.mem_range.1 hk), hg k (List.mem_range.1 hk)]

theorem apply_scalar (hx : x.Reads b n f) (factor : α) :
    ∃ y, (Transform.scalar factor).apply x = .ok y ∧ y.Reads b n fun i j => f i j * factor :=
  ⟨_, rfl, hx.map (· * factor)⟩

theorem apply_diagonal {factors : List α} (hx : x.Reads b factors.length f) :
    ∃ y, (Transform.diagonal factors).apply x = .ok y ∧
      y.Reads b factors.length fun i j => f i j * factors.getD j 0 := by
  obtain ⟨rfl, hc, hv⟩ := hx
  refine ⟨Table.ofFn x.rows x.columns fun i j => x.value i j * factors.getD j 0, ?_, ?_⟩
  · exact bind_eq_ok.2 ⟨some factors.length, rfl, bind_eq_ok.2 ⟨(), require_eq_ok.2 hc.symm, rfl⟩⟩
  · rw [hc]
    exact Table.reads_ofFn.congr fun i hi j hj => by rw [hv i hi j hj]

theorem apply_dense_eq_ok_iff {weights : Table α} (hx : x.columns = weights.columns) :
    (Transform.dense weights).apply x = .ok y ↔
      requireRoom valueBytes [x.rows, weights.rows] = .ok () ∧ y = x.mul weights.transpose := by
  constructor
  · intro h
    obtain ⟨_, h₁, h⟩ := bind_eq_ok.1 h
    obtain rfl := Except.ok.inj h₁
    obtain ⟨_, -, h⟩ := bind_eq_ok.1 h
    obtain ⟨_, hroom, h⟩ := bind_eq_ok.1 h
    exact ⟨hroom, (pure_eq_ok.1 h).symm⟩
  · rintro ⟨hroom, rfl⟩
    exact bind_eq_ok.2 ⟨_, rfl, bind_eq_ok.2 ⟨(), require_eq_ok.2 hx.symm,
      bind_eq_ok.2 ⟨(), hroom, rfl⟩⟩⟩

theorem apply_dense (weights : Table α) (hx : x.Reads b weights.columns f)
    (hroom : requireRoom valueBytes [b, weights.rows] = .ok ()) :
    ∃ y, (Transform.dense weights).apply x = .ok y ∧
      y.Reads b weights.rows fun i j => Table.dot weights.columns (f i) (weights.value j) := by
  obtain ⟨rfl, hc, hv⟩ := hx
  refine ⟨x.mul weights.transpose, (apply_dense_eq_ok_iff hc).2 ⟨hroom, rfl⟩, ?_⟩
  · refine Table.reads_ofFn.congr fun i hi j hj => ?_
    rw [hc]
    exact dot_congr (hv i hi) fun k hk => Table.value_ofFn _ hk hj

omit [Zero α] [Add α] [Mul α] in
theorem mem_entries {s : SparseTransform α} (h : (Transform.sparse s).checkEntries = .ok ()) :
    ∀ e ∈ s.indices.zip s.values, e.1.1 < s.rows ∧ e.1.2 < s.columns := fun e he => by
  obtain ⟨_, -, hin⟩ := bind_eq_ok.1 h
  simpa using List.all_eq_true.1 (require_eq_ok.1 hin) e.1 (List.of_mem_zip he).1

/-- Weights at one place add up. -/
theorem apply_sparse_eq_ok_iff {s : SparseTransform α} (hx : x.columns = s.columns)
    (hentries : (Transform.sparse s).checkEntries = .ok ()) :
    (Transform.sparse s).apply x = .ok y ↔ requireRoom valueBytes [x.rows, s.rows] = .ok () ∧
      y = Table.ofFn x.rows s.rows fun i j => (s.indices.zip s.values).foldl
        (fun acc e => if e.1.1 = j then acc + e.2 * x.value i e.1.2 else acc) 0 := by
  have hin : x.rows = 0 ∨ ((s.indices.zip s.values).all fun e =>
      e.1.1 < s.rows && e.1.2 < s.columns) = true :=
    .inr (List.all_eq_true.2 fun e h => by simpa using mem_entries hentries e h)
  constructor
  · intro h
    obtain ⟨_, h₁, h⟩ := bind_eq_ok.1 h
    obtain rfl := Except.ok.inj h₁
    obtain ⟨_, -, h⟩ := bind_eq_ok.1 h
    obtain ⟨_, hroom, h⟩ := bind_eq_ok.1 h
    exact ⟨hroom, Except.ok.inj (h.symm.trans (if_pos hin))⟩
  · rintro ⟨hroom, rfl⟩
    exact bind_eq_ok.2 ⟨_, rfl, bind_eq_ok.2 ⟨(), require_eq_ok.2 hx.symm,
      bind_eq_ok.2 ⟨(), hroom, if_pos hin⟩⟩⟩

/-- Weights of different rows: every row has the value of its only entry. -/
theorem apply_sparse {s : SparseTransform α} (hx : x.Reads b s.columns f)
    (hroom : requireRoom valueBytes [b, s.rows] = .ok ())
    (hentries : (Transform.sparse s).checkEntries = .ok ()) (hd : (s.indices.map Prod.fst).Nodup) :
    ∃ y, (Transform.sparse s).apply x = .ok y ∧ y.rows = b ∧ y.columns = s.rows ∧
      ∀ i < b, ∀ e ∈ s.indices.zip s.values, y.value i e.1.1 = 0 + e.2 * f i e.1.2 := by
  obtain ⟨rfl, hc, hv⟩ := hx
  obtain ⟨_, hlength, -⟩ := bind_eq_ok.1 hentries
  have hkeys : (s.indices.zip s.values).map (Prod.fst ∘ Prod.fst) = s.indices.map Prod.fst := by
    rw [← List.map_map, List.map_fst_zip (require_eq_ok.1 hlength).le]
  refine ⟨_, (apply_sparse_eq_ok_iff hc hentries).2 ⟨hroom, rfl⟩, rfl, rfl, fun i hi e he => ?_⟩
  obtain ⟨hrow, hcol⟩ := mem_entries hentries e he
  rw [Table.value_ofFn _ hi hrow]
  rw [foldl_hit (fun u => u.1.1) (fun u => u.2 * x.value i u.1.2) (hkeys.symm ▸ hd) he,
    hv i hi _ (hc ▸ hcol)]

/-- Every row is convolved by itself. -/
theorem apply_convolution_eq_ok_iff {c : ConvolutionTransform α} {size : Nat}
    (hin : c.sizeIn = .ok m) (hout : c.sizeOut = .ok size) (hx : x.columns = m) :
    (Transform.convolution c).apply x = .ok y ↔
      requireRoom valueBytes [x.rows, size] = .ok () ∧ ∃ results,
        List.Forall₂ (fun i z => c.applyRow (x.row i) = .ok z) (List.range x.rows) results ∧
        y = Table.ofFn x.rows size fun i j =>
          ((results.map (·.cells)).toArray.getD i #[]).getD j 0 := by
  have hsize : (Transform.convolution c).sizeIn? = .ok (some m) := map_eq_ok.2 ⟨m, hin, rfl⟩
  constructor
  · intro h
    obtain ⟨_, h₁, h⟩ := bind_eq_ok.1 h
    obtain rfl := Except.ok.inj (hsize.symm.trans h₁)
    obtain ⟨_, -, h⟩ := bind_eq_ok.1 h
    obtain ⟨_, hn, h⟩ := bind_eq_ok.1 h
    obtain rfl := Except.ok.inj (hout.symm.trans hn)
    obtain ⟨_, hroom, h⟩ := bind_eq_ok.1 h
    obtain ⟨results, hresults, h⟩ := bind_eq_ok.1 h
    exact ⟨hroom, results, mapM_forall₂.1 hresults, (pure_eq_ok.1 h).symm⟩
  · rintro ⟨hroom, results, hresults, rfl⟩
    exact bind_eq_ok.2 ⟨_, hsize, bind_eq_ok.2 ⟨(), require_eq_ok.2 hx.symm, bind_eq_ok.2 ⟨_, hout,
      bind_eq_ok.2 ⟨(), hroom, bind_eq_ok.2 ⟨results, mapM_forall₂.2 hresults, rfl⟩⟩⟩⟩⟩

theorem apply_convolution {c : ConvolutionTransform α} {size : Nat} {results : List (Grid α)}
    (hin : c.sizeIn = .ok m) (hout : c.sizeOut = .ok size) (hx : x.rows = b) (hm : x.columns = m)
    (hroom : requireRoom valueBytes [b, size] = .ok ())
    (hrows : List.Forall₂ (fun i y => c.applyRow (x.row i) = .ok y) (List.range b) results) :
    ∃ y, (Transform.convolution c).apply x = .ok y ∧ y.rows = b ∧ y.columns = size ∧
      ∀ i < b, ∀ j < size, ∀ r, results[i]? = some r → y.value i j = r.cells.getD j 0 := by
  subst hx
  refine ⟨_, (apply_convolution_eq_ok_iff hin hout hm).2 ⟨hroom, results, hrows, rfl⟩, rfl, rfl,
    fun i hi j hj r hr => ?_⟩
  rw [Table.value_ofFn _ hi hj]
  simp [hr]

end

/-! ## Wires -/

theorem carry_eq_ok [Scalar α] {value : ObjectId → Option (Table α)} {w : Wire α}
    {x x' y input t : Table α} (hx : value w.pre.object = some x) (hs : w.pre.select x = .ok x')
    (ht : w.transform.apply x' = .ok y) (ha : w.post.accumulate y input = .ok t) :
    w.carry value input = .ok t := by
  exact bind_eq_ok.2 ⟨x, orFault_eq_ok.2 hx, bind_eq_ok.2 ⟨x', hs, bind_eq_ok.2 ⟨y, ht, ha⟩⟩⟩

end Neuroform

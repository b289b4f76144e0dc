/-
  Neuroform — transforms are matrices.

  In exact arithmetic every value that a transform gives is a sum of values of
  the row with weights (`Transform.reads`), and the weights of one value add up
  (`weightAt`).  A transform that is checked for its sizes is therefore one
  matrix, whatever the rows are.  It applies whenever what it makes can be laid
  out (`Transform.LaidOut`).
-/
import Neuroform.Proofs.Convolution
import Neuroform.Proofs.Layer.Layouts
import Neuroform.Proofs.Network.Rowwise

namespace Neuroform

variable {α : Type}

/-! ## Sums with weights -/

section
variable [CommSemiring α]

/-- The sum of some values of a row, each with its weight. -/
def weighted (es : List (Nat × α)) (row : Nat → α) : α := (es.map fun e => row e.1 * e.2).sum

/-- The weight of a value; weights of one value add up. -/
def weightAt (es : List (Nat × α)) (k : Nat) : α :=
  (es.map fun e => if e.1 = k then e.2 else 0).sum

theorem weighted_congr {es : List (Nat × α)} {row row' : Nat → α}
    (h : ∀ e ∈ es, row e.1 = row' e.1) : weighted es row = weighted es row' :=
  congrArg List.sum (List.map_congr_left fun e he => by rw [h e he])

theorem weighted_single (k : Nat) (w : α) (row : Nat → α) : weighted [(k, w)] row = row k * w := by
  simp [weighted]

/-- Values are collected by their places. -/
theorem weighted_eq_sum {m : Nat} (row : Nat → α) : ∀ {es : List (Nat × α)},
    (∀ e ∈ es, e.1 < m) → weighted es row = ∑ k : Fin m, weightAt es k * row k
  | [], _ => by simp [weighted, weightAt]
  | e :: es, h => by
    have ih := weighted_eq_sum row fun e' he => h e' (List.mem_cons_of_mem _ he)
    have hlt : e.1 < m := h e (by simp)
    have hfirst : ∑ k : Fin m, (if e.1 = k then e.2 else 0) * row k = e.2 * row e.1 := by
      rw [Finset.sum_eq_single ⟨e.1, hlt⟩]
      · simp
      · intro k _ hk
        rw [if_neg fun h => hk (Fin.ext h.symm), zero_mul]
      · simp
    calc weighted (e :: es) row = row e.1 * e.2 + weighted es row := by simp [weighted]
      _ = ∑ k : Fin m, ((if e.1 = k then e.2 else 0) * row k + weightAt es k * row k) := by
        rw [Finset.sum_add_distrib, hfirst, ih, mul_comm]
      _ = ∑ k : Fin m, weightAt (e :: es) k * row k := by
        simp [weightAt, add_mul]

end

/-! ## Convolutions -/

namespace ConvolutionTransform
variable {c : ConvolutionTransform α} {channels : Nat}

/-- The shape of an output sample, in numbers without bounds. -/
def windows (c : ConvolutionTransform α) : List Nat :=
  c.layout.join c.filters (c.geometry.outputs (c.layout.spatial c.inputShape))

/-- A row is a sample of a shape that arrays have, and windows fit on it. -/
structure LaidOut (c : ConvolutionTransform α) : Prop where
  input : addressable c.inputShape
  windows : c.geometry.Fits (c.layout.spatial c.inputShape) c.filters

theorem WellFormed.slides (h : c.WellFormed) :
    c.geometry.Slides (c.layout.spatial c.inputShape) :=
  ⟨h.length_spatial.symm, h.ranks.2.1.trans h.length_spatial.symm,
    List.length_replicate.trans h.length_spatial.symm, h.moves⟩

theorem WellFormed.outputShape_eq_ok (h : c.WellFormed) {shape : List Nat}
    (hshape : c.outputShape = .ok shape) : shape = c.windows := by
  obtain ⟨axes, haxes, hshape⟩ := bind_eq_ok.1 hshape
  obtain ⟨-, rfl⟩ := (h.slides.axes_eq_ok_iff h.taps).1 haxes
  rw [← pure_eq_ok.1 hshape, Geometry.outputDims_sliding]
  rfl

theorem WellFormed.sizeOut_eq_ok (h : c.WellFormed) {size : Nat} (hsize : c.sizeOut = .ok size) :
    size = volume c.windows := by
  obtain ⟨shape, hshape, hsize⟩ := bind_eq_ok.1 hsize
  rw [product_eq_ok hsize, h.outputShape_eq_ok hshape]

/-- The taps of a window that lie on the input. -/
def tapsAt (c : ConvolutionTransform α) (o : List Nat) : List (List Nat) :=
  (positions c.kernelSize).filter fun k =>
    InBox (c.geometry.coordinates (c.layout.spatial c.inputShape) o k)
      (c.layout.spatial c.inputShape)

/-- The place of the input value of a channel under a tap of a window. -/
def placeUnder (c : ConvolutionTransform α) (o k : List Nat) (channel : Nat) : Nat :=
  offset c.inputShape (c.layout.join channel
    ((c.geometry.coordinates (c.layout.spatial c.inputShape) o k).map Int.toNat))

theorem mem_channels (hc : c.layout.channel? c.inputShape = some channels) {o k : List Nat}
    (hk : k ∈ c.tapsAt o) {channel : Nat} (hchannel : channel < channels) :
    c.layout.join channel ((c.geometry.coordinates (c.layout.spatial c.inputShape) o k).map
      Int.toNat) ∈ positions c.inputShape := by
  have hin : InBox _ _ := of_decide_eq_true (List.mem_filter.1 hk).2
  have hjoin := Layout.mem_positions_join (l := c.layout).2
    ⟨_, channel, hin.mem_positions, hchannel, rfl⟩
  rwa [Layout.join_spatial hc] at hjoin

/-- The input values that the value of a window and filter is a sum of: those under
    the taps of the window, for all channels. -/
def readsAt [Zero α] (c : ConvolutionTransform α) (o : List Nat) (filter : Nat) :
    List (Nat × α) :=
  (c.tapsAt o).flatMap fun k =>
    (List.range ((c.layout.channel? c.inputShape).getD 0)).map fun channel =>
      (c.placeUnder o k channel, c.kernel.value (k ++ [channel, filter]))

/-- The input values that an output value is a sum of. -/
def reads [Zero α] (c : ConvolutionTransform α) (j : Nat) : List (Nat × α) :=
  let p := c.layout.toLast ((positions c.windows).getD j [])
  c.readsAt p.dropLast (p.getLastD 0)

theorem WellFormed.reads_lt [Zero α] (h : c.WellFormed) {j : Nat} :
    ∀ e ∈ c.reads j, e.1 < volume c.inputShape := fun e he => by
  obtain ⟨channels, hc⟩ := h.exists_channel
  obtain ⟨k, hk, he⟩ := List.mem_flatMap.1 he
  obtain ⟨channel, hchannel, rfl⟩ := List.mem_map.1 he
  rw [hc, Option.getD_some, List.mem_range] at hchannel
  exact offset_lt (mem_channels hc hk hchannel)

section
variable [CommSemiring α]

/-- A convolved value is the sum of what it reads. -/
theorem WellFormed.convolvedValue_eq (h : c.WellFormed)
    (hc : c.layout.channel? c.inputShape = some channels) {x : Grid α}
    (hx : x.shape = c.inputShape) {o : List Nat} {f : Nat}
    (ho : o ∈ positions (c.geometry.outputs (c.layout.spatial c.inputShape))) :
    convolvedValue (x.toLast c.layout) c.kernel (Neuroform.taps c.geometry.kernel
      ((c.geometry.windowAxes (c.layout.spatial c.inputShape)).map
        (·.sliding c.geometry.padding)) o) channels f =
      weighted (c.readsAt o f) (x.cells.getD · 0) := by
  have hvalue : ∀ k ∈ c.tapsAt o, ∀ channel < channels,
      (x.toLast c.layout).value ((c.geometry.coordinates (c.layout.spatial c.inputShape) o k).map
        Int.toNat ++ [channel]) = x.cells.getD (c.placeUnder o k channel) 0 := by
    intro k hk channel hchannel
    have hmem := mem_channels hc hk hchannel
    rw [← Layout.mem_positions_toLast (l := c.layout), Layout.toLast_join] at hmem
    rw [Grid.value_toLast_concat (by rwa [hx]), Grid.value, hx]
    rfl
  rw [h.slides.taps_eq ho]
  simp only [convolvedValue, foldl_add_eq]
  rw [zero_add, List.map_map, weighted, readsAt, List.map_flatMap, List.flatMap_def,
    List.sum_flatten, List.map_map, hc, Option.getD_some]
  refine congrArg List.sum (List.map_congr_left fun k hk => ?_)
  rw [Function.comp_apply, Function.comp_apply, List.map_map]
  refine congrArg List.sum (List.map_congr_left fun channel hchannel => ?_)
  rw [hvalue k hk channel (List.mem_range.1 hchannel)]
  rfl

/-- The sample that a row is convolved to. -/
def convolved (c : ConvolutionTransform α) (row : List α) : Grid α :=
  Grid.ofFn c.windows fun p => weighted
    (c.readsAt (c.layout.toLast p).dropLast ((c.layout.toLast p).getLastD 0)) (row.getD · 0)

theorem getD_convolved {row : List α} {j : Nat} (hj : j < volume c.windows) :
    (c.convolved row).cells.getD j 0 = weighted (c.reads j) (row.getD · 0) := by
  have hlt : j < (positions c.windows).length := by rwa [length_positions]
  simp [convolved, Grid.ofFn, reads, List.getD_eq_getElem?_getD, List.getElem?_eq_getElem hlt]

/-- Rows are convolved if they can be laid out. -/
theorem WellFormed.applyRow_eq_ok_iff (h : c.WellFormed) {row : List α} {z : Grid α}
    (hrow : row.length = volume c.inputShape) :
    c.applyRow row = .ok z ↔ c.LaidOut ∧ z = c.convolved row := by
  obtain ⟨channels, hc⟩ := h.exists_channel
  by_cases ha : addressable c.inputShape = true
  case neg =>
    refine iff_of_false (fun hz => ?_) fun hz => ha hz.1.input
    obtain ⟨x, hx, -⟩ := bind_eq_ok.1 hz
    simp [Grid.reshape, ha] at hx
  have hsize : (Grid.ofList row).cells.size = volume c.inputShape := hrow
  let x : Grid α := ⟨c.inputShape, (Grid.ofList row).cells, hsize⟩
  have hreshape : (Grid.ofList row).reshape c.inputShape = .ok x := dif_pos ⟨ha, hsize.symm⟩
  have hlast := fun y => (h.accepts hc (x := x.toLast c.layout) rfl).convolveLast_eq_ok_iff
    (y := y) h.taps
  have hconvolved : (Grid.ofFn (c.geometry.outputs (c.layout.spatial c.inputShape) ++ [c.filters])
      fun p => convolvedValue (x.toLast c.layout) c.kernel (Neuroform.taps c.geometry.kernel
        ((c.geometry.windowAxes (c.layout.spatial c.inputShape)).map
          (·.sliding c.geometry.padding)) p.dropLast) channels (p.getLastD 0)).fromLast c.layout =
      c.convolved row := by
    refine (Grid.ofFn_fromLast _ _ fun p hp => ?_).symm
    obtain ⟨o, f, ho, -, hof⟩ := mem_positions_concat.1 (Layout.mem_positions_fromLast.1 hp)
    rw [hof, List.dropLast_concat, List.getLastD_concat, h.convolvedValue_eq hc rfl ho]
    simp [x, Grid.ofList]
  rw [applyRow, hreshape]
  change x.throughLast c.layout (fun x => convolveLast c.geometry x c.kernel) = .ok z ↔ _
  constructor
  · intro hz
    obtain ⟨y, hy, rfl, -⟩ := Grid.throughLast_eq_ok hz
    obtain ⟨hfits, rfl⟩ := (hlast y).1 hy
    exact ⟨⟨ha, hfits⟩, hconvolved⟩
  · rintro ⟨hlaid, rfl⟩
    rw [← hconvolved]
    exact Grid.throughLast_of_channel hc ((hlast _).2 ⟨hlaid.windows, rfl⟩)

end
end ConvolutionTransform

/-! ## All transforms -/

namespace Transform
variable {t : Transform α} {m n : Nat}

/-- What a transform makes of a number of rows can be laid out, and so can the
    rows. -/
def LaidOut (t : Transform α) (rows size : Nat) : Prop :=
  t.HasRoom rows size ∧ ∀ c, t = convolution c → 0 < rows → c.LaidOut

section
variable [CommSemiring α]

/-- The values of a row that an output value is a sum of, with their weights. -/
def reads (t : Transform α) (j : Nat) : List (Nat × α) :=
  match t with
  | identity => [(j, 1)]
  | scalar factor => [(j, factor)]
  | diagonal factors => [(j, factors.getD j 0)]
  | dense weights => (List.range weights.columns).map fun k => (k, weights.value j k)
  | sparse s => ((s.indices.zip s.values).filter fun e => e.1.1 = j).map fun e => (e.1.2, e.2)
  | convolution c => c.reads j

theorem reads_lt (hw : t.WellFormed) (hc : t.check m n = .ok ()) {j : Nat} (hj : j < n) :
    ∀ e ∈ t.reads j, e.1 < m := by
  obtain ⟨i, o, hi, ho, hin, hout, hentries⟩ := check_eq_ok.1 hc
  cases t with
  | identity | scalar =>
    obtain rfl := Except.ok.inj ho
    obtain rfl : m = n := hout
    exact List.forall_mem_singleton.2 hj
  | diagonal factors =>
    obtain rfl := Except.ok.inj hi
    obtain rfl := Except.ok.inj ho
    obtain rfl : factors.length = m := hin
    obtain rfl : factors.length = n := hout
    exact List.forall_mem_singleton.2 hj
  | dense weights =>
    obtain rfl := Except.ok.inj hi
    obtain rfl : weights.columns = m := hin
    intro e he
    obtain ⟨k, hk, rfl⟩ := List.mem_map.1 he
    exact List.mem_range.1 hk
  | sparse s =>
    obtain rfl := Except.ok.inj hi
    obtain rfl : s.columns = m := hin
    intro e he
    obtain ⟨entry, hentry, rfl⟩ := List.mem_map.1 he
    exact (mem_entries hentries entry (List.mem_of_mem_filter hentry)).2
  | convolution c =>
    obtain ⟨m', hsize, rfl⟩ := map_eq_ok.1 hi
    obtain rfl : m' = m := hin
    exact product_eq_ok hsize ▸ ConvolutionTransform.WellFormed.reads_lt hw

variable {x y : Table α}

theorem identity_eq_ok_iff : identity.apply x = .ok y ↔ True ∧
    y = Table.ofFn x.rows x.columns fun i j => weighted (identity.reads j) (x.value i) := by
  simp only [reads, weighted_single, mul_one, Table.ofFn_value]
  exact ok_iff_of_eq rfl

theorem scalar_eq_ok_iff {factor : α} : (scalar factor).apply x = .ok y ↔ True ∧
    y = Table.ofFn x.rows x.columns fun i j => weighted ((scalar factor).reads j) (x.value i) := by
  refine ok_iff_of_eq (congrArg Except.ok ?_)
  refine Table.ext_values rfl rfl fun i (hi : i < x.rows) j (hj : j < x.columns) => ?_
  rw [Table.value_map hi hj, Table.value_ofFn _ hi hj, reads, weighted_single]

theorem diagonal_eq_ok_iff {factors : List α} (hx : x.columns = factors.length) :
    (diagonal factors).apply x = .ok y ↔ True ∧ y = Table.ofFn x.rows factors.length
      fun i j => weighted ((diagonal factors).reads j) (x.value i) := by
  simp only [reads, weighted_single, ← hx]
  exact ok_iff_of_eq (bind_eq_ok.2 ⟨_, rfl, bind_eq_ok.2 ⟨(), require_eq_ok.2 hx.symm, rfl⟩⟩)

theorem dense_eq_ok_iff {weights : Table α} (hx : x.columns = weights.columns) :
    (dense weights).apply x = .ok y ↔ (dense weights).HasRoom x.rows weights.rows ∧
      y = Table.ofFn x.rows weights.rows
        fun i j => weighted ((dense weights).reads j) (x.value i) := by
  have hmul : x.mul weights.transpose = Table.ofFn x.rows weights.rows
      fun i j => weighted ((dense weights).reads j) (x.value i) := by
    refine Table.ofFn_congr fun i _ j hj => ?_
    rw [Table.dot, foldl_add_eq, zero_add, weighted, reads, List.map_map, hx]
    refine congrArg List.sum (List.map_congr_left fun k hk => ?_)
    exact congrArg (x.value i k * ·) (Table.value_ofFn _ (List.mem_range.1 hk) hj)
  rw [← hmul]
  exact apply_dense_eq_ok_iff hx

theorem sparse_eq_ok_iff {s : SparseTransform α} (hx : x.columns = s.columns)
    (hentries : (sparse s).checkEntries = .ok ()) : (sparse s).apply x = .ok y ↔
      (sparse s).HasRoom x.rows s.rows ∧
      y = Table.ofFn x.rows s.rows fun i j => weighted ((sparse s).reads j) (x.value i) := by
  have hvalues : (Table.ofFn x.rows s.rows fun i j => (s.indices.zip s.values).foldl
      (fun acc e => if e.1.1 = j then acc + e.2 * x.value i e.1.2 else acc) 0) =
      Table.ofFn x.rows s.rows fun i j => weighted ((sparse s).reads j) (x.value i) := by
    refine Table.ofFn_congr fun i _ j _ => ?_
    have hfilter := @List.foldl_filter _ _ (fun e : (Nat × Nat) × α => e.1.1 = j)
      (fun acc e => acc + e.2 * x.value i e.1.2) (s.indices.zip s.values) 0
    simp only [decide_eq_true_eq] at hfilter
    rw [← hfilter, foldl_add_eq, zero_add, weighted, reads, List.map_map]
    exact congrArg List.sum (List.map_congr_left fun e _ => mul_comm _ _)
  rw [← hvalues]
  exact apply_sparse_eq_ok_iff hx hentries

theorem convolution_eq_ok_iff {c : ConvolutionTransform α} (hw : c.WellFormed)
    (hin : c.sizeIn = .ok m) (hout : c.sizeOut = .ok n) (hx : x.columns = m) :
    (convolution c).apply x = .ok y ↔ (convolution c).LaidOut x.rows n ∧
      y = Table.ofFn x.rows n fun i j => weighted ((convolution c).reads j) (x.value i) := by
  have hm := product_eq_ok hin
  have hn := hw.sizeOut_eq_ok hout
  have hrow : ∀ i, (x.row i).length = volume c.inputShape := fun i => by simp [Table.row, hx, hm]
  have hresult := fun i z => hw.applyRow_eq_ok_iff (z := z) (hrow i)
  have hvalue : ∀ i, ∀ j < n, (c.convolved (x.row i)).cells.getD j 0 =
      weighted (c.reads j) (x.value i) := fun i j hj => by
    rw [ConvolutionTransform.getD_convolved (hn ▸ hj)]
    exact weighted_congr fun e he => Table.row_getD (hx ▸ hm ▸ hw.reads_lt e he)
  refine (apply_convolution_eq_ok_iff hin hout hx).trans ?_
  constructor
  · rintro ⟨hroom, results, hresults, rfl⟩
    refine ⟨⟨hroom, fun c' hc' hpos => ?_⟩, Table.ofFn_congr fun i hi j hj => ?_⟩
    · obtain rfl := convolution.inj hc'
      obtain ⟨z, -, hz⟩ := forall₂_getElem? hresults (List.getElem?_range hpos)
      exact ((hresult 0 z).1 hz).1
    · obtain ⟨z, hget, hz⟩ := forall₂_getElem? hresults (List.getElem?_range hi)
      obtain ⟨-, rfl⟩ := (hresult i z).1 hz
      rw [reads, ← hvalue i j hj]
      simp [hget]
  · rintro ⟨⟨hroom, hlaid⟩, rfl⟩
    refine ⟨hroom, (List.range x.rows).map fun i => c.convolved (x.row i), ?_, ?_⟩
    · refine List.forall₂_map_right_iff.2 (List.forall₂_same.2 fun i hi => ?_)
      exact (hresult i _).2 ⟨hlaid c rfl ((Nat.zero_le i).trans_lt (List.mem_range.1 hi)), rfl⟩
    · refine Table.ofFn_congr fun i hi j hj => ?_
      rw [reads, ← hvalue i j hj]
      simp [hi]

/-- A row of the result has all values of the convolved row, and no others. -/
theorem convolution_rows {c : ConvolutionTransform α} (hw : c.WellFormed) (hin : c.sizeIn = .ok m)
    (hout : c.sizeOut = .ok n) (hx : x.columns = m) (h : (convolution c).apply x = .ok y) {i : Nat}
    (hi : i < x.rows) : ∃ z, c.applyRow (x.row i) = .ok z ∧ z.size = n ∧ y.row i = z.toList := by
  obtain ⟨-, results, hresults, rfl⟩ := (apply_convolution_eq_ok_iff hin hout hx).1 h
  obtain ⟨z, hget, hz⟩ := forall₂_getElem? hresults (List.getElem?_range hi)
  have hrow : (x.row i).length = volume c.inputShape := by simp [Table.row, hx, product_eq_ok hin]
  have hsize : z.cells.size = n := by
    rw [((hw.applyRow_eq_ok_iff hrow).1 hz).2, hw.sizeOut_eq_ok hout]
    exact (c.convolved (x.row i)).size_cells
  refine ⟨z, hz, hsize, List.ext_getElem ?_ fun j hj hj' => ?_⟩
  · simpa [Table.row, Table.ofFn, Grid.toList] using hsize.symm
  · have hj : j < n := by simpa [Table.row, Table.ofFn] using hj
    have hlt : j < z.cells.size := hsize.symm ▸ hj
    simp [Table.row, Table.value_ofFn _ hi hj, Grid.toList, hget, hlt]

/-- Transforms apply if they can be laid out, and give sums of what they read. -/
theorem apply_eq_ok_iff (hw : t.WellFormed) (hc : t.check m n = .ok ()) (hx : x.columns = m) :
    t.apply x = .ok y ↔ t.LaidOut x.rows n ∧
      y = Table.ofFn x.rows n fun i j => weighted (t.reads j) (x.value i) := by
  obtain ⟨i, o, hi, ho, hin, hout, hentries⟩ := check_eq_ok.1 hc
  have hroom : (∀ c, t ≠ convolution c) → (t.LaidOut x.rows n ↔ t.HasRoom x.rows n) := fun h =>
    and_iff_left fun c ht => absurd ht (h c)
  cases t with
  | identity =>
    obtain rfl := Except.ok.inj ho
    obtain rfl : m = n := hout
    rw [hroom (by simp), ← hx]
    exact identity_eq_ok_iff
  | scalar factor =>
    obtain rfl := Except.ok.inj ho
    obtain rfl : m = n := hout
    rw [hroom (by simp), ← hx]
    exact scalar_eq_ok_iff
  | diagonal factors =>
    obtain rfl := Except.ok.inj hi
    obtain rfl := Except.ok.inj ho
    obtain rfl : factors.length = m := hin
    obtain rfl : factors.length = n := hout
    rw [hroom (by simp)]
    exact diagonal_eq_ok_iff hx
  | dense weights =>
    obtain rfl := Except.ok.inj hi
    obtain rfl := Except.ok.inj ho
    obtain rfl : weights.columns = m := hin
    obtain rfl : weights.rows = n := hout
    rw [hroom (by simp)]
    exact dense_eq_ok_iff hx
  | sparse s =>
    obtain rfl := Except.ok.inj hi
    obtain rfl := Except.ok.inj ho
    obtain rfl : s.columns = m := hin
    obtain rfl : s.rows = n := hout
    rw [hroom (by simp)]
    exact sparse_eq_ok_iff hx hentries
  | convolution c =>
    obtain ⟨m', hsize, rfl⟩ := map_eq_ok.1 hi
    obtain ⟨n', hsize', rfl⟩ := map_eq_ok.1 ho
    obtain rfl : m' = m := hin
    obtain rfl : n' = n := hout
    exact convolution_eq_ok_iff hw hsize hsize' hx

/-- **Transforms are matrices.**  A transform that is checked for its sizes applies
    to rows of the right size if and only if what it makes can be laid out, and
    gives as many rows of the other size.  There is one matrix that maps every row
    of any such table to its result.  A convolution gives exactly as many values
    as the result has, and all of them are in it. -/
theorem apply_eq_matrix (hw : t.WellFormed) (hc : t.check m n = .ok ()) :
    ∃ M : Matrix (Fin n) (Fin m) α, ∀ x : Table α, x.columns = m →
      ((∃ y, t.apply x = .ok y) ↔ t.LaidOut x.rows n) ∧
      ∀ y, t.apply x = .ok y → y.rows = x.rows ∧ y.columns = n ∧
        (∀ i < x.rows, (fun j : Fin n => y.value i j) = M.mulVec fun k : Fin m => x.value i k) ∧
        ∀ c, t = convolution c → ∀ i < x.rows, ∃ z, c.applyRow (x.row i) = .ok z ∧
          z.size = n ∧ y.row i = z.toList := by
  refine ⟨fun j k => weightAt (t.reads j) k, fun x hx => ?_⟩
  have happly := fun y => apply_eq_ok_iff (y := y) hw hc hx
  refine ⟨⟨fun ⟨y, hy⟩ => ((happly y).1 hy).1, fun hlaid => ⟨_, (happly _).2 ⟨hlaid, rfl⟩⟩⟩,
    fun y hy => ?_⟩
  have hvalues := ((happly y).1 hy).2
  have hsized : y.Sized x.rows n := hvalues ▸ ⟨rfl, rfl⟩
  refine ⟨hsized.rows, hsized.columns, fun i hi => funext fun j => ?_, fun c ht i hi => ?_⟩
  · rw [hvalues, Table.value_ofFn _ hi j.2, weighted_eq_sum _ (reads_lt hw hc j.2)]
    rfl
  · subst ht
    obtain ⟨_, _, hi', ho, hin, hout, -⟩ := check_eq_ok.1 hc
    obtain ⟨m', hsize, rfl⟩ := map_eq_ok.1 hi'
    obtain ⟨n', hsize', rfl⟩ := map_eq_ok.1 ho
    obtain rfl : m' = m := hin
    obtain rfl : n' = n := hout
    exact convolution_rows hw hsize hsize' hx hy hi

end

/-- The differences of neighbours on three cells. -/
def differences : ConvolutionTransform ℚ :=
  ⟨1, [3, 1], [2], [1], .valid, .channelsLast, ⟨[2, 1, 1], #[1, -1], rfl⟩⟩

/-- The differences in one row. -/
theorem apply_eq_matrix_differences : (convolution differences).WellFormed ∧
    (convolution differences).check 3 2 = .ok () ∧ (convolution differences).LaidOut 1 2 ∧
    ∃ (M : Matrix (Fin 2) (Fin 3) ℚ) (y : Table ℚ),
      (convolution differences).apply ⟨1, 3, #[1, 2, 4], rfl⟩ = .ok y ∧ y.row 0 = [-1, -2] ∧
      (fun j : Fin 2 => y.value 0 j) = M.mulVec ![1, 2, 4] := by
  have hw : (convolution differences).WellFormed := ⟨rfl, by decide, by decide⟩
  have hc : (convolution differences).check 3 2 = .ok () := rfl
  obtain ⟨M, hM⟩ := apply_eq_matrix hw hc
  obtain ⟨hlaid, hvalues⟩ := hM ⟨1, 3, #[1, 2, 4], rfl⟩ rfl
  have hrun : ((convolution differences).apply ⟨1, 3, #[1, 2, 4], rfl⟩).toOption.map
      (fun y => y.row 0) = some [-1, -2] := by decide +kernel
  obtain ⟨y, hy, hrow⟩ := Option.map_eq_some_iff.1 hrun
  have hy := toOption_eq_some.1 hy
  refine ⟨hw, hc, hlaid.1 ⟨y, hy⟩, M, y, hy, hrow, ((hvalues y hy).2.2.1 0 Nat.one_pos).trans ?_⟩
  refine congrArg M.mulVec (funext fun k => ?_)
  fin_cases k <;> rfl

/-- Many cells without channels, and no filters. -/
def emptyCells : ConvolutionTransform ℚ :=
  ⟨0, [0, 1099511627776, 1099511627776], [1, 1], [1, 1], .valid, .channelsFirst,
    .fill [1, 1, 0, 0] 0⟩

/-- A transform that is checked for rows without values, but refuses one: no array
    has the shape of its samples. -/
theorem checked_transform_refuses : (convolution emptyCells).WellFormed ∧
    (convolution emptyCells).check 0 0 = .ok () ∧
    ¬ ∃ y, (convolution emptyCells).apply ⟨1, 0, #[], rfl⟩ = .ok y := by
  refine ⟨⟨rfl, by decide, by decide⟩, toOption_eq_some.1 (by decide +kernel), fun ⟨y, hy⟩ => ?_⟩
  have hrefused : ((convolution emptyCells).apply ⟨1, 0, #[], rfl⟩).toOption.isNone := by
    decide +kernel
  simp [hy, Except.toOption] at hrefused

end Transform
end Neuroform

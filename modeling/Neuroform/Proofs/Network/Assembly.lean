/-
  Neuroform — inputs that are put together from parts.

  Wires that hand values on as they are, each to columns of its own
  (`Wire.Delivers`), put the input of an object together from what they show
  (`Table.Assembled`).  An input starts from zeros, so what arrives of a value is
  the sum of zero and that value (`Grid.arrived`).
-/
import Neuroform.Proofs.Network.Carry

namespace Neuroform

/-- The columns, of `size` ones, that a view shows. -/
def View.columns (v : View) (size : Nat) : List Nat := v.indices.getD (List.range size)

variable {α : Type}

/-! ## Arriving values -/

/-- What arrives at an input: every value is added to zero. -/
def Grid.arrived [Zero α] [Add α] (x : Grid α) : Grid α := x.map (0 + ·)

namespace Grid
variable [Zero α] [Add α] {x : Grid α}

theorem getD_arrived {k : Nat} (hk : k < x.size) :
    x.arrived.cells.getD k 0 = 0 + x.cells.getD k 0 := by
  rw [size] at hk
  simp [arrived, map, hk]

/-- Values that zero adds nothing to arrive as they are.  Of the machine numbers,
    negative zero alone does not. -/
theorem arrived_eq (h : ∀ v ∈ x.toList, 0 + v = v) : x.arrived = x := by
  have hcells : x.cells.map (0 + ·) = x.cells := by
    refine Array.ext (by simp) fun k hk hk' => ?_
    rw [Array.getElem_map]
    exact h _ (Array.getElem_mem_toList hk')
  obtain ⟨shape, cells, hsize⟩ := x
  simp only [arrived, map, hcells]

theorem map_arrived {xs : List (Grid α)} (h : ∀ x ∈ xs, ∀ v ∈ x.toList, 0 + v = v) :
    xs.map arrived = xs :=
  (List.map_congr_left fun x hx => arrived_eq (h x hx)).trans (List.map_id' xs)

end Grid

/-! ## Parts -/

/-- A table has the values of batches in the columns of parts of an object, those
    of each sample in their order. -/
structure Table.Assembled [Zero α] (t : Table α) (b size : Nat) (parts : List View)
    (ins : List (List Nat)) (xs : List (Grid α)) : Prop where
  rows : t.rows = b
  columns : t.columns = size
  value : ∀ (k : Nat) part dims x, parts[k]? = some part → ins[k]? = some dims →
    xs[k]? = some x → ∀ i < b, ∀ m < volume dims,
      t.value i ((part.columns size).getD m 0) = x.cells.getD (i * volume dims + m) 0

/-- Values can be given to parts that share no columns. -/
theorem exists_placed [Zero α] {size : Nat} : ∀ {parts : List View} (fs : List (Nat → Nat → α)),
    (parts.flatMap (·.columns size)).Nodup → ∃ g : Nat → Nat → α, ∀ (k : Nat) part f,
      parts[k]? = some part → fs[k]? = some f →
      ∀ i m, m < (part.columns size).length → g i ((part.columns size).getD m 0) = f i m
  | [], _, _ => ⟨fun _ _ => 0, nofun⟩
  | _ :: _, [], _ => ⟨fun _ _ => 0, nofun⟩
  | part :: parts, f :: fs, hd => by
    rw [List.flatMap_cons, List.nodup_append] at hd
    obtain ⟨hpart, hparts, hother⟩ := hd
    obtain ⟨g, hg⟩ := exists_placed fs hparts
    refine ⟨fun i j => if j ∈ part.columns size then f i ((part.columns size).idxOf j) else g i j,
      fun k part' f' hk hf i m hm => ?_⟩
    rw [List.getD_eq_getElem _ _ hm]
    have hmem := List.getElem_mem hm
    cases k with
    | zero =>
      obtain rfl := Option.some.inj hk
      obtain rfl := Option.some.inj hf
      exact (if_pos hmem).trans (congrArg (f i) (hpart.idxOf_getElem m hm))
    | succ k =>
      have hmiss : (part'.columns size)[m] ∉ part.columns size := fun h =>
        hother _ h _ (List.mem_flatMap.2 ⟨part', List.mem_of_getElem? hk, hmem⟩) rfl
      refine (if_neg hmiss).trans ?_
      rw [← hg k part' f' hk hf i m hm, List.getD_eq_getElem _ _ hm]

/-! ## Wires -/

/-- A wire hands on, as they are, the values that `g` has in the columns which it
    leads to. -/
structure Wire.Delivers [Zero α] (e : Wire α) (value : ObjectId → Option (Table α))
    (b size : Nat) (g : Nat → Nat → α) : Prop where
  plain : e.transform = .identity
  shown : ∃ x u, value e.pre.object = some x ∧ e.pre.select x = .ok u ∧
    u.Reads b (e.post.columns size).length fun i k => g i ((e.post.columns size).getD k 0)

variable [Scalar α] {value : ObjectId → Option (Table α)} {b size : Nat} {f g : Nat → Nat → α}
  {input : Table α}

/-- A wire adds to the columns which it leads to. -/
theorem Wire.Delivers.carry {e : Wire α} (h : e.Delivers value b size g)
    (hd : (e.post.columns size).Nodup) (hin : input.Reads b size f) :
    ∃ t, e.carry value input = .ok t ∧
      t.Reads b size fun i j => if j ∈ e.post.columns size then f i j + g i j else f i j := by
  obtain ⟨pre, ⟨o, indices⟩, transform⟩ := e
  obtain ⟨rfl, x, u, hx, hu, hread⟩ := h
  cases indices with
  | none =>
    have hcolumns : View.columns ⟨o, none⟩ size = List.range size := rfl
    rw [hcolumns, List.length_range] at hread
    obtain ⟨t, ht, hr⟩ := accumulate_full (o := o) hread hin
    refine ⟨t, carry_eq_ok hx hu rfl ht, hr.congr fun i _ j hj => ?_⟩
    rw [hcolumns, if_pos (List.mem_range.2 hj), List.getD_eq_getElem _ _ (by simpa using hj),
      List.getElem_range]
  | some indices =>
    obtain ⟨t, ht, hrows, hcols, hv⟩ := accumulate_at (o := o) hd hread hin
    refine ⟨t, carry_eq_ok hx hu rfl ht, hrows, hcols, fun i hi j hj => ?_⟩
    obtain ⟨hhit, hmiss⟩ := hv i hi j hj
    change t.value i j = if j ∈ indices then f i j + g i j else f i j
    by_cases hmem : j ∈ indices
    · obtain ⟨k, hk⟩ := List.mem_iff_getElem?.1 hmem
      rw [hhit k hk, if_pos hmem]
      simp [View.columns, List.getD_eq_getElem?_getD, hk]
    · rw [hmiss hmem, if_neg hmem]

/-- Wires that lead to different columns do not disturb each other. -/
theorem foldlM_delivered : ∀ {ws : List (Wire α)} {f : Nat → Nat → α} {input : Table α},
    (∀ e ∈ ws, e.Delivers value b size g) → (ws.flatMap (·.post.columns size)).Nodup →
    input.Reads b size f → ∃ t, ws.foldlM (Wire.carry value) input = .ok t ∧
      t.Reads b size fun i j =>
        if j ∈ ws.flatMap (·.post.columns size) then f i j + g i j else f i j
  | [], _, input, _, _, hin => ⟨input, rfl, hin⟩
  | e :: ws, f, input, h, hd, hin => by
    rw [List.flatMap_cons, List.nodup_append] at hd
    obtain ⟨hde, hdws, hother⟩ := hd
    obtain ⟨t, ht, hr⟩ := (h e (by simp)).carry hde hin
    obtain ⟨t', ht', hr'⟩ := foldlM_delivered (fun e' he' => h e' (by simp [he'])) hdws hr
    refine ⟨t', foldlM_cons_eq_ok.2 ⟨t, ht, ht'⟩, hr'.congr fun i _ j _ => ?_⟩
    rw [List.flatMap_cons]
    by_cases hj : j ∈ e.post.columns size
    · have hj' : j ∉ ws.flatMap (·.post.columns size) := fun hj' => hother j hj j hj' rfl
      rw [if_neg hj', if_pos hj, if_pos (List.mem_append_left _ hj)]
    · simp only [List.mem_append, hj, if_false, false_or]

/-- Wires that lead to all columns of an object, to each one once, put its input
    together. -/
theorem Network.inputOf_delivered {n : Network α} {states : States α} {o : ObjectId}
    (h : ∀ e ∈ n.sketch.into o, e.Delivers (states.lookup ·) b size g)
    (hd : ((n.sketch.into o).flatMap (·.post.columns size)).Perm (List.range size)) :
    ∃ t, n.inputOf states b o size = .ok t ∧ t.Reads b size fun i j => 0 + g i j := by
  obtain ⟨t, ht, hr⟩ := foldlM_delivered h (hd.nodup_iff.2 List.nodup_range) Table.reads_zeros
  refine ⟨t, inputOf_eq_ok.2 ht, hr.congr fun i _ j hj => if_pos ?_⟩
  exact hd.mem_iff.2 (List.mem_range.2 hj)

end Neuroform

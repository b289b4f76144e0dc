/-
  Neuroform — the slabs of a concatenation.

  A native concatenation wires each of its inputs to a slab of its output, the
  slabs standing one behind the other along the axis (`Slabs`).  Places are
  row-major, so slabs interleave; they leave no place out and share none
  (`Slabs.perm`), because every place has one coordinate on the axis.  Samples
  that are written to them are those of the joined arrays
  (`Joined.assembled_iff`).
-/
import Neuroform.Proofs.Conversion.Entries
import Neuroform.Proofs.Conversion.Relaying
import Neuroform.Proofs.Conversion.Simulated
import Neuroform.Proofs.Conversion.Wiring
import Neuroform.Proofs.Layer.Joining

namespace Neuroform

open Rule

/-! ## Slabs -/

namespace Workspace

/-- Lists of places that fill a box along an axis from `start` on, one list for
    each of the lengths. -/
inductive Slabs (out : List Nat) (a : Nat) : Nat → List Nat → List (List Nat) → Prop where
  | nil {start : Nat} : Slabs out a start [] []
  | cons {start length : Nat} {lengths places : List Nat} {slabs : List (List Nat)}
    (select : selectBox out (slab out a start length) = .ok places)
    (rest : Slabs out a (start + length) lengths slabs) :
    Slabs out a start (length :: lengths) (places :: slabs)

section
variable {out lengths places : List Nat} {slabs : List (List Nat)} {a start length : Nat}

/-- The places of a slab are those of its positions, moved along the axis. -/
theorem getElem?_slab (h : selectBox out (slab out a start length) = .ok places) {m : Nat}
    {q : List Nat} (hq : (positions (out.set a length))[m]? = some q) :
    q.set a (start + q.getD a 0) ∈ positions out ∧
      places[m]? = some (offset out (q.set a (start + q.getD a 0))) := by
  obtain ⟨hranges, rfl⟩ := selectBox_eq_ok h
  rw [length_slab, List.getElem?_map, hq, Option.map_some]
  have hmem := List.mem_of_getElem? hq
  have hlength : q.length = out.length := by simpa using length_of_mem_positions hmem
  have hmoved : List.zipWith (· + ·) ((slab out a start length).map Interval.start) q =
      q.set a (start + q.getD a 0) := moved_slab hlength
  rw [← hmoved]
  exact ⟨moved_mem_positions hranges (length_slab out a start length ▸ hmem), rfl⟩

theorem length_places (h : selectBox out (slab out a start length) = .ok places) :
    places.length = volume (out.set a length) := by
  obtain ⟨-, rfl⟩ := selectBox_eq_ok h
  rw [List.length_map, length_slab, length_positions]

/-- A slab has the places between its start and its end on the axis. -/
theorem mem_slab (ha : a < out.length) (h : selectBox out (slab out a start length) = .ok places)
    {j : Nat} : j ∈ places ↔
      j < volume out ∧ start ≤ coordinate out a j ∧ coordinate out a j < start + length := by
  constructor
  · intro hj
    obtain ⟨m, hm⟩ := List.mem_iff_getElem?.1 hj
    obtain ⟨hlt, -⟩ := List.getElem?_eq_some_iff.1 hm
    obtain ⟨q, hq⟩ : ∃ q, (positions (out.set a length))[m]? = some q :=
      ⟨_, List.getElem?_eq_getElem (by rwa [length_positions, ← length_places h])⟩
    obtain ⟨hp, hplace⟩ := getElem?_slab h hq
    obtain rfl := Option.some.inj (hm.symm.trans hplace)
    have hmem := List.mem_of_getElem? hq
    have hqa : a < q.length := by
      rw [length_of_mem_positions hmem, List.length_set]
      exact ha
    have hlength : q.getD a 0 < length := by
      have hlt := getD_lt_of_mem_positions hmem (by simpa using ha)
      rwa [List.getD_eq_getElem (out.set a length) _ (by simpa using ha), List.getElem_set_self]
        at hlt
    have hcoord : (q.set a (start + q.getD a 0)).getD a 0 = start + q.getD a 0 := by
      simp [List.getD_eq_getElem?_getD, hqa]
    rw [coordinate_offset hp, hcoord]
    exact ⟨offset_lt hp, by omega, by omega⟩
  · rintro ⟨hj, hle, hlt⟩
    obtain ⟨p, hp, rfl⟩ := exists_position hj
    rw [coordinate_offset hp] at hle hlt
    have hpa : a < p.length := by rwa [length_of_mem_positions hp]
    -- the position of the slab that is moved here
    have hq : p.set a (p.getD a 0 - start) ∈ positions (out.set a length) := by
      rw [mem_positions, List.forall₂_iff_get]
      refine ⟨by simp [length_of_mem_positions hp], fun n hn hn' => ?_⟩
      simp only [List.get_eq_getElem, List.getElem_set]
      split
      · omega
      · exact (List.forall₂_iff_get.1 (mem_positions.1 hp)).2 n (by simpa using hn)
          (by simpa using hn')
    obtain ⟨-, hplace⟩ := getElem?_slab h (getElem?_positions hq)
    have hcoord : (p.set a (p.getD a 0 - start)).getD a 0 = p.getD a 0 - start := by
      simp [List.getD_eq_getElem?_getD, hpa]
    rw [hcoord, List.set_set, Nat.add_sub_cancel' hle, List.getD_eq_getElem _ _ hpa,
      List.set_getElem_self] at hplace
    exact List.mem_of_getElem? hplace

namespace Slabs

theorem snoc (h : Slabs out a start lengths slabs)
    (hs : selectBox out (slab out a (start + totalSize lengths) length) = .ok places) :
    Slabs out a start (lengths ++ [length]) (slabs ++ [places]) := by
  induction h with
  | nil => exact .cons (by simpa using hs) .nil
  | cons select _ ih => exact .cons select (ih (by simpa [Nat.add_assoc] using hs))

theorem length_eq (h : Slabs out a start lengths slabs) : slabs.length = lengths.length := by
  induction h with
  | nil => rfl
  | cons _ _ ih => exact congrArg (· + 1) ih

/-- A slab starts where those before it end. -/
theorem getElem? (h : Slabs out a start lengths slabs) {k : Nat} (hk : slabs[k]? = some places) :
    ∃ length, lengths[k]? = some length ∧
      selectBox out (slab out a (start + totalSize (lengths.take k)) length) = .ok places := by
  induction h generalizing k with
  | nil => simp at hk
  | @cons start length lengths places' slabs select _ ih =>
    cases k with
    | zero =>
      obtain rfl := Option.some.inj hk
      exact ⟨length, rfl, select⟩
    | succ k =>
      obtain ⟨length', hlength, hs⟩ := ih hk
      exact ⟨length', hlength, by simpa [Nat.add_assoc] using hs⟩

/-- **Slabs share no place**, and have all places between the start of the first
    and the end of the last one. -/
theorem perm_filter (h : Slabs out a start lengths slabs) (ha : a < out.length) :
    slabs.flatten.Perm ((List.range (volume out)).filter fun j =>
      start ≤ coordinate out a j ∧ coordinate out a j < start + totalSize lengths) := by
  induction h with
  | nil => simp
  | @cons start length lengths places slabs select _ ih =>
    have hnodup : places.Nodup := (sorted_selectBox select).imp fun h => Nat.ne_of_lt h
    have hfirst : places.Perm ((List.range (volume out)).filter fun j =>
        start ≤ coordinate out a j ∧ coordinate out a j < start + length) :=
      (List.perm_ext_iff_of_nodup hnodup (List.nodup_range.filter _)).2 fun j => by
        simp [mem_slab ha select]
    -- the places up to the end of the last slab are cut where the first one ends
    have hcut := List.filter_append_perm (coordinate out a · < start + length)
      ((List.range (volume out)).filter fun j => start ≤ coordinate out a j ∧
        coordinate out a j < start + totalSize (length :: lengths))
    rw [List.filter_filter, List.filter_filter] at hcut
    refine (hfirst.append ih).trans (.trans (.of_eq (congrArg₂ (· ++ ·) ?_ ?_)) hcut)
    · refine List.filter_congr fun j _ => ?_
      rw [totalSize_cons, ← Bool.decide_and, decide_eq_decide]
      omega
    · refine List.filter_congr fun j _ => ?_
      rw [totalSize_cons, ← decide_not, ← Bool.decide_and, decide_eq_decide]
      omega

/-- Slabs of all of an axis partition the box. -/
theorem perm (h : Slabs out a 0 lengths slabs) (ha : a < out.length)
    (htotal : totalSize lengths = out.getD a 0) :
    slabs.flatten.Perm (List.range (volume out)) := by
  have hall : (List.range (volume out)).filter (fun j =>
      0 ≤ coordinate out a j ∧ coordinate out a j < 0 + totalSize lengths) =
      List.range (volume out) := by
    refine List.filter_eq_self.2 fun j hj => decide_eq_true ⟨Nat.zero_le _, ?_⟩
    obtain ⟨p, hp, rfl⟩ := exists_position (List.mem_range.1 hj)
    rw [coordinate_offset hp, Nat.zero_add, htotal]
    exact getD_lt_of_mem_positions hp ha
  exact hall ▸ h.perm_filter ha

end Slabs
end

/-! ## Samples in slabs -/

section
variable {a : Nat} {ins slabs : List (List Nat)} {out : List Nat}

/-- The parts of an object that slabs are. -/
def slabParts (o : ObjectId) (slabs : List (List Nat)) : List View := slabs.map (⟨o, some ·⟩)

theorem getElem?_slabParts {o : ObjectId} {k : Nat} {part : View}
    (h : (slabParts o slabs)[k]? = some part) :
    ∃ places, slabs[k]? = some places ∧ part = ⟨o, some places⟩ := by
  rw [slabParts, List.getElem?_map] at h
  obtain ⟨places, hplaces, rfl⟩ := Option.map_eq_some_iff.1 h
  exact ⟨places, hplaces, rfl⟩

/-- Inputs that agree off the axis fit their slabs. -/
theorem Slabs.fit (h : Slabs out a 0 (ins.map (·.getD a 0)) slabs)
    (hfit : ∀ dims ∈ ins, out.set a (dims.getD a 0) = dims) (o : ObjectId) (size : Nat) :
    List.Forall₂ (fun dims part => (View.columns part size).length = volume dims) ins
      (slabParts o slabs) := by
  refine forall₂_of_getElem? ?_ fun k dims part hdims hpart => ?_
  · rw [slabParts, List.length_map, h.length_eq, List.length_map]
  · obtain ⟨places, hplaces, rfl⟩ := getElem?_slabParts hpart
    obtain ⟨length, hlength, hselect⟩ := h.getElem? hplaces
    obtain rfl : dims.getD a 0 = length := by simpa [hdims] using hlength
    have hcount := length_places hselect
    rwa [hfit dims (List.mem_of_getElem? hdims)] at hcount

theorem flatMap_slabParts (o : ObjectId) (size : Nat) (slabs : List (List Nat)) :
    (slabParts o slabs).flatMap (·.columns size) = slabs.flatten := by
  rw [slabParts, List.flatMap_map]
  exact List.flatMap_id'

end
end Workspace

namespace Joined

open Workspace

variable {α : Type} [Zero α] {b a : Nat} {ins slabs : List (List Nat)} {xs : List (Grid α)}
  {out : List Nat} {y : Grid α} {t : Table α}

theorem fits (hj : Joined b a ins xs out y) (hin : ∀ dims ∈ ins, a < dims.length) :
    ∀ dims ∈ ins, out.set a (dims.getD a 0) = dims := by
  intro dims hmem
  obtain ⟨k, hk⟩ := List.mem_iff_getElem?.1 hmem
  exact hj.others k dims _ hk (by simp [hin dims hmem])

/-- The places of a slab have the values of its input, in their order. -/
theorem value_slab (hj : Joined b a ins xs out y) (hin : ∀ dims ∈ ins, a < dims.length)
    (hs : Slabs out a 0 (ins.map (·.getD a 0)) slabs) {k : Nat} {places dims : List Nat}
    {x : Grid α} (hk : slabs[k]? = some places) (hd : ins[k]? = some dims) (hx : xs[k]? = some x)
    {i m : Nat} (hi : i < b) (hm : m < volume dims) :
    y.cells.getD (i * volume out + places.getD m 0) 0 =
      x.cells.getD (i * volume dims + m) 0 := by
  obtain ⟨length, hlength, hselect⟩ := hs.getElem? hk
  have hdims := hj.fits hin dims (List.mem_of_getElem? hd)
  have hda : dims[a]? = some (dims.getD a 0) := by simp [hin dims (List.mem_of_getElem? hd)]
  obtain rfl : dims.getD a 0 = length := by simpa [hd] using hlength
  rw [Nat.zero_add, ← List.map_take] at hselect
  change selectBox out (slab out a (partStart a ins k) _) = _ at hselect
  obtain ⟨q, hq⟩ : ∃ q, (positions dims)[m]? = some q :=
    ⟨_, List.getElem?_eq_getElem (by rwa [length_positions])⟩
  obtain ⟨hp, hplace⟩ := getElem?_slab hselect (hdims.symm ▸ hq)
  have hmem := List.mem_of_getElem? hq
  have hqa : a < q.length := length_of_mem_positions hmem ▸ hin dims (List.mem_of_getElem? hd)
  have hcoord : (q.set a (partStart a ins k + q.getD a 0)).getD a 0 =
      partStart a ins k + q.getD a 0 := by
    simp [List.getD_eq_getElem?_getD, hqa]
  have hlt := getD_lt_of_mem_positions hmem (hin dims (List.mem_of_getElem? hd))
  have hread := hj.value_part hd hx hda hi hp (by omega) (by omega)
  rw [hcoord, List.set_set, Nat.add_sub_cancel_left, List.getD_eq_getElem _ _ hqa,
    List.set_getElem_self, hj.output.value_cells] at hread
  obtain ⟨x', hx', hxb⟩ := forall₂_getElem? hj.inputs hd
  obtain rfl := Option.some.inj (hx.symm.trans hx')
  rw [hxb.value_cells, offset_of_getElem? hq] at hread
  rw [List.getD_eq_getElem?_getD, hplace, Option.getD_some, ← hread,
    List.getD_eq_getElem _ _ hqa]

/-- **Samples in their slabs are the joined samples.** -/
theorem assembled_iff (hj : Joined b a ins xs out y) (hin : ∀ dims ∈ ins, a < dims.length)
    (hs : Slabs out a 0 (ins.map (·.getD a 0)) slabs) (o : ObjectId) :
    t.Assembled b (volume out) (slabParts o slabs) ins xs ↔ t.Holds b out y := by
  constructor
  · intro ht
    have htotal : totalSize (ins.map (·.getD a 0)) = out.getD a 0 := by
      rw [hj.length, partStart, List.take_length]
    refine Table.holds_of_values hj.output.shape ht.rows ht.columns fun i hi p hp => ?_
    -- every place is in one of the slabs
    obtain ⟨places, hplaces, hmem⟩ := List.mem_flatten.1
      ((hs.perm hj.axis htotal).mem_iff.2 (List.mem_range.2 (offset_lt hp)))
    obtain ⟨k, hk⟩ := List.mem_iff_getElem?.1 hplaces
    obtain ⟨m, hm⟩ := List.mem_iff_getElem?.1 hmem
    obtain ⟨length, hlength, -⟩ := hs.getElem? hk
    rw [List.getElem?_map] at hlength
    obtain ⟨dims, hd, -⟩ := Option.map_eq_some_iff.1 hlength
    obtain ⟨x, hx, -⟩ := forall₂_getElem? hj.inputs hd
    have hpart : (slabParts o slabs)[k]? = some ⟨o, some places⟩ := by simp [slabParts, hk]
    obtain ⟨part, hpart', hcount⟩ := forall₂_getElem? (hs.fit (hj.fits hin) o (volume out)) hd
    obtain rfl := Option.some.inj (hpart.symm.trans hpart')
    have hlt : m < volume dims := hcount ▸ (List.getElem?_eq_some_iff.1 hm).1
    have hread := ht.value k _ dims x hpart hd hx i hi m hlt
    have hplace : places.getD m 0 = offset out p := by simp [hm]
    rw [← hj.value_slab hin hs hk hd hx hi hlt, hplace] at hread
    rw [hj.output.value_cells, ← hread]
    exact congrArg (t.value i) hplace.symm
  · intro ht
    refine ⟨ht.rows, ht.columns, fun k part dims x hk hd hx i hi m hm => ?_⟩
    obtain ⟨places, hplaces, rfl⟩ := getElem?_slabParts hk
    exact (ht.value_cells _ _).trans (hj.value_slab hin hs hplaces hd hx hi hm)

end Joined

/-! ## The rule -/

namespace Rule

open Workspace

section
variable {α : Type} [Scalar α] {w w' : Workspace α} {c : Concatenate} {i : InvocationId} {v : View}

/-- The inputs of a concatenation are wired to the slabs of its target. -/
theorem draws_convertConcatenate (hc : w.network.sketch.Checked)
    (h : (convertConcatenate c i).exec w = (.ok v, w')) :
    ∃ inv ins out a slabs, w.graph.record? i = some inv ∧
      List.Forall₂ w.graph.Dims inv.inputs ins ∧ w.graph.OutputDims i out ∧
      axisIndex c.axis (out.length + 1) = .ok (a + 1) ∧ (∀ dims ∈ ins, a < dims.length) ∧
      Slabs out a 0 (ins.map (·.getD a 0)) slabs ∧ v = .full w.next ∧ w.Framed w' ∧
      (∃ kind, w'.network.sketch.kind? w.next = some kind ∧ kind.sizeIn = .ok (volume out)) ∧
      w'.Wired inv.inputs (slabParts w.next slabs) (w'.network.sketch.into w.next) := by
  rw [convertConcatenate, Step.exec_get_bind] at h
  obtain ⟨out, hout, h⟩ := Step.exec_lift_bind_eq_ok.1 h
  obtain ⟨a, haxis, h⟩ := Step.exec_lift_bind_eq_ok.1 h
  obtain ⟨output, w₁, ht, h⟩ := Step.exec_bind_eq_ok.1 h
  obtain ⟨out', hout', hproduct, rfl, hd⟩ := draws_bareTarget ht
  obtain rfl := Except.ok.inj (hout.symm.trans hout')
  rw [Step.exec_get_bind] at h
  obtain ⟨ins, hins, h⟩ := Step.exec_lift_bind_eq_ok.1 h
  rw [hd.framed.allInputDims] at hins
  obtain ⟨inv, hr, hdims⟩ := allInputDims_eq_ok hins
  obtain ⟨total, w₂, hloop, h⟩ := Step.exec_bind_eq_ok.1 h
  obtain ⟨rfl, rfl⟩ := Step.exec_pure_eq_ok.1 h
  -- the inputs so far are wired to the slabs so far
  obtain ⟨wires, hd, hin, -, slabs, hslabs, hwired⟩ := draws_forIn hd
    (I := fun done start wires => (∀ dims ∈ ins.take done.length, a < dims.length) ∧
      start = partStart a ins done.length ∧
      ∃ slabs, Slabs out a 0 ((ins.take done.length).map (·.getD a 0)) slabs ∧
        w.Wired (inv.inputs.take done.length) (slabParts w.next slabs) wires)
    ⟨by simp, by simp [partStart], [], .nil, .nil⟩
    (fun done d rest start wires w₂ r w₃ hx hI hd hround => by
      obtain ⟨dims, k⟩ := d
      obtain ⟨hk, rfl⟩ := getElem?_of_zipIdx_eq hx
      obtain ⟨hin, rfl, slabs, hslabs, hwired⟩ := hI
      obtain ⟨length, hlength, hround⟩ := Step.exec_lift_bind_eq_ok.1 hround
      rw [orFault_eq_ok] at hlength
      obtain ⟨places, hselect, hround⟩ := Step.exec_lift_bind_eq_ok.1 hround
      obtain ⟨part, hpart, hround⟩ := Step.exec_lift_bind_eq_ok.1 hround
      obtain rfl := Except.ok.inj hpart
      obtain ⟨_, w₄, hw, hround⟩ := Step.exec_bind_eq_ok.1 hround
      obtain ⟨rfl, rfl⟩ := Step.exec_pure_eq_ok.1 hround
      obtain ⟨pre, hpre, hd', -⟩ := draws_wireInput hw
      rw [hd.framed.inputView] at hpre
      obtain ⟨inv', t, hr', ht, hview⟩ := inputView_eq_ok.1 hpre
      obtain rfl := Option.some.inj (hr.symm.trans hr')
      have hsofar : (ins.take (done.length + 1)).map (·.getD a 0) =
          (ins.take done.length).map (·.getD a 0) ++ [length] := by
        rw [List.take_add_one, hk]
        simp [hlength]
      rw [List.length_append, List.length_singleton]
      refine ⟨_, _, rfl, hd.trans hd', fun dims' hmem => ?_, ?_, slabs ++ [places], ?_, ?_⟩
      · rw [List.take_add_one, hk] at hmem
        rcases List.mem_append.1 hmem with hmem | hmem
        · exact hin dims' hmem
        · obtain rfl := List.mem_singleton.1 hmem
          exact (List.getElem?_eq_some_iff.1 hlength).1
      · exact (partStart_succ hk hlength).symm
      · rw [hsofar]
        exact hslabs.snoc ((Nat.zero_add _).symm ▸ hselect)
      · rw [List.take_add_one, ht, slabParts, List.map_append]
        exact hwired.snoc hview _) hloop
  rw [List.length_zipIdx, List.take_length] at hin hslabs
  rw [List.length_zipIdx, ← hdims.length_eq, List.take_length] at hwired
  have hpost : ∀ e ∈ wires, e.post.object = w.next := by
    intro e he
    have hmem : e.post ∈ slabParts w.next slabs :=
      hwired.map_post ▸ List.mem_map_of_mem he
    obtain ⟨places, -, hpart⟩ := List.mem_map.1 hmem
    rw [← hpart]
  refine ⟨inv, ins, out, a, slabs, hr, hdims, outputDims_eq_ok.1 hout, sampleAxis_eq_ok.1 haxis,
    hin, hslabs, rfl, hd.framed, ⟨_, hd.kind?_next, sizeIn_targetKind hproduct _⟩, ?_⟩
  rw [hd.into_next hc hpost]
  exact hwired.mono fun t v hv => (hd.framed.tensorView t).trans hv

end
end Rule

/-! ## Inferred shapes -/

namespace Graph

variable {α : Type} [Scalar α] {g : Graph α} {i : InvocationId} {inv : Invocation}
  {c : Concatenate} {ins : List (List Nat)} {out : List Nat} {a : Nat}

/-- The shape of a concatenation was inferred from shapes of one rank, which
    stand for the samples of its inputs. -/
theorem Sound.inferred_concatenate (hg : g.Sound)
    (hk : g.kind? i.layer = some (.primitive (.concatenate c))) (hr : g.record? i = some inv)
    (hin : List.Forall₂ g.Dims inv.inputs ins) (hout : g.OutputDims i out) :
    ∃ shapes s, c.outputShapes shapes = .ok [s] ∧ List.Forall₂ Shape.Samples shapes ins ∧
      s.Samples out ∧ ∀ s' ∈ shapes, s'.rank = s.rank := by
  have hop : g.operation? i.layer = some c.operation := by
    simp [operation?, hk, LayerKind.operation?, Primitive.operation]
  obtain ⟨shapes, outputShapes, happlied⟩ := hg.applied hop hr
  have ho : c.outputShapes shapes = .ok outputShapes := happlied.inferred
  obtain ⟨first, others, axis, r, hshapes, hfirst, hjoin, houtput⟩ :=
    Concatenate.outputShapes_eq_ok ho
  have hdims : first.dims.length = first.rank := rfl
  obtain ⟨hlength, hranks⟩ := Concatenate.length_joinAll hdims hjoin
  have hrank : ∀ s ∈ shapes, s.rank = first.rank := by
    rw [hshapes]
    simpa using hranks
  have hpos : 0 < first.rank := (Nat.zero_le _).trans_lt (axisIndex_lt hfirst)
  -- all shapes have a batch axis
  have hsamples : ∀ s : Shape, s.rank = first.rank → ∀ dims, s.withoutBatch = .concrete dims →
      s.Samples dims := by
    rintro ⟨_ | ⟨batch, ds⟩⟩ hs dims hdims
    · exact absurd hs hpos.ne
    · exact ⟨batch, congrArg (batch :: ·) (congrArg Shape.dims hdims)⟩
  have hins : List.Forall₂ Shape.Samples shapes ins := by
    refine forall₂_comp (fun s t dims hs hd => ?_)
      ((List.forall₂_and_left _ _).2 ⟨hrank, happlied.inputs.flip⟩) hin
    obtain ⟨s', hs', hdims⟩ := hd
    obtain rfl := Option.some.inj (hs.2.symm.trans hs')
    exact hsamples s hs.1 dims hdims
  obtain ⟨inv', t, hr', houts, s', hs', hdims⟩ := hout
  obtain rfl := Option.some.inj (hr.symm.trans hr')
  have hshape : s' = ⟨r⟩ := by
    have hforall := happlied.outputs
    rw [houts, houtput] at hforall
    obtain ⟨hs, -⟩ := List.forall₂_cons.1 hforall
    exact Option.some.inj (hs'.symm.trans hs)
  subst hshape
  exact ⟨shapes, ⟨r⟩, houtput ▸ ho, hins, hsamples _ hlength out hdims,
    fun s hs => (hrank s hs).trans hlength.symm⟩

/-- Behind the batch axis, the output of a concatenation has the length of all
    inputs on its axis, and elsewhere that of the first one. -/
theorem Sound.concatenated (hg : g.Sound)
    (hk : g.kind? i.layer = some (.primitive (.concatenate c))) (hr : g.record? i = some inv)
    (hin : List.Forall₂ g.Dims inv.inputs ins) (hout : g.OutputDims i out)
    (haxis : axisIndex c.axis (out.length + 1) = .ok (a + 1)) :
    ∃ dims rest, ins = dims :: rest ∧ a < dims.length ∧
      out = dims.set a (totalSize (ins.map (·.getD a 0))) := by
  obtain ⟨shapes, s, ho, hins, hsout, hrank⟩ := hg.inferred_concatenate hk hr hin hout
  have hbatch : ∀ s' ∈ shapes, axisIndex c.axis s'.rank ≠ .ok 0 := fun s' hs' h0 => by
    rw [hrank s' hs', hsout.rank, haxis] at h0
    exact absurd (Except.ok.inj h0) (Nat.succ_ne_zero a)
  obtain ⟨dims, rest, a', s', rfl, ha, haxis', hsingle, hs⟩ :=
    Concatenate.samples_outputShapes ho hins hbatch
  obtain rfl := List.singleton_inj.1 hsingle
  obtain rfl := hsout.unique hs
  obtain rfl : a' = a := by
    rw [List.length_set] at haxis
    simpa using haxis'.symm.trans haxis
  exact ⟨dims, rest, rfl, ha, rfl⟩

end Graph

section
variable {α : Type} [Zero α] {c : Concatenate} {b a : Nat} {dims : List Nat}
  {rest : List (List Nat)} {xs : List (Grid α)}

/-- Inputs that agree off the axis are joined, if there are arrays of the joined
    shape. -/
theorem Concatenate.exists_forward_of_agree (haxis : axisIndex c.axis (dims.length + 1) = .ok (a + 1))
    (hx : List.Forall₂ (fun dims x => Grid.Batch x b dims) (dims :: rest) xs)
    (hin : ∀ ds ∈ rest, a < ds.length) (hagree : ∀ ds ∈ rest, ds.eraseIdx a = dims.eraseIdx a)
    (haddressable : addressable (b :: dims.set a (totalSize ((dims :: rest).map (·.getD a 0))))) :
    ∃ y, c.forward xs = .ok [y] := by
  have ha : a < dims.length := by
    have hlt := axisIndex_lt haxis
    omega
  have hshapes := forall₂_batch_shape hx
  obtain ⟨x, xs, hxd, -, rfl⟩ := List.forall₂_cons_left_iff.1 hx
  have hlengths : ∀ ds ∈ rest, ds.length = dims.length := fun ds hds => by
    have hlength := congrArg List.length (hagree ds hds)
    rw [List.length_eraseIdx_of_lt (hin ds hds), List.length_eraseIdx_of_lt ha] at hlength
    have hpos := hin ds hds
    omega
  have hfirst : axisIndex c.axis x.rank = .ok (a + 1) := hxd.rank.symm ▸ haxis
  have hranks : ∀ z ∈ xs, z.rank = x.rank := fun z hz => by
    obtain ⟨ds, hds, hzd⟩ := forall₂_mem_left hx.flip z (List.mem_cons_of_mem _ hz)
    rw [hzd.rank, hxd.rank]
    rcases List.mem_cons.1 hds with rfl | hds
    · rfl
    · rw [hlengths ds hds]
  obtain ⟨y, hy, -⟩ := Concatenate.exists_forward hfirst hranks
    (by
      rw [hshapes, List.map_cons, agreeOff_cons]
      simpa using hagree)
    (by
      rw [hshapes]
      simpa [joinedShape, Function.comp_def] using haddressable)
  exact ⟨y, hy⟩

end

/-! ## Conversions -/

namespace Session

open Neuroform.Graph Workspace

section
variable {α : Type} [Scalar α] {g : Graph α} {settings : Settings α} {entries : List (Entry α)}
  {w : Workspace α} {e : Entry α} {c : Concatenate}

/-- In a finished network, the inputs of a native concatenation are wired to
    slabs of an object which nothing else leads to. -/
theorem Run.slabs (h : Run g settings entries w) (hnodup : (converted entries).Nodup)
    (he : e ∈ entries) (hnative : e.wrapped = false)
    (hk : g.kind? e.invocation.layer = some (.primitive (.concatenate c))) :
    ∃ inv ins out a o slabs kind, g.record? e.invocation = some inv ∧
      List.Forall₂ g.Dims inv.inputs ins ∧ g.OutputDims e.invocation out ∧
      axisIndex c.axis (out.length + 1) = .ok (a + 1) ∧ (∀ dims ∈ ins, a < dims.length) ∧
      Slabs out a 0 (ins.map (·.getD a 0)) slabs ∧ w.views.lookup e.invocation = some [.full o] ∧
      w.network.sketch.kind? o = some kind ∧ kind.sizeIn = .ok (volume out) ∧
      w.Wired inv.inputs (slabParts o slabs) (w.network.sketch.into o) := by
  obtain ⟨before, w₀, w₁, p, conv, v, -, hrun, hchosen, hran, -, -, hgrows, hlook⟩ :=
    h.exists_turn hnodup he
  obtain rfl : .concatenate c = p := by simpa using hk.symm.trans hchosen.kind
  have hconversion := hnative ▸ hchosen.conversion
  cases hconversion
  obtain ⟨inv, ins, out, a, slabs, hr, hdims, hout, haxis, hin, hslabs, rfl, -,
    ⟨kind, hkind, hsize⟩, hwired⟩ := draws_convertConcatenate hrun.feedforward.checked hran
  rw [hrun.graph_eq] at hr hdims hout
  refine ⟨inv, ins, out, a, _, slabs, kind, hr, hdims, hout, haxis, hin, hslabs, hlook,
    hgrows.kind? hkind, hsize, ?_⟩
  rw [hgrows.into (Sketch.index_lt hkind)]
  exact hwired.mono hgrows.views

end

variable {α : Type} [Scalar α] {g : Graph α} {settings : Settings α} {l : LayerId} {s : Session α}

/-- **Slabs partition the output of a concatenation.**  In a converted network,
    the inputs of every native concatenation are wired to slabs of its object.
    They list every place of the object once.  If the inputs agree off the axis,
    what arrives of their samples comes to stand in the slabs, which are the
    samples themselves unless adding to zero changes a value; and a table has
    samples there if and only if it holds what the layer joins them to; it joins
    all that have an array to be joined to. -/
theorem slabs_partition (hg : g.Reachable)
    (hc : convert g l settings Registry.standard = .ok s) :
    ∃ m order entries, g.model? l = some m ∧ g.trace (m.outputs ++ m.inputs) = .ok order ∧
      converted entries = sources order ∧ Run g settings entries s.workspace ∧
      ∀ e ∈ entries, e.wrapped = false →
        ∀ c, g.kind? e.invocation.layer = some (.primitive (.concatenate c)) →
        ∃ inv ins out a o slabs kind, g.record? e.invocation = some inv ∧
          List.Forall₂ g.Dims inv.inputs ins ∧ g.OutputDims e.invocation out ∧
          axisIndex c.axis (out.length + 1) = .ok (a + 1) ∧
          s.workspace.views.lookup e.invocation = some [.full o] ∧
          s.network.sketch.kind? o = some kind ∧ kind.sizeIn = .ok (volume out) ∧
          s.workspace.Wired inv.inputs (slabParts o slabs) (s.network.sketch.into o) ∧
          slabs.flatten.Perm (List.range (volume out)) ∧
          ∀ (b : Nat) (xs : List (Grid α)),
            List.Forall₂ (fun dims x => Grid.Batch x b dims) ins xs →
            (∀ dims ∈ ins, dims.eraseIdx a = out.eraseIdx a) →
            (∀ states, List.Forall₂ (s.workspace.ShowsBatch states b) inv.inputs xs →
              ∃ t, s.network.inputOf states b o (volume out) = .ok t ∧
                t.Assembled b (volume out) (slabParts o slabs) ins (xs.map Grid.arrived) ∧
                ((∀ x ∈ xs, ∀ v ∈ x.toList, 0 + v = v) →
                  t.Assembled b (volume out) (slabParts o slabs) ins xs)) ∧
            ((∃ ys, c.forward xs = .ok ys) ↔ addressable (b :: out)) ∧
            ∀ ys, c.forward xs = .ok ys → ∃ y, ys = [y] ∧ y.Batch b out ∧
              ∀ t : Table α, t.Assembled b (volume out) (slabParts o slabs) ins xs ↔
                t.Holds b out y := by
  obtain ⟨m, hm⟩ := exists_model hc
  obtain ⟨order, entries, s₁, ho, hdone, hd, -⟩ := convert_completed hg.sound hm hc
  obtain ⟨htraced, -, -, -⟩ := trace_eq_ok hg.sound ho
  refine ⟨m, order, entries, hm, ho, hdone, hd.run, fun e he hnative c hk => ?_⟩
  obtain ⟨inv, ins, out, a, o, slabs, kind, hr, hdims, hout, haxis, hin, hslabs, hlook, hkind,
    hsize, hwired⟩ := hd.run.slabs (hdone ▸ htraced.nodup) he hnative hk
  obtain ⟨dims, rest, rfl, ha, hjoined⟩ := hg.sound.concatenated hk hr hdims hout haxis
  have hlt : a < out.length := by simpa [hjoined] using ha
  have haxis' : axisIndex c.axis (dims.length + 1) = .ok (a + 1) := by
    simpa [hjoined] using haxis
  have hperm := hslabs.perm hlt (by simp [hjoined, ha])
  refine ⟨inv, _, out, a, o, slabs, kind, hr, hdims, hout, haxis, hlook, hkind, hsize, hwired,
    hperm, fun b xs hx hagree => ⟨fun states hstates => ?_, ⟨?_, fun haddressable => ?_⟩,
      fun ys hf => ?_⟩⟩
  · have hfit := hslabs.fit (fun ds hds =>
      (eq_set_of_eraseIdx (hagree ds hds) (by simp [hin ds hds]) hlt).symm) o (volume out)
    obtain ⟨t, ht, harrived⟩ := hwired.inputOf hstates (hd.run.graph_eq.symm ▸ hdims)
      (by rwa [flatMap_slabParts]) hfit
    exact ⟨t, ht, harrived, fun hkept => Grid.map_arrived hkept ▸ harrived⟩
  · rintro ⟨ys, hf⟩
    obtain ⟨y, -, hy⟩ := joined_of_forward haxis' hx hf
    rw [hjoined, ← hy.output.shape]
    exact hy.output.addressable
  · obtain ⟨y, hy⟩ := Concatenate.exists_forward_of_agree haxis' hx
      (fun ds hds => hin ds (List.mem_cons_of_mem _ hds))
      (fun ds hds => (hagree ds (List.mem_cons_of_mem _ hds)).trans (hagree dims (by simp)).symm)
      (hjoined ▸ haddressable)
    exact ⟨[y], hy⟩
  · obtain ⟨y, rfl, hy⟩ := joined_of_forward haxis' hx hf
    rw [← hjoined] at hy
    exact ⟨y, rfl, hy.output, fun t => hy.assembled_iff hin hslabs o⟩

/-- Rows of one value and rows of two, joined row by row. -/
def joinedRows : List (BuildStep ℚ) :=
  [.input "a" [2, 1], .input "b" [2, 2], .wire "c" (.concatenate ⟨-1⟩) [⟨0⟩, ⟨1⟩],
    .model "m" [⟨0⟩, ⟨1⟩] [⟨2⟩]]

/-- The slabs of the two inputs interleave. -/
theorem slabs_partition_joinedRows : ∃ s y,
    convert (build joinedRows) ⟨3⟩ { Settings.standard with allowFallback := false }
      Registry.standard = .ok s ∧
    (s.network.sketch.into ⟨2⟩).map (·.post) = slabParts ⟨2⟩ [[0, 3], [1, 2, 4, 5]] ∧
    [[0, 3], [1, 2, 4, 5]].flatten.Perm (List.range 6) ∧
    (⟨-1⟩ : Concatenate).forward
      [(⟨[1, 2, 1], #[1, 4], rfl⟩ : Grid ℚ), ⟨[1, 2, 2], #[2, 3, 5, 6], rfl⟩] = .ok [y] ∧
    ∀ t : Table ℚ, t.Assembled 1 6 (slabParts ⟨2⟩ [[0, 3], [1, 2, 4, 5]]) [[2, 1], [2, 2]]
      [⟨[1, 2, 1], #[1, 4], rfl⟩, ⟨[1, 2, 2], #[2, 3, 5, 6], rfl⟩] ↔ t.Holds 1 [2, 3] y := by
  have hok : (do
      let s ← convert (build joinedRows) ⟨3⟩ { Settings.standard with allowFallback := false }
        Registry.standard
      pure ((s.network.sketch.into ⟨2⟩).map (·.post), s.workspace.views.lookup ⟨⟨2⟩, 0⟩) :
        Outcome _).toOption =
      some (slabParts ⟨2⟩ [[0, 3], [1, 2, 4, 5]], some [.full ⟨2⟩]) := by decide +kernel
  have hmodel : (build joinedRows).model? ⟨3⟩ =
      some ⟨[⟨0⟩, ⟨1⟩], [⟨2⟩], [⟨0⟩, ⟨1⟩, ⟨2⟩], false⟩ := by decide +kernel
  have htrace : (build joinedRows).trace [⟨2⟩, ⟨0⟩, ⟨1⟩] =
      .ok [⟨⟨0⟩, 0, 0⟩, ⟨⟨1⟩, 0, 0⟩, ⟨⟨2⟩, 0, 0⟩] := toOption_eq_some.1 (by decide +kernel)
  have hkind : (build joinedRows).kind? ⟨2⟩ = some (.primitive (.concatenate ⟨-1⟩)) := by
    set_option maxRecDepth 1000 in rfl
  have hrecord : (build joinedRows).record? ⟨⟨2⟩, 0⟩ = some ⟨[⟨0⟩, ⟨1⟩], [⟨2⟩]⟩ := by
    decide +kernel
  have ha : (build joinedRows).Dims ⟨0⟩ [2, 1] := ⟨.batched [2, 1], by decide +kernel, rfl⟩
  have hb : (build joinedRows).Dims ⟨1⟩ [2, 2] := ⟨.batched [2, 2], by decide +kernel, rfl⟩
  have hc : (build joinedRows).OutputDims ⟨⟨2⟩, 0⟩ [2, 3] :=
    ⟨_, _, hrecord, rfl, .batched [2, 3], by decide +kernel, rfl⟩
  obtain ⟨s, hs, hfacts⟩ := bind_eq_ok.1 (toOption_eq_some.1 hok)
  obtain ⟨hinto, hview⟩ := Prod.mk.inj (pure_eq_ok.1 hfacts)
  obtain ⟨m, order, entries, hm, ho, hdone, hrun, hslabs⟩ :=
    slabs_partition (reachable_build joinedRows) hs
  obtain rfl := Option.some.inj (hmodel.symm.trans hm)
  obtain rfl := Except.ok.inj (htrace.symm.trans ho)
  obtain ⟨e, he, hi⟩ : ∃ e ∈ entries, e.invocation = ⟨⟨2⟩, 0⟩ :=
    List.mem_map.1 (by rw [← converted, hdone]; simp [sources, Provenance.source])
  obtain ⟨inv, ins, out, a, o, slabs, kind, hr, hdims, hout, haxis, hlook, -, -, hwired, hperm,
    hjoin⟩ := hslabs e he (hrun.native rfl e he) ⟨-1⟩ (by rw [hi]; exact hkind)
  rw [hi] at hr hout hlook
  obtain rfl := Option.some.inj (hrecord.symm.trans hr)
  obtain rfl := hc.unique hout
  obtain rfl : ⟨2⟩ = o := by simpa [View.full] using hview.symm.trans hlook
  have hins : [[2, 1], [2, 2]] = ins := List.right_unique_forall₂'
    (show Relator.RightUnique (build joinedRows).Dims from fun _ _ _ => Graph.Dims.unique)
    (.cons ha (.cons hb .nil)) hdims
  obtain rfl : [[0, 3], [1, 2, 4, 5]] = slabs := by
    have hparts := hinto.symm.trans hwired.map_post
    refine List.map_injective_iff.2 (fun p q hpq => ?_) hparts
    simpa using hpq
  have hlast : axisIndex (-1) ([2, 3].length + 1) = .ok 2 := rfl
  obtain rfl : a = 1 := by simpa using haxis.symm.trans hlast
  subst hins
  obtain ⟨-, hforward, hjoined⟩ := hjoin 1
    [⟨[1, 2, 1], #[1, 4], rfl⟩, ⟨[1, 2, 2], #[2, 3, 5, 6], rfl⟩]
    (.cons ⟨rfl, by decide⟩ (.cons ⟨rfl, by decide⟩ .nil)) (by decide)
  obtain ⟨ys, hys⟩ := hforward.2 (by decide)
  obtain ⟨y, rfl, -, hy⟩ := hjoined ys hys
  exact ⟨s, y, hs, hinto, hperm, hys, hy⟩

end Session
end Neuroform

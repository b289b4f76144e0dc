/-
  Neuroform — conversion of layers that move values realizes them.

  Up-sampling reads places of its input.  Zero padding and concatenation write
  their inputs to boxes of the output, which do not meet (`adds_box`).
-/
import Neuroform.Proofs.Conversion.Places
import Neuroform.Proofs.Conversion.Stage

namespace Neuroform

variable {α : Type} [Field α] [LinearOrder α] [Elementary α] [Printed α]

omit [Field α] [LinearOrder α] [Elementary α] [Printed α] in
/-- The axis of the samples is that behind the batch. -/
theorem Rule.sampleAxis_eq_ok {c : Concatenate} {rank a : Nat} :
    sampleAxis c rank = .ok a ↔ axisIndex c.axis (rank + 1) = .ok (a + 1) := by
  constructor
  · intro h
    obtain ⟨axis, haxis, h⟩ := bind_eq_ok.1 h
    obtain ⟨_, hpos, h⟩ := bind_eq_ok.1 h
    obtain rfl := pure_eq_ok.1 h
    rw [haxis, Nat.sub_add_cancel (require_eq_ok.1 hpos)]
  · exact fun h => bind_eq_ok.2 ⟨a + 1, h, bind_eq_ok.2 ⟨(), require_eq_ok.2 (by omega), rfl⟩⟩

section
variable {value : ObjectId → Option (Table α)} {b : Nat} {o u : ObjectId} {t : Table α}
  {dims out places : List Nat} {x : Grid α} {ranges : List Interval} {g : Nat → Nat → α}

/-- An input is written to a box of the output. -/
theorem adds_box (ht : value u = some t) (hold : t.Holds b dims x)
    (hbox : selectBox out ranges = .ok places) (hdims : ranges.map Interval.length = dims)
    (hin : ∀ i < b, ∀ q ∈ positions dims,
      g i (offset out (List.zipWith (· + ·) (ranges.map Interval.start) q)) = x.value (i :: q))
    (hout : ∀ i < b, ∀ p ∈ positions out, (∀ q ∈ positions dims,
      p ≠ List.zipWith (· + ·) (ranges.map Interval.start) q) → g i (offset out p) = 0) :
    Adds value b (volume out) [⟨.full u, ⟨o, some places⟩, .identity⟩] g := by
  have hnodup : places.Nodup := (sorted_selectBox hbox).imp fun h => Nat.ne_of_lt h
  obtain ⟨hranges, rfl⟩ := selectBox_eq_ok hbox
  subst hdims
  refine adds_at ht (by simpa [length_positions] using hold.reads) hnodup
    fun i hi j hj => ⟨?_, ?_⟩
  · intro k hk
    rw [List.getElem?_map] at hk
    obtain ⟨q, hq, rfl⟩ := Option.map_eq_some_iff.1 hk
    have hmem := List.mem_of_getElem? hq
    rw [hin i hi q hmem, ← offset_of_getElem? hq, hold.value]
  · intro hj'
    obtain ⟨p, hp, rfl⟩ := exists_position hj
    exact hout i hi p hp fun q hq heq => hj' (List.mem_map.2 ⟨q, hq, by rw [heq]⟩)

end

namespace Workspace

open Rule

variable {w w' : Workspace α} {fed : States α} {b : Nat} {i : InvocationId} {ins : List (List Nat)}
  {xs : List (Grid α)} {out : List Nat} {y : Grid α} {v : View}

/-! ## Up-sampling -/

/-- An up-sampled value is that of the position which it repeats. -/
theorem Staged.upSampled_value {u : UpSampling} (hs : Staged w fed b i (.upSampling u) ins xs out y)
    (hn : u.interpolation = .nearest) : ∃ dims x, ins = [dims] ∧ xs = [x] ∧ x.Batch b dims ∧
      out = upSampledDims u.layout u.size dims ∧ ∀ i < b, ∀ p ∈ positions out,
        repeatedPosition u.layout u.size p ∈ positions dims ∧
          y.value (i :: p) = x.value (i :: repeatedPosition u.layout u.size p) := by
  obtain ⟨dims, x, s, s', rfl, rfl, hx, hdims, ho, hout⟩ := hs.single fun shapes outs ho => by
    obtain ⟨s, hs, -⟩ := bind_eq_ok.1 ho
    exact ⟨s, onlyInput_eq_ok.1 hs⟩
  obtain ⟨c, _, hjoin, hlen, hsingle, hout'⟩ := UpSampling.samples_outputShapes hdims ho
  obtain rfl := List.singleton_inj.1 hsingle
  obtain rfl := hout.unique hout'
  generalize u.layout.spatial dims = hw at hjoin hlen ⊢
  subst hjoin
  obtain ⟨-, hvalue⟩ := UpSampling.value_forward hn hs.batch hx.shape hlen hs.makes
  exact ⟨_, x, rfl, rfl, hx, (upSampledDims_join c hw).symm, hvalue⟩

/-- Up-sampling is reading places of the input. -/
theorem Staged.realized_upSampling {u : UpSampling}
    (hs : Staged w fed b i (.upSampling u) ins xs out y) (hn : u.interpolation = .nearest)
    (h : (convertUpSampling u i).exec w = (.ok v, w')) (hfits : w'.network.sketch.Fits b) :
    Realized w w' fed b v out y := by
  obtain ⟨dims, x, rfl, rfl, hx, hout, hvalue⟩ := hs.upSampled_value hn
  rw [convertUpSampling, Step.exec_get_bind] at h
  obtain ⟨dims', _, hlooked, h⟩ := Step.exec_bind_eq_ok.1 h
  obtain ⟨hdims, rfl⟩ := Step.exec_lift_eq_ok.1 hlooked
  obtain rfl := List.singleton_inj.1 (hs.inputDims dims' hdims)
  obtain ⟨places, _, hgathered, h⟩ := Step.exec_bind_eq_ok.1 h
  obtain ⟨hplaces, rfl⟩ := Step.exec_lift_eq_ok.1 hgathered
  obtain ⟨output, w₁, ht, h⟩ := Step.exec_bind_eq_ok.1 h
  obtain ⟨-, rfl, hd⟩ := hs.buildTarget ht
  rw [Step.exec_get_bind] at h
  obtain ⟨input, _, hlooked, h⟩ := Step.exec_bind_eq_ok.1 h
  obtain ⟨hinput, rfl⟩ := Step.exec_lift_eq_ok.1 hlooked
  rw [hd.framed.inputView] at hinput
  obtain ⟨o, dims', x', hdims', hx', rfl, hc⟩ := hs.views 0 input hinput
  obtain rfl := Option.some.inj hdims'
  obtain rfl := Option.some.inj hx'
  obtain ⟨part, _, hsliced, h⟩ := Step.exec_bind_eq_ok.1 h
  obtain ⟨hpart, rfl⟩ := Step.exec_lift_eq_ok.1 hsliced
  obtain rfl := Except.ok.inj hpart
  obtain ⟨c, w₂, hconnect, h⟩ := Step.exec_bind_eq_ok.1 h
  obtain ⟨rfl, rfl⟩ := Step.exec_pure_eq_ok.1 h
  have hd := hd.trans (draws_connect hconnect).1
  obtain ⟨t, ht, hold⟩ := hd.steady (leadsFrom_target (by simp [Sketch.LeadsFrom, View.full])) hc
  obtain rfl := gatherPlaces_eq_ok hplaces
  rw [← hout] at hd
  have hadds := adds_from (o := w.next) ((positions out).map fun p =>
    offset dims (repeatedPosition u.layout u.size p)) ht hold.reads (fun j hj => by
      obtain ⟨p, hp, rfl⟩ := List.mem_map.1 hj
      exact offset_lt (hvalue 0 hs.batch p hp).1)
  rw [List.length_map, length_positions] at hadds
  refine hs.realized_bare hfits hd (by simp [View.full]) hadds fun i hi p hp => ?_
  rw [(hvalue i hi p hp).2, List.getD_eq_getElem?_getD, List.getElem?_map, getElem?_positions hp]
  exact (hold.value i _).symm

/-! ## Zero padding -/

/-- Padding writes its input to the interior of a passthrough node. -/
theorem Staged.realized_zeroPadding {z : ZeroPadding}
    (hs : Staged w fed b i (.zeroPadding z) ins xs out y)
    (h : (convertZeroPadding z i).exec w = (.ok v, w')) (hfits : w'.network.sketch.Fits b) :
    Realized w w' fed b v out y := by
  obtain ⟨dims, x, s, s', rfl, rfl, hx, hdims, ho, hout⟩ := hs.single fun shapes outs ho => by
    obtain ⟨s, hs, -⟩ := bind_eq_ok.1 ho
    exact ⟨s, onlyInput_eq_ok.1 hs⟩
  obtain ⟨pads, hpads, -, hsingle⟩ := ZeroPadding.forward_eq_ok hs.makes
  obtain rfl := List.singleton_inj.1 hsingle
  obtain ⟨c, _, hjoin, hlen, hsingle, hout'⟩ := ZeroPadding.samples_outputShapes hdims ho
  obtain rfl := List.singleton_inj.1 hsingle
  have hpadded := hout.unique hout'
  generalize z.layout.spatial dims = hw at hjoin hlen hpadded
  subst hjoin
  rw [hx.rank, Layout.length_join, hlen] at hpads
  obtain rfl := ZeroPadding.pads_eq_ok.1 hpads
  rw [convertZeroPadding, Step.exec_get_bind] at h
  obtain ⟨dims', _, hlooked, h⟩ := Step.exec_bind_eq_ok.1 h
  obtain ⟨hdims', rfl⟩ := Step.exec_lift_eq_ok.1 hlooked
  obtain rfl := (hs.outputDims dims' hdims').symm
  obtain ⟨places, _, hplaced, h⟩ := Step.exec_bind_eq_ok.1 h
  obtain ⟨hplaces, rfl⟩ := Step.exec_lift_eq_ok.1 hplaced
  obtain ⟨output, w₁, ht, h⟩ := Step.exec_bind_eq_ok.1 h
  obtain ⟨-, rfl, hd⟩ := hs.buildTarget ht
  obtain ⟨part, _, hsliced, h⟩ := Step.exec_bind_eq_ok.1 h
  obtain ⟨hpart, rfl⟩ := Step.exec_lift_eq_ok.1 hsliced
  obtain rfl := Except.ok.inj hpart
  obtain ⟨_, w₂, hw', h⟩ := Step.exec_bind_eq_ok.1 h
  obtain ⟨rfl, rfl⟩ := Step.exec_pure_eq_ok.1 h
  obtain ⟨u, _, _, hdims', hx', hc, hd, -⟩ := hs.wireInput hd hw'
  obtain rfl := Option.some.inj hdims'
  obtain rfl := Option.some.inj hx'
  obtain ⟨t, ht, hold⟩ := hd.steady (leadsFrom_target (by simp [Sketch.LeadsFrom, View.full])) hc
  replace hpadded : out = z.layout.join c (paddedDims z.padding hw) := hpadded
  rw [hpadded] at hplaces
  have hbox := (interiorPlaces_eq_ok hlen).1 hplaces
  rw [← hpadded] at hbox
  have hlengths := length_interiorBox (l := z.layout) (c := c) hlen
  have hstarts := start_interiorBox (l := z.layout) (c := c) hlen
  refine hs.realized_bare hfits hd (by simp [View.full]) (adds_box ht hold hbox hlengths
    (g := fun i j => (x.padded _).cells.getD (i * volume out + j) 0) (fun i hi q hq => ?_)
    fun i hi p hp hnone => ?_) fun i hi p hp => hs.output.value_cells i p
  · have hp := moved_mem_positions (selectBox_eq_ok hbox).1 (hlengths ▸ hq)
    rw [← hs.output.value_cells]
    rw [hstarts] at hp ⊢
    exact Grid.value_padded_inside hx.shape hlen hi hq (hpadded ▸ hp)
  · rw [← hs.output.value_cells]
    exact Grid.value_padded_outside hx.shape hlen hi (hpadded ▸ hp) (hstarts ▸ hnone)

/-! ## Concatenation -/

section
variable {a start length : Nat}

theorem length_slab (out : List Nat) (a start length : Nat) :
    (slab out a start length).map Interval.length = out.set a length := by
  refine List.ext_getElem? fun n => ?_
  rw [slab, List.map_map, List.getElem?_map, List.getElem?_zipIdx, List.getElem?_set]
  by_cases hn : n < out.length
  · rw [List.getElem?_eq_getElem hn]
    by_cases ha : a = n
    · simp [ha, hn, Interval.length]
    · simp [ha, Ne.symm ha, Interval.length]
  · rw [List.getElem?_eq_none (by omega)]
    simp
    omega

/-- A position of a slab, moved along the axis. -/
theorem moved_slab {out q : List Nat} (hq : q.length = out.length) :
    List.zipWith (· + ·) ((slab out a start length).map Interval.start) q =
      q.set a (start + q.getD a 0) := by
  refine List.ext_getElem? fun n => ?_
  rw [slab, List.map_map, List.getElem?_zipWith, List.getElem?_map, List.getElem?_zipIdx,
    List.getElem?_set]
  by_cases hn : n < q.length
  · rw [List.getElem?_eq_getElem (hq ▸ hn), List.getElem?_eq_getElem hn]
    by_cases ha : a = n
    · subst ha
      simp [hn]
    · simp [ha, Ne.symm ha]
  · rw [List.getElem?_eq_none (l := q) (by omega), List.getElem?_eq_none (by omega)]
    simp
    omega

end

/-- A part of a concatenation adds a slab of the output. -/
theorem adds_slab {value : ObjectId → Option (Table α)} {o u : ObjectId} {t : Table α}
    {dims places : List Nat} {x : Grid α} {a start length : Nat} (ht : value u = some t)
    (hold : t.Holds b dims x) (hbox : selectBox out (slab out a start length) = .ok places)
    (hdims : out.set a length = dims) (ha : a < out.length) (hy : y.Batch b out)
    (hpart : ∀ i < b, ∀ p ∈ positions out, start ≤ p.getD a 0 → p.getD a 0 < start + length →
      y.value (i :: p) = x.value (i :: p.set a (p.getD a 0 - start))) :
    Adds value b (volume out) [⟨.full u, ⟨o, some places⟩, .identity⟩] fun i j =>
      if start ≤ coordinate out a j ∧ coordinate out a j < start + length then
        y.cells.getD (i * volume out + j) 0
      else 0 := by
  have hlengths := (length_slab out a start length).trans hdims
  have hmoved : ∀ {q}, q ∈ positions dims → q.length = out.length := fun hq => by
    rw [length_of_mem_positions hq, ← hdims, List.length_set]
  refine adds_box ht hold hbox hlengths (fun i hi q hq => ?_) fun i hi p hp hnone => ?_
  · have hp := moved_mem_positions (selectBox_eq_ok hbox).1 (hlengths ▸ hq)
    rw [moved_slab (hmoved hq)] at hp ⊢
    have hqa : q.getD a 0 < length := by
      have hlt := List.forall₂_iff_get.1 (mem_positions.1 hq)
      have haq : a < q.length := hmoved hq ▸ ha
      have := hlt.2 a haq (hlt.1 ▸ haq)
      simpa [List.getD_eq_getElem?_getD, haq, ← hdims] using this
    have hcoord : (q.set a (start + q.getD a 0)).getD a 0 = start + q.getD a 0 := by
      simp [List.getD_eq_getElem?_getD, hmoved hq, ha]
    rw [coordinate_offset hp, hcoord, if_pos ⟨by omega, by omega⟩, ← hy.value_cells,
      hpart i hi _ hp (by omega) (by omega), hcoord, List.set_set, Nat.add_sub_cancel_left,
      List.getD_eq_getElem _ _ (hmoved hq ▸ ha), List.set_getElem_self]
  · rw [coordinate_offset hp, if_neg fun h => ?_]
    have hpl := length_of_mem_positions hp
    -- a position of the slab is one of the part that has been moved
    refine hnone (p.set a (p.getD a 0 - start)) ?_ ?_
    · rw [← hdims, mem_positions, List.forall₂_iff_get]
      refine ⟨by simp [hpl], fun n hn hn' => ?_⟩
      simp only [List.get_eq_getElem, List.getElem_set]
      split
      · omega
      · exact (List.forall₂_iff_get.1 (mem_positions.1 hp)).2 n (by simpa using hn)
          (by simpa using hn')
    · have hpa : a < p.length := hpl ▸ ha
      have hset : (p.set a (p.getD a 0 - start)).getD a 0 = p.getD a 0 - start := by
        simp [List.getD_eq_getElem?_getD, hpa]
      rw [moved_slab (by simpa using hpl), List.set_set, hset, Nat.add_sub_cancel' h.1,
        List.getD_eq_getElem _ _ hpa, List.set_getElem_self]

theorem partStart_succ {a k length : Nat} {dims : List Nat} (hk : ins[k]? = some dims)
    (hlength : dims[a]? = some length) : partStart a ins (k + 1) = partStart a ins k + length := by
  rw [partStart, List.take_add_one, hk, List.map_append, totalSize_eq_sum, List.sum_append]
  simp [partStart, totalSize_eq_sum, hlength]

/-- A concatenation joins its inputs along the axis behind the batch that it
    names. -/
theorem Staged.joined {c : Concatenate} (hs : Staged w fed b i (.concatenate c) ins xs out y) :
    ∃ a, axisIndex c.axis (out.length + 1) = .ok (a + 1) ∧ Joined b a ins xs out y := by
  obtain ⟨shapes, s, hshapes, hregular, ho, hout⟩ := hs.inferred
  obtain ⟨dims, rest, a, s', rfl, ha, haxis, hsingle, hout'⟩ :=
    Concatenate.samples_outputShapes ho hshapes hregular
  obtain rfl := List.singleton_inj.1 hsingle
  obtain rfl := hout.unique hout'
  obtain ⟨y', hy, hjoined⟩ := joined_of_forward haxis hs.inputs hs.makes
  obtain rfl := List.singleton_inj.1 hy
  exact ⟨a, by simpa using haxis, hjoined⟩

/-- Wires that add the output up to the start of an input, and one that adds the
    input. -/
theorem adds_part {a k length : Nat} {dims : List Nat} {z : Grid α}
    (hj : Joined b a ins xs out y) (hk : ins[k]? = some dims) (hz : xs[k]? = some z)
    (hlength : dims[a]? = some length)
    {value : ObjectId → Option (Table α)} {o u : ObjectId} {t : Table α} {places : List Nat}
    {wires : List (Wire α)} (ht : value u = some t) (hold : t.Holds b dims z)
    (hbox : selectBox out (slab out a (partStart a ins k) length) = .ok places)
    (hadds : Adds value b (volume out) wires fun i j =>
      if coordinate out a j < partStart a ins k then y.cells.getD (i * volume out + j) 0 else 0) :
    Adds value b (volume out) (wires ++ [⟨.full u, ⟨o, some places⟩, .identity⟩]) fun i j =>
      if coordinate out a j < partStart a ins (k + 1) then y.cells.getD (i * volume out + j) 0
      else 0 := by
  refine (hadds.append (adds_slab ht hold hbox (hj.others _ _ _ hk hlength) hj.axis hj.output
    fun i hi p hp => hj.value_part hk hz hlength hi hp)).congr fun i _ j _ => ?_
  rw [partStart_succ hk hlength]
  by_cases hbefore : coordinate out a j < partStart a ins k
  · rw [if_pos hbefore, if_neg (by omega), if_pos (by omega), add_zero]
  · by_cases hinside : coordinate out a j < partStart a ins k + length
    · rw [if_neg hbefore, if_pos ⟨by omega, hinside⟩, if_pos hinside, zero_add]
    · rw [if_neg hbefore, if_neg (by omega), if_neg hinside, zero_add]

/-- Every input of a concatenation adds its slab to a passthrough node. -/
theorem Staged.realized_concatenate {c : Concatenate}
    (hs : Staged w fed b i (.concatenate c) ins xs out y)
    (h : (convertConcatenate c i).exec w = (.ok v, w')) (hfits : w'.network.sketch.Fits b) :
    Realized w w' fed b v out y := by
  obtain ⟨a, haxis, hjoined⟩ := hs.joined
  rw [convertConcatenate, Step.exec_get_bind] at h
  obtain ⟨dims', _, hlooked, h⟩ := Step.exec_bind_eq_ok.1 h
  obtain ⟨hdims', rfl⟩ := Step.exec_lift_eq_ok.1 hlooked
  obtain rfl := (hs.outputDims dims' hdims').symm
  obtain ⟨a', _, hsample, h⟩ := Step.exec_bind_eq_ok.1 h
  obtain ⟨haxis', rfl⟩ := Step.exec_lift_eq_ok.1 hsample
  obtain rfl : a = a' := by simpa using haxis.symm.trans (sampleAxis_eq_ok.1 haxis')
  obtain ⟨output, w₁, ht, h⟩ := Step.exec_bind_eq_ok.1 h
  obtain ⟨-, rfl, hd⟩ := hs.buildTarget ht
  rw [Step.exec_get_bind] at h
  obtain ⟨all, _, hlooked', h⟩ := Step.exec_bind_eq_ok.1 h
  obtain ⟨hall, rfl⟩ := Step.exec_lift_eq_ok.1 hlooked'
  rw [hd.framed.allInputDims] at hall
  obtain rfl := (hs.allInputDims all hall).symm
  obtain ⟨total, w₂, hloop, h⟩ := Step.exec_bind_eq_ok.1 h
  obtain ⟨rfl, rfl⟩ := Step.exec_pure_eq_ok.1 h
  -- the wires so far add the output up to where the inputs so far end
  obtain ⟨wires, hd, -, hpost, hadds⟩ := draws_forIn hd (I := fun done start wires =>
    start = partStart a ins done.length ∧ (∀ e ∈ wires, e.post.object = w.next) ∧
      ∀ value, w.Shows fed b value → Adds value b (volume out) wires fun i j =>
        if coordinate out a j < partStart a ins done.length then
          y.cells.getD (i * volume out + j) 0
        else 0)
    ⟨by simp [partStart], by simp, fun _ _ => by simpa [partStart] using adds_nil⟩
    (fun done d rest start wires w₂ r w₃ hx' hI hd hround => by
      obtain ⟨shape, k⟩ := d
      obtain ⟨rfl, hpost, hadds⟩ := hI
      obtain ⟨hk, rfl⟩ := getElem?_of_zipIdx_eq hx'
      obtain ⟨length, _, hlooked, hround⟩ := Step.exec_bind_eq_ok.1 hround
      obtain ⟨hlength, rfl⟩ := Step.exec_lift_eq_ok.1 hlooked
      rw [orFault_eq_ok] at hlength
      obtain ⟨places, _, hselected, hround⟩ := Step.exec_bind_eq_ok.1 hround
      obtain ⟨hbox, rfl⟩ := Step.exec_lift_eq_ok.1 hselected
      obtain ⟨part, _, hsliced, hround⟩ := Step.exec_bind_eq_ok.1 hround
      obtain ⟨hpart, rfl⟩ := Step.exec_lift_eq_ok.1 hsliced
      obtain rfl := Except.ok.inj hpart
      obtain ⟨_, w₄, hw, hround⟩ := Step.exec_bind_eq_ok.1 hround
      obtain ⟨rfl, rfl⟩ := Step.exec_pure_eq_ok.1 hround
      obtain ⟨u, _, z, hds, hz, hc, hd, -⟩ := hs.wireInput hd hw
      obtain rfl := Option.some.inj (hk.symm.trans hds)
      refine ⟨_, _, rfl, hd, ?_, fun e he => ?_, fun value hvalue => ?_⟩
      · rw [List.length_append, List.length_singleton, partStart_succ hk hlength]
      · rcases List.mem_append.1 he with he | he
        · exact hpost e he
        · rw [List.mem_singleton.1 he]
          rfl
      · obtain ⟨t, ht, hold⟩ := hvalue u _ z hc
        rw [List.length_append, List.length_singleton]
        exact adds_part hjoined hk hz hlength ht hold hbox (hadds value hvalue)) hloop
  rw [List.length_zipIdx, ← hjoined.length] at hadds
  have hleads : (targetPart w.next out none (.activation .linear) ++
      (⟨[], wires⟩ : Sketch α)).LeadsFrom w.next :=
    leadsFrom_target fun e he => (congrArg ObjectId.index (hpost e he)).ge
  refine hs.realized_bare hfits hd hpost (hadds _ (hd.shows hleads)) fun i hi p hp => ?_
  have hpa : p.getD a 0 < out.getD a 0 := by
    obtain ⟨hl, hlt⟩ := List.forall₂_iff_get.1 (mem_positions.1 hp)
    have hpa : a < p.length := hl ▸ hjoined.axis
    simpa [List.getD_eq_getElem?_getD, hpa, hjoined.axis] using hlt a hpa (hl ▸ hpa)
  rw [coordinate_offset hp, if_pos hpa]
  exact hs.output.value_cells i p

end Workspace
end Neuroform

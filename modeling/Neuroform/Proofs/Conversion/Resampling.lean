/-
  Neuroform — up-sampling reads places and zero padding fills places.

  The places that an up-sampling reads are those of the nearest values, whatever
  its interpolation (`UpSampling.repeating`).  Its rule refuses other
  interpolations of two axes only, so that of one or three axes they are lost
  (`UpSampling.gathered`).  The places that a zero padding fills are listed in
  order, one for each value of a sample (`ZeroPadding.interior`).  Values are
  written there by adding them to zeros, which leaves all of them as they are but
  negative zero (`scatter_written`).

  Both kinds of places exist if and only if memory can hold a place for every
  position of the samples around them.
-/
import Neuroform.Proofs.Conversion.Places
import Neuroform.Proofs.Conversion.Rules
import Neuroform.Proofs.Network.React
import Neuroform.Proofs.Rational

namespace Neuroform

/-- Memory that can hold a place for every position can hold the values. -/
theorem requireRoom_values {dims : List Nat} (h : requireRoom placeBytes dims = .ok ()) :
    requireRoom valueBytes dims = .ok () := by
  obtain ⟨ha, hlt⟩ := requireRoom_eq_ok.1 h
  exact requireRoom_eq_ok.2 ⟨ha, (Nat.mul_le_mul_left _ (by decide)).trans_lt hlt⟩

variable {α : Type}

/-! ## Places -/

section
variable [Zero α] {t u : Table α} {dims out places : List Nat} {b : Nat}

/-- Values that are read at places are the values of a batch. -/
theorem holds_selected {x y : Grid α} {f : List Nat → List Nat} (ht : t.Holds b dims x)
    (hy : y.shape = b :: out) (hvalue : ∀ i < b, ∀ p ∈ positions out,
      f p ∈ positions dims ∧ y.value (i :: p) = x.value (i :: f p))
    (hin : ∀ j ∈ (positions out).map fun p => offset dims (f p), j < volume dims) :
    ∃ v, t.selectColumns ((positions out).map fun p => offset dims (f p)) = .ok v ∧
      v.Holds b out y := by
  refine ⟨_, if_pos (by simpa [ht.columns] using hin), Table.holds_of_values hy ht.rows
    (by simp [Table.ofFn, length_positions]) fun i hi p hp => ?_⟩
  have hplace : offset out p < ((positions out).map fun p => offset dims (f p)).length := by
    rw [List.length_map, length_positions]
    exact offset_lt hp
  rw [Table.value_ofFn _ (ht.rows ▸ hi) hplace, List.getD_eq_getElem?_getD, List.getElem?_map,
    getElem?_positions hp]
  exact (ht.value i _).trans (hvalue i hi p hp).2.symm

/-- A table that has the columns of another one at some places, and zeros
    elsewhere. -/
structure Table.Written (u : Table α) (places : List Nat) (t : Table α) : Prop where
  columns : u.selectColumns places = .ok t
  zero : ∀ i < u.rows, ∀ j < u.columns, j ∉ places → u.value i j = 0

/-- Values that zero adds nothing to are written by being added to zeros. -/
theorem scatter_written [Add α] (hd : places.Nodup) (h : u.Written places t)
    (hkept : ∀ v ∈ t.cells.toList, 0 + v = v) :
    scatter places t (Table.zeros u.rows u.columns) = u := by
  obtain ⟨hin, rfl⟩ := Table.selectColumns_eq_ok.1 h.columns
  refine Table.ext_values rfl rfl fun i (hi : i < u.rows) j (hj : j < u.columns) => ?_
  obtain ⟨hhit, hmiss⟩ := value_scatter (x := Table.zeros u.rows u.columns)
    (y := Table.ofFn u.rows places.length fun i k => u.value i (places.getD k 0)) hd
    (show i < u.rows from hi) (show j < u.columns from hj)
  by_cases hmem : j ∈ places
  · obtain ⟨k, hk⟩ := List.mem_iff_getElem?.1 hmem
    have hlt := (List.getElem?_eq_some_iff.1 hk).1
    rw [hhit k hk, Table.value_zeros, hkept _ (Table.value_mem hi hlt), Table.value_ofFn _ hi hlt,
      List.getD_eq_getElem?_getD, hk, Option.getD_some]
  · rw [hmiss hmem, Table.value_zeros, h.zero i hi j hj hmem]

end

variable [Scalar α] {s : Shape} {dims places : List Nat} {outs : List Shape}

/-! ## Up-sampling -/

namespace UpSampling
variable {u : UpSampling} {l : Layout} {size hw : List Nat} {c : Nat}

/-- An up-sampling of the same sizes that repeats values. -/
def repeating (u : UpSampling) : UpSampling := { u with interpolation := .nearest }

/-- The places that are read exist if memory can hold them and those of the
    sample. -/
theorem gatherPlaces_eq_ok_iff (hlen : hw.length = size.length) :
    gatherPlaces l size (l.join c hw) = .ok places ↔
      requireRoom placeBytes (l.join c (List.zipWith (· * ·) hw size)) = .ok () ∧
      requireRoom placeBytes (l.join c hw) = .ok () ∧
      places = (positions (l.join c (List.zipWith (· * ·) hw size))).map fun p =>
        offset (l.join c hw) (repeatedPosition l size p) := by
  simp only [gatherPlaces, bind_eq_ok, pure_eq_ok, upSampledDims_join]
  constructor
  · rintro ⟨_, -, _, hout, _, hin, rfl⟩
    exact ⟨hout, hin, rfl⟩
  · rintro ⟨hout, hin, rfl⟩
    exact ⟨(), hlen ▸ Layout.requireSpatial_join c hw, (), hout, (), hin, rfl⟩

/-- **Up-sampling reads places.**  A layer that the rule for up-sampling takes has
    two axes only if it repeats the nearest values.  Of accepted samples it reads
    one place for every value of the inferred shape, all of them in the sample; in
    this order they make up the samples with repeated values.  These are what the
    layer itself makes, unless it interpolates along one or three axes. -/
theorem gathered {l : LayerId} {layer : Layer α} {r : Rule α} {g : Graph α} {config : Settings α}
    (hk : layer.kind = .primitive (.upSampling u)) (hr : Rule.upSampling l layer = .ok r)
    (hc : r.convertible g layer config = .ok ()) (hs : s.Samples dims)
    (ho : u.outputShapes [s] = .ok outs) : ∃ out s', outs = [s'] ∧ s'.Samples out ∧
      ((∃ places, gatherPlaces u.layout u.size dims = .ok places) ↔
        requireRoom placeBytes out = .ok () ∧ requireRoom placeBytes dims = .ok ()) ∧
      ∀ places, gatherPlaces u.layout u.size dims = .ok places →
        places.length = volume out ∧ (∀ j ∈ places, j < volume dims) ∧
        ∀ (b : Nat) (x : Grid α) (t : Table α), 0 < b → addressable (b :: out) →
          t.Holds b dims x → ∃ y v, u.repeating.forward [x] = .ok [y] ∧
            (u.rank = 2 ∨ u.interpolation = .nearest → u.forward [x] = .ok [y]) ∧
            t.selectColumns places = .ok v ∧ v.Holds b out y := by
  obtain ⟨c, s', hjoin, hlen, rfl, hs'⟩ := samples_outputShapes hs ho
  generalize u.layout.spatial dims = hw at hjoin hlen hs'
  subst hjoin
  refine ⟨_, s', rfl, hs', ?_, fun places h => ?_⟩
  · simp only [gatherPlaces_eq_ok_iff hlen, exists_and_left, exists_eq, and_true]
  obtain ⟨hout, -, rfl⟩ := (gatherPlaces_eq_ok_iff hlen).1 h
  have hin : ∀ j ∈ (positions (u.layout.join c (List.zipWith (· * ·) hw u.size))).map fun p =>
      offset (u.layout.join c hw) (repeatedPosition u.layout u.size p),
      j < volume (u.layout.join c hw) := fun j hj => by
    obtain ⟨p, hp, rfl⟩ := List.mem_map.1 hj
    exact offset_lt (repeatedPosition_mem hlen hp)
  refine ⟨by rw [List.length_map, length_positions], hin, fun b x t hb ha ht => ?_⟩
  obtain ⟨y, hy⟩ := exists_forward (u := u.repeating) rfl hb ht.shape hlen
    (requireRoom_values hout) ha
  obtain ⟨hshape, hvalue⟩ := value_forward (u := u.repeating) rfl hb ht.shape hlen hy
  obtain ⟨v, hv, hholds⟩ := holds_selected ht hshape hvalue hin
  refine ⟨y, v, hy, fun hn => ?_, hv, hholds⟩
  have hnearest : u.interpolation = .nearest :=
    hn.elim ((Rule.convertible_upSampling hk hr g config).1 hc) id
  have hself : u.repeating = u := by
    rw [repeating, ← hnearest]
  rwa [hself] at hy

/-- Two values, each stretched to two on the only axis. -/
def doubling : UpSampling := ⟨[2], .channelsLast, .bilinear⟩

/-- A layer that interpolates along one axis is taken, but its places are those of
    repeated values. -/
theorem gathered_doubling : ∃ r : Rule ℚ,
    Rule.upSampling ⟨0⟩ ⟨"up", .primitive (.upSampling doubling), true, #[]⟩ = .ok r ∧
    r.convertible default ⟨"up", .primitive (.upSampling doubling), true, #[]⟩ .standard =
      .ok () ∧
    Shape.Samples ⟨[none, some 2, some 1]⟩ [2, 1] ∧
    doubling.outputShapes [⟨[none, some 2, some 1]⟩] = .ok [⟨[none, some 4, some 1]⟩] ∧
    (∃ y v, doubling.repeating.forward [⟨[1, 2, 1], #[0, 4], rfl⟩] = .ok [y] ∧
      (⟨1, 2, #[0, 4], rfl⟩ : Table ℚ).selectColumns [0, 0, 1, 1] = .ok v ∧ v.Holds 1 [4, 1] y ∧
      v.row 0 = [0, 0, 4, 4]) ∧
    ∃ y, doubling.forward [(⟨[1, 2, 1], #[0, 4], rfl⟩ : Grid ℚ)] = .ok [y] ∧
      y.toList = [0, 1, 3, 4] := by
  have hr : Rule.upSampling ⟨0⟩ ⟨"up", .primitive (.upSampling doubling), true, #[]⟩ =
      (.ok { Rule.simple ⟨0⟩ (Rule.convertUpSampling doubling) with fixedOptions := [] } :
        Outcome (Rule ℚ)) := rfl
  have hc := (Rule.convertible_upSampling rfl hr default .standard).2 nofun
  have hs : Shape.Samples ⟨[none, some 2, some 1]⟩ [2, 1] := ⟨none, rfl⟩
  refine ⟨_, hr, hc, hs, rfl, ?_, ?_⟩
  · obtain ⟨out, s', hsingle, hs', -, h⟩ := gathered rfl hr hc hs rfl
    obtain rfl := List.singleton_inj.1 hsingle
    obtain rfl := hs'.unique (⟨none, rfl⟩ : Shape.Samples ⟨[none, some 4, some 1]⟩ [4, 1])
    obtain ⟨-, -, hread⟩ := h [0, 0, 1, 1] rfl
    obtain ⟨y, v, hy, -, hv, hholds⟩ := hread 1 ⟨[1, 2, 1], #[0, 4], rfl⟩ ⟨1, 2, #[0, 4], rfl⟩
      Nat.one_pos rfl ⟨rfl, rfl, rfl, rfl⟩
    refine ⟨y, v, hy, hv, hholds, ?_⟩
    obtain rfl := Except.ok.inj hv
    rfl
  · have hvalues : (doubling.forward [(⟨[1, 2, 1], #[0, 4], rfl⟩ : Grid ℚ)]).toOption.map
        (·.map Grid.toList) = some [[0, 1, 3, 4]] := by decide +kernel
    obtain ⟨ys, hys, hlist⟩ := Option.map_eq_some_iff.1 hvalues
    obtain ⟨y, rfl, hy⟩ := List.map_eq_singleton_iff.1 hlist
    exact ⟨y, toOption_eq_some.1 hys, hy⟩

end UpSampling

/-! ## Zero padding -/

namespace ZeroPadding
variable {z : ZeroPadding}

omit [Scalar α] in
/-- The table of a batch that has values in a box, and zeros around it, is written
    to the places of the box. -/
theorem written_box [Zero α] {t u : Table α} {x y : Grid α} {b : Nat} {out : List Nat}
    {ranges : List Interval} (ht : t.Holds b dims x) (hu : u.Holds b out y)
    (hbox : selectBox out ranges = .ok places) (hdims : ranges.map Interval.length = dims)
    (hin : ∀ i < b, ∀ q ∈ positions dims,
      y.value (i :: List.zipWith (· + ·) (ranges.map Interval.start) q) = x.value (i :: q))
    (hout : ∀ i < b, ∀ p ∈ positions out, (∀ q ∈ positions dims,
      p ≠ List.zipWith (· + ·) (ranges.map Interval.start) q) → y.value (i :: p) = 0) :
    u.Written places t := by
  obtain ⟨hranges, rfl⟩ := selectBox_eq_ok hbox
  subst hdims
  have hmoved : ∀ q ∈ positions (ranges.map Interval.length),
      List.zipWith (· + ·) (ranges.map Interval.start) q ∈ positions out :=
    fun _ hq => moved_mem_positions hranges hq
  constructor
  · obtain ⟨v, hv, hholds⟩ := holds_selected hu ht.shape
      (fun i hi q hq => ⟨hmoved q hq, (hin i hi q hq).symm⟩) fun j hj => by
        obtain ⟨q, hq, rfl⟩ := List.mem_map.1 hj
        exact offset_lt (hmoved q hq)
    rw [hv, hholds.unique ht]
  · intro i hi j hj hmiss
    rw [hu.columns] at hj
    obtain ⟨p, hp, rfl⟩ := exists_position hj
    rw [hu.value]
    exact hout i (hu.rows ▸ hi) p hp fun q hq heq => hmiss (List.mem_map.2 ⟨q, hq, by rw [heq]⟩)

/-- **Zero padding fills the interior.**  The places between the padding cells of
    accepted samples exist if and only if memory can hold a place for every
    position of the padded sample.  They are strictly increasing, one for each
    value of the sample.  The table of the padded samples is that of the samples
    written there, with zeros elsewhere; it is also what comes of adding the
    samples to zeros, unless that changes a value. -/
theorem interior (hs : s.Samples dims) (ho : z.outputShapes [s] = .ok outs) :
    ∃ out s', outs = [s'] ∧ s'.Samples out ∧
      ((∃ places, interiorPlaces z.layout z.padding out = .ok places) ↔
        requireRoom placeBytes out = .ok ()) ∧
      ∀ places, interiorPlaces z.layout z.padding out = .ok places →
        places.Pairwise (· < ·) ∧ places.length = volume dims ∧ (∀ j ∈ places, j < volume out) ∧
        ∀ (b : Nat) (x : Grid α) (t : Table α), requireRoom valueBytes (b :: out) = .ok () →
          t.Holds b dims x → ∃ y u, z.forward [x] = .ok [y] ∧ u.Holds b out y ∧
            u.Written places t ∧ ((∀ v ∈ x.toList, 0 + v = v) →
              scatter places t (Table.zeros b (volume out)) = u) := by
  obtain ⟨c, s', hjoin, hlen, rfl, hs'⟩ := samples_outputShapes hs ho
  generalize z.layout.spatial dims = hw at hjoin hlen hs'
  subst hjoin
  have hlengths := length_interiorBox (l := z.layout) (c := c) hlen
  have hstarts := start_interiorBox (l := z.layout) (c := c) hlen
  refine ⟨_, s', rfl, hs', ?_, fun places h => ?_⟩
  · simp only [interiorPlaces_eq_ok hlen, selectBox_eq_ok_iff, interiorBox_inside, true_and,
      exists_and_left, exists_eq, and_true]
  have hbox := (interiorPlaces_eq_ok hlen).1 h
  have hsorted := sorted_selectBox hbox
  have hmoved : ∀ {q}, q ∈ positions (z.layout.join c hw) →
      List.zipWith (· + ·) ((interiorBox z.layout z.padding c hw).map Interval.start) q ∈
        positions (z.layout.join c (paddedDims z.padding hw)) := fun hq =>
    moved_mem_positions interiorBox_inside (hlengths.symm ▸ hq)
  obtain ⟨-, hplaces⟩ := selectBox_eq_ok hbox
  refine ⟨hsorted, ?_, fun j hj => ?_, fun b x t hroom ht => ?_⟩
  · rw [hplaces, List.length_map, length_positions, hlengths]
  · rw [hplaces, hlengths] at hj
    obtain ⟨q, hq, rfl⟩ := List.mem_map.1 hj
    exact offset_lt (hmoved hq)
  · have hy : (x.padded ((0, 0) :: z.layout.join (0, 0) z.padding)).shape =
        b :: z.layout.join c (paddedDims z.padding hw) :=
      (congrArg (paddedDims _) ht.shape).trans (paddedDims_join hlen)
    obtain ⟨u, -, hu⟩ := exists_holds hy rfl
    have hwritten : u.Written places t := by
      refine written_box ht hu hbox hlengths (fun i hi q hq => ?_) fun i hi p hp hnone => ?_
      · have hp := hmoved hq
        rw [hstarts] at hp ⊢
        exact Grid.value_padded_inside ht.shape hlen hi hq hp
      · exact Grid.value_padded_outside ht.shape hlen hi hp (hstarts ▸ hnone)
    refine ⟨_, u, forward_of_room ht.shape hlen hroom, hu, hwritten, fun hkept => ?_⟩
    rw [← hu.rows, ← hu.columns]
    exact scatter_written (hsorted.imp fun h => Nat.ne_of_lt h) hwritten (ht.cells ▸ hkept)

/-- A row of two channels-first values below a row of zeros and left of a zero. -/
def corner : ZeroPadding := ⟨[(1, 0), (0, 1)], .channelsFirst⟩

/-- The values of a sample in the interior of two padded rows. -/
theorem interior_corner : Shape.Samples ⟨[none, some 1, some 1, some 2]⟩ [1, 1, 2] ∧
    corner.outputShapes [⟨[none, some 1, some 1, some 2]⟩] =
      .ok [⟨[none, some 1, some 2, some 3]⟩] ∧
    interiorPlaces corner.layout corner.padding [1, 2, 3] = .ok [3, 4] ∧
    ∃ y, corner.forward [⟨[1, 1, 1, 2], #[5, 7], rfl⟩] = .ok [y] ∧
      (scatter [3, 4] ⟨1, 2, #[5, 7], rfl⟩ (Table.zeros 1 6) : Table ℚ).Holds 1 [1, 2, 3] y ∧
      y.toList = [0, 0, 0, 5, 7, 0] := by
  have hs : Shape.Samples ⟨[none, some 1, some 1, some 2]⟩ [1, 1, 2] := ⟨none, rfl⟩
  refine ⟨hs, rfl, rfl, ?_⟩
  obtain ⟨out, s', hsingle, hs', -, h⟩ := interior (α := ℚ) (z := corner) hs rfl
  obtain rfl := List.singleton_inj.1 hsingle
  obtain rfl := hs'.unique
    (⟨none, rfl⟩ : Shape.Samples ⟨[none, some 1, some 2, some 3]⟩ [1, 2, 3])
  obtain ⟨-, -, -, hread⟩ := h [3, 4] rfl
  obtain ⟨y, u, hy, hholds, -, hscattered⟩ := hread 1 ⟨[1, 1, 1, 2], #[5, 7], rfl⟩
    ⟨1, 2, #[5, 7], rfl⟩ rfl ⟨rfl, rfl, rfl, rfl⟩
  obtain rfl : scatter [3, 4] ⟨1, 2, #[5, 7], rfl⟩ (Table.zeros 1 6) = u :=
    hscattered fun v _ => zero_add v
  refine ⟨y, hy, hholds, ?_⟩
  obtain rfl := List.singleton_inj.1 (Except.ok.inj hy)
  rfl

/-- A zero padding of accepted samples whose padded samples have more positions
    than memory can hold places. -/
def distant : ZeroPadding := ⟨[(0x4000000000000000, 0)], .channelsLast⟩

/-- Between padding cells that no memory holds there are no places. -/
theorem interior_beyond_memory : Shape.Samples ⟨[none, some 1, some 1]⟩ [1, 1] ∧
    distant.outputShapes [⟨[none, some 1, some 1]⟩] =
      .ok [⟨[none, some 0x4000000000000001, some 1]⟩] ∧
    ¬ ∃ places, interiorPlaces distant.layout distant.padding [0x4000000000000001, 1] =
      .ok places := by
  refine ⟨⟨none, rfl⟩, rfl, fun ⟨places, h⟩ => ?_⟩
  have hnone : (interiorPlaces distant.layout distant.padding
      [0x4000000000000001, 1]).toOption.isNone := by decide +kernel
  simp [h, Except.toOption] at hnone

end ZeroPadding
end Neuroform

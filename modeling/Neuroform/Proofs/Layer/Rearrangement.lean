/-
  Neuroform — concatenation, flattening and reshaping of batches.

  Concatenation along a sample axis adds up the lengths of that axis, both in
  shapes and in arrays, and the values of every input stand behind those of the
  inputs before it (`Joined.value_part`).  Flattening and reshaping keep the values of each sample
  in their order.
-/
import Neuroform.Proofs.Layer.Matching
import Neuroform.Proofs.Layer.Pointwise

namespace Neuroform

variable {α : Type} {shapes : List Shape} {b : Nat}

/-! ## Concatenation -/

/-- The lengths of batches on an axis of their samples. -/
theorem map_axis_of_batches (a : Nat) {ins : List (List Nat)} {xs : List (Grid α)}
    (h : List.Forall₂ (fun dims x => Grid.Batch x b dims) ins xs) :
    xs.map (·.shape.getD (a + 1) 0) = ins.map (·.getD a 0) := by
  rw [← List.forall₂_eq_eq_eq, List.forall₂_map_left_iff, List.forall₂_map_right_iff]
  exact h.flip.imp fun x dims hx => by
    have hx : x.Batch b dims := hx
    simp [hx.shape]

/-- Dimensions that agree on all axes but one. -/
theorem eq_set_of_eraseIdx {a d : Nat} {ds es : List Nat} (h : ds.eraseIdx a = es.eraseIdx a)
    (hd : ds[a]? = some d) (he : a < es.length) : ds = es.set a d := by
  refine List.ext_getElem? fun n => ?_
  rw [List.getElem?_set]
  rcases lt_trichotomy n a with hn | rfl | hn
  · have := congrArg (·[n]?) h
    simp only [List.getElem?_eraseIdx, if_pos hn] at this
    rw [if_neg hn.ne', this]
  · rw [if_pos rfl, if_pos he, hd]
  · obtain ⟨k, rfl⟩ := Nat.exists_eq_add_of_lt hn
    have := congrArg (·[a + k]?) h
    simp only [List.getElem?_eraseIdx, if_neg (show ¬ a + k < a by omega)] at this
    rw [if_neg hn.ne, this]

namespace Concatenate

theorem length_joinDims {a : Nat} {ds es r : List (Option Nat)} (h : joinDims a ds es = .ok r) :
    r.length = min ds.length es.length := by
  simpa using (mapM_forall₂.1 h).length_eq.symm

/-- Lengths are added on the axis; elsewhere, an unknown one is taken from the
    other shape. -/
theorem getElem?_joinDims {a k : Nat} {ds es r : List (Option Nat)} {d e : Option Nat}
    (h : joinDims a ds es = .ok r) (hd : ds[k]? = some d) (he : es[k]? = some e) :
    r[k]? = some (if k = a then Option.map₂ (· + ·) d e else d <|> e) := by
  have hzip : (ds.zip es).zipIdx[k]? = some ((d, e), k) := by
    rw [List.getElem?_zipIdx, (List.getElem?_zip_eq_some (z := (d, e))).2 ⟨hd, he⟩]
    simp
  obtain ⟨v, hv, hr⟩ := forall₂_getElem? (mapM_forall₂.1 h) hzip
  rw [hv]
  dsimp only at hr
  by_cases hk : k = a
  · rw [if_pos hk] at hr ⊢
    cases d with
    | none => rw [← Except.ok.inj hr, Option.map₂_none_left]
    | some x =>
      cases e with
      | none => rw [← Except.ok.inj hr, Option.map₂_none_right]
      | some y =>
        obtain ⟨n, hn, rfl⟩ := map_eq_ok.1 hr
        obtain ⟨-, rfl⟩ := ofNat_eq_ok.1 hn
        rfl
  · rw [if_neg hk] at hr ⊢
    rw [Except.ok.inj hr]

/-- Lengths are added on a sample axis. -/
theorem joinDims_eq_ok {a : Nat} {batch batch' : Option Nat} {ds es : List Nat}
    {r : List (Option Nat)} (hl : ds.length = es.length)
    (h : joinDims (a + 1) (batch :: ds.map some) (batch' :: es.map some) = .ok r) :
    r = (batch <|> batch') :: (ds.set a (ds.getD a 0 + es.getD a 0)).map some := by
  have hlen : r.length = ds.length + 1 := by simp [length_joinDims h, hl]
  refine List.ext_getElem? fun k => ?_
  rcases k with _ | k
  · exact getElem?_joinDims h rfl rfl
  · by_cases hk : k < ds.length
    · have hke : k < es.length := hl ▸ hk
      rw [getElem?_joinDims h (k := k + 1) (d := some ds[k]) (e := some es[k]) (by simp [hk])
        (by simp [hke])]
      by_cases hka : k = a
      · subst hka
        simp [hk, hke]
      · simp [hka, Ne.symm hka, hk]
    · rw [List.getElem?_eq_none (by omega), List.getElem?_eq_none (by simp; omega)]

/-- Known dimensions of a join are those of the joined arrays. -/
theorem matches_joinDims {a m : Nat} {ds es r : List (Option Nat)} {ns : List Nat}
    (h : joinDims a ds es = .ok r) (hds : List.Forall₂ MatchesLength ds ns)
    (hes : List.Forall₂ MatchesLength es (ns.set a m)) (ha : a < ns.length) :
    List.Forall₂ MatchesLength r (ns.set a (ns.getD a 0 + m)) := by
  have hdl := hds.length_eq
  have hel := hes.length_eq
  rw [List.length_set] at hel
  have hrl := length_joinDims h
  refine forall₂_of_getElem? (by simp; omega) fun k v n hv hn => ?_
  have hk : k < ns.length := by simpa using (List.getElem?_eq_some_iff.1 hn).1
  obtain ⟨n₁, hn₁, hd⟩ := forall₂_getElem? hds (List.getElem?_eq_getElem (by omega : k < ds.length))
  obtain ⟨n₂, hn₂, he⟩ := forall₂_getElem? hes (List.getElem?_eq_getElem (by omega : k < es.length))
  rw [getElem?_joinDims h (List.getElem?_eq_getElem (by omega : k < ds.length))
    (List.getElem?_eq_getElem (by omega : k < es.length)), Option.some.injEq] at hv
  subst hv
  by_cases hka : k = a
  · subst hka
    obtain rfl : m = n₂ := by simpa [hk] using hn₂
    obtain rfl : ns.getD k 0 + m = n := by simpa [hk] using hn
    rw [if_pos rfl, List.getD_eq_getElem?_getD, hn₁, Option.getD_some]
    rintro l hl
    obtain ⟨x, y, hx, hy, rfl⟩ := Option.mem_map₂_iff.1 hl
    rw [hd x hx, he y hy]
  · rw [List.getElem?_set_ne (Ne.symm hka)] at hn hn₂
    obtain rfl := Option.some.inj (hn.symm.trans hn₁)
    obtain rfl := Option.some.inj (hn.symm.trans hn₂)
    rw [if_neg hka]
    cases hdk : ds[k] with
    | none => simpa [hdk] using he
    | some x => simpa [hdk] using hd

/-- The dimensions after other shapes of some rank are joined along `axis`, one
    after the other. -/
def joinAll (axis rank : Nat) (dims : List (Option Nat)) (others : List Shape) :
    Outcome (List (Option Nat)) :=
  others.foldlM (fun (dims : List (Option Nat)) (other : Shape) => do
    require (other.rank = rank) LayerCause.concatenatedRanks
    joinDims axis dims other.dims) dims

theorem joinAll_cons_eq_ok {axis rank : Nat} {dims r : List (Option Nat)} {other : Shape}
    {others : List Shape} (h : joinAll axis rank dims (other :: others) = .ok r) :
    ∃ dims', other.rank = rank ∧ joinDims axis dims other.dims = .ok dims' ∧
      joinAll axis rank dims' others = .ok r := by
  obtain ⟨dims', hd, h⟩ := foldlM_cons_eq_ok.1 h
  obtain ⟨_, hr, hd⟩ := bind_eq_ok.1 hd
  exact ⟨dims', require_eq_ok.1 hr, hd, h⟩

/-- Shapes that are joined have one rank, and keep it. -/
theorem length_joinAll {axis rank : Nat} : ∀ {others : List Shape} {dims r : List (Option Nat)},
    dims.length = rank → joinAll axis rank dims others = .ok r →
    r.length = rank ∧ ∀ s ∈ others, s.rank = rank
  | [], _, _, hl, h => by
    obtain rfl := foldlM_nil_eq_ok.1 h
    exact ⟨hl, by simp⟩
  | other :: others, dims, r, hl, h => by
    obtain ⟨dims', hr, hd, h⟩ := joinAll_cons_eq_ok h
    have hl' : dims'.length = rank := by
      rw [length_joinDims hd, hl, show other.dims.length = rank from hr, min_self]
    obtain ⟨hlength, hranks⟩ := length_joinAll hl' h
    exact ⟨hlength, by simpa [hr] using hranks⟩

/-- Two or more inputs are joined along the axis that the first one has. -/
theorem outputShapes_eq_ok {c : Concatenate} {outs : List Shape}
    (h : c.outputShapes shapes = .ok outs) : ∃ first others axis r, shapes = first :: others ∧
      axisIndex c.axis first.rank = .ok axis ∧
      joinAll axis first.rank first.dims others = .ok r ∧ outs = [⟨r⟩] := by
  obtain ⟨first, second, rest, rfl⟩ : ∃ first second rest, shapes = first :: second :: rest := by
    rcases shapes with _ | ⟨first, _ | ⟨second, rest⟩⟩
    · simp [outputShapes] at h
    · simp [outputShapes] at h
    · exact ⟨_, _, _, rfl⟩
  simp only [outputShapes, bind_eq_ok, pure_eq_ok] at h
  obtain ⟨axis, haxis, r, hr, rfl⟩ := h
  exact ⟨first, second :: rest, axis, r, rfl, haxis, hr, rfl⟩

/-- The dimensions behind all inputs. -/
theorem joinAll_eq_ok {a rank : Nat} : ∀ {others : List Shape} {ess : List (List Nat)}
    {batch : Option Nat} {ds : List Nat} {r : List (Option Nat)},
    List.Forall₂ Shape.Samples others ess → rank = ds.length + 1 → a < ds.length →
    joinAll (a + 1) rank (batch :: ds.map some) others = .ok r →
    ∃ batch', r = batch' ::
      (ds.set a (ds.getD a 0 + totalSize (ess.map (·.getD a 0)))).map some
  | [], _, batch, ds, r, .nil, _, ha, h => by
    obtain rfl := foldlM_nil_eq_ok.1 h
    exact ⟨batch, by simp [ha]⟩
  | other :: others, es :: ess, batch, ds, r, .cons he hes, hrank, ha, h => by
    obtain ⟨dims, hr, hd, h⟩ := joinAll_cons_eq_ok h
    have hl : ds.length = es.length := by
      rw [he.rank, hrank] at hr
      omega
    obtain ⟨batch', he⟩ := he
    rw [he] at hd
    obtain rfl := joinDims_eq_ok hl hd
    have hset : ∀ d : Nat, a < (ds.set a d).length := fun d => by simpa using ha
    obtain ⟨batch'', rfl⟩ := joinAll_eq_ok hes (by simpa using hrank) (hset _) h
    refine ⟨batch'', ?_⟩
    simp [ha, Nat.add_assoc]

theorem samples_outputShapes {c : Concatenate} {outs : List Shape}
    (h : c.outputShapes shapes = .ok outs)
    {ins : List (List Nat)} (hs : List.Forall₂ Shape.Samples shapes ins)
    (hbatch : ∀ s ∈ shapes, axisIndex c.axis s.rank ≠ .ok 0) :
    ∃ dims rest a s, ins = dims :: rest ∧ a < dims.length ∧
      axisIndex c.axis (dims.length + 1) = .ok (a + 1) ∧ outs = [s] ∧
      s.Samples (dims.set a (totalSize (ins.map (·.getD a 0)))) := by
  obtain ⟨first, others, axis, r, rfl, haxis, hr, rfl⟩ := outputShapes_eq_ok h
  obtain ⟨dims, ins, hd, hins, rfl⟩ := List.forall₂_cons_left_iff.1 hs
  have hlt := axisIndex_lt haxis
  rw [hd.rank] at hlt
  obtain ⟨a, rfl⟩ : ∃ a, axis = a + 1 :=
    Nat.exists_eq_succ_of_ne_zero fun h0 => hbatch first (by simp) (h0 ▸ haxis)
  have hrank := hd.rank
  obtain ⟨batch, hfirst⟩ := hd
  rw [hfirst] at hr
  obtain ⟨batch', rfl⟩ := joinAll_eq_ok hins hrank (by omega) hr
  exact ⟨dims, ins, a, _, rfl, by omega, hrank ▸ haxis, rfl, batch', by simp⟩

variable [Zero α]

/-- Inputs are joined in one grid. -/
theorem forward_eq_ok {c : Concatenate} {x : Grid α} {xs ys : List (Grid α)}
    (h : c.forward (x :: xs) = .ok ys) : ∃ axis, axisIndex c.axis x.rank = .ok axis ∧
      addressable (x.shape.set axis (totalSize ((x :: xs).map (·.shape.getD axis 0)))) ∧
      (∀ z ∈ xs, z.shape.eraseIdx axis = x.shape.eraseIdx axis) ∧
      ys = [Grid.ofFn (x.shape.set axis (totalSize ((x :: xs).map (·.shape.getD axis 0))))
        (Grid.concatenatedValue axis (x :: xs))] := by
  simp only [forward, List.head?_cons, bind_eq_ok, orRefuse_eq_ok, Option.some.injEq,
    exists_eq_left', Grid.concatenate, pure_eq_ok] at h
  obtain ⟨axis, haxis, y, ⟨common, hcommon, _, hall, joined, hj, hy⟩, rfl⟩ := h
  obtain rfl := sum_eq_ok hj
  obtain ⟨rfl, ha⟩ := Grid.arrange_eq_ok hy
  have hother : ∀ {shape r : List Nat}, Grid.otherDims axis shape = .ok r →
      r = shape.eraseIdx axis := by
    intro shape r h
    unfold Grid.otherDims at h
    split at h
    · exact (Except.ok.inj h).symm
    · simp at h
  refine ⟨axis, haxis, ha, fun z hz => ?_, rfl⟩
  obtain ⟨r, hr, hsame⟩ := bind_eq_ok.1 (forM_eq_ok.1 hall z hz)
  rw [← hother hr, ← hother hcommon]
  exact require_eq_ok.1 hsame

theorem batches_operation {c : Concatenate} (h : ∀ s ∈ shapes, axisIndex c.axis s.rank ≠ .ok 0) :
    (c.operation : Operation α).Batches b shapes := by
  intro ins outs xs ys hs ho _ hx hf
  obtain ⟨dims, rest, a, s, rfl, -, haxis, rfl, hout⟩ := samples_outputShapes ho hs h
  obtain ⟨x, xs, hxd, hxs, rfl⟩ := List.forall₂_cons_left_iff.1 hx
  obtain ⟨axis, haxis', ha, -, rfl⟩ := forward_eq_ok hf
  rw [hxd.rank] at haxis'
  obtain rfl := Except.ok.inj (haxis.symm.trans haxis')
  rw [map_axis_of_batches a hx, hxd.shape, List.set_cons_succ] at ha ⊢
  exact ⟨s, _, _, rfl, hout, rfl, rfl, ha⟩

end Concatenate

/-! ### Joined batches -/

section
variable [Zero α] {ins : List (List Nat)} {xs : List (Grid α)} {out : List Nat} {y : Grid α}

/-- The part of a concatenation that holds a coordinate is read there. -/
theorem concatenatedValue_eq {a : Nat} (g : Grid α) (rest : List (Grid α)) :
    ∀ (done : List (Grid α))
    {p : List Nat}, a < p.length → totalSize (done.map (·.shape.getD a 0)) ≤ p.getD a 0 →
    p.getD a 0 < totalSize (done.map (·.shape.getD a 0)) + g.shape.getD a 0 →
    Grid.concatenatedValue a (done ++ g :: rest) p =
      g.value (p.set a (p.getD a 0 - totalSize (done.map (·.shape.getD a 0))))
  | [], p, ha, _, hlt => by
    rw [List.nil_append, Grid.concatenatedValue, if_pos (by simpa using hlt), List.map_nil,
      totalSize_nil,
      Nat.sub_zero, List.getD_eq_getElem _ _ ha, List.set_getElem_self]
  | h :: done, p, ha, hle, hlt => by
    rw [List.map_cons, totalSize_cons] at hle hlt
    rw [List.cons_append, Grid.concatenatedValue, if_neg (by omega), List.map_cons, totalSize_cons]
    have hcoord : (p.set a (p.getD a 0 - h.shape.getD a 0)).getD a 0 =
        p.getD a 0 - h.shape.getD a 0 := by
      simp [List.getD_eq_getElem?_getD, ha]
    rw [concatenatedValue_eq g rest done (by simpa using ha) (by omega) (by omega), hcoord,
      List.set_set]
    congr 2
    omega

/-- Where an input starts on the axis along which inputs are joined: behind those
    before it. -/
def partStart (a : Nat) (ins : List (List Nat)) (k : Nat) : Nat :=
  totalSize ((ins.take k).map (·.getD a 0))

/-- A batch to which others are joined along an axis of their samples. -/
structure Joined (b a : Nat) (ins : List (List Nat)) (xs : List (Grid α)) (out : List Nat)
    (y : Grid α) : Prop where
  axis : a < out.length
  length : out.getD a 0 = partStart a ins ins.length
  inputs : List.Forall₂ (fun dims x => Grid.Batch x b dims) ins xs
  output : y.Batch b out
  others : ∀ (k : Nat) dims d, ins[k]? = some dims → dims[a]? = some d → out.set a d = dims
  value : ∀ i < b, ∀ p ∈ positions out,
    y.value (i :: p) = Grid.concatenatedValue (a + 1) xs (i :: p)

/-- A concatenation that is evaluated joins its inputs. -/
theorem joined_of_forward {c : Concatenate} {a : Nat} {dims : List Nat} {rest : List (List Nat)}
    {ys : List (Grid α)} (haxis : axisIndex c.axis (dims.length + 1) = .ok (a + 1))
    (hx : List.Forall₂ (fun dims x => Grid.Batch x b dims) (dims :: rest) xs)
    (hf : c.forward xs = .ok ys) : ∃ y, ys = [y] ∧ Joined b a (dims :: rest) xs
      (dims.set a (totalSize ((dims :: rest).map (·.getD a 0)))) y := by
  obtain ⟨x, xs, hxd, hxs, rfl⟩ := List.forall₂_cons_left_iff.1 hx
  obtain ⟨axis, haxis', haddressable, hothers, rfl⟩ := Concatenate.forward_eq_ok hf
  rw [hxd.rank] at haxis'
  obtain rfl := Except.ok.inj (haxis.symm.trans haxis')
  have ha : a < dims.length := by
    have hlt := axisIndex_lt haxis
    omega
  have hlengths := map_axis_of_batches a hx
  have hshape : x.shape.set (a + 1) (totalSize ((x :: xs).map (·.shape.getD (a + 1) 0))) =
      b :: dims.set a (totalSize ((dims :: rest).map (·.getD a 0))) := by
    rw [hlengths, hxd.shape, List.set_cons_succ]
  rw [hshape] at haddressable ⊢
  refine ⟨_, rfl, by simpa using ha, ?_, hx, ⟨rfl, haddressable⟩, fun k ds d hk hd => ?_,
    fun i hi p hp => Grid.value_ofFn _ (cons_mem_positions.2 ⟨hi, hp⟩)⟩
  · simp [partStart, List.getD_eq_getElem?_getD, ha]
  · -- the inputs agree with the output on all other axes
    obtain ⟨z, hz, hzb⟩ := forall₂_getElem? hx hk
    have herase : ds.eraseIdx a = dims.eraseIdx a := by
      rcases List.mem_cons.1 (List.mem_of_getElem? hz) with rfl | hz
      · rw [(List.cons.inj (hzb.shape.symm.trans hxd.shape)).2]
      · simpa [hzb.shape, hxd.shape] using hothers z hz
    rw [List.set_set]
    exact (eq_set_of_eraseIdx herase hd ha).symm

namespace Joined
variable {a k length : Nat} {dims : List Nat} {z : Grid α}

/-- The values from the start of an input on are those of the input. -/
theorem value_part (hj : Joined b a ins xs out y) (hk : ins[k]? = some dims)
    (hz : xs[k]? = some z) (hlength : dims[a]? = some length) {i : Nat} {p : List Nat}
    (hi : i < b) (hp : p ∈ positions out) (hle : partStart a ins k ≤ p.getD a 0)
    (hlt : p.getD a 0 < partStart a ins k + length) :
    y.value (i :: p) = z.value (i :: p.set a (p.getD a 0 - partStart a ins k)) := by
  have hlengths := map_axis_of_batches a hj.inputs
  have hbefore : totalSize ((xs.take k).map (·.shape.getD (a + 1) 0)) = partStart a ins k := by
    rw [partStart, List.map_take, hlengths, ← List.map_take]
  have hat : z.shape.getD (a + 1) 0 = length := by
    obtain ⟨x, hx, hzb⟩ := forall₂_getElem? hj.inputs hk
    obtain rfl := Option.some.inj (hz.symm.trans hx)
    simp [hzb.shape, List.getD_eq_getElem?_getD, hlength]
  have hsplit : xs = xs.take k ++ z :: xs.drop (k + 1) := by
    obtain ⟨hk', rfl⟩ := List.getElem?_eq_some_iff.1 hz
    rw [← List.drop_eq_getElem_cons hk', List.take_append_drop]
  have hread := concatenatedValue_eq (a := a + 1) (p := i :: p) z (xs.drop (k + 1)) (xs.take k)
    (by simpa [length_of_mem_positions hp] using hj.axis) (by rw [hbefore]; exact hle)
    (by rw [hbefore, hat]; exact hlt)
  rw [hj.value i hi p hp, hsplit]
  rw [hbefore] at hread
  exact hread

end Joined

end

/-! ## Flattening and reshaping -/

theorem Grid.batchVolume_eq {x : Grid α} {b : Nat} {dims : List Nat} (hb : 0 < b)
    (hx : x.shape = b :: dims) : x.batchVolume = .ok (b, volume dims) := by
  have hsize : x.size / max b 1 = volume dims := by
    rw [Grid.size, x.size_cells, hx, volume_cons, max_eq_left hb, Nat.mul_div_cancel_left _ hb]
  simp [Grid.batchVolume, hx, hsize, orFault, bind, Except.bind, pure, Except.pure]

theorem flatten_forward {x : Grid α} {b : Nat} {dims : List Nat} {ys : List (Grid α)}
    (hb : 0 < b) (hx : x.shape = b :: dims) (h : flatten.forward [x] = .ok ys) :
    ∃ y, ys = [y] ∧ y.Batch b [volume dims] ∧ y.cells = x.cells := by
  simp only [flatten, bind_eq_ok, onlyInput_eq_ok, List.cons.injEq, and_true, exists_eq_left',
    Grid.batchVolume_eq hb hx, Except.ok.injEq, pure_eq_ok] at h
  obtain ⟨y, hy, rfl⟩ := h
  obtain ⟨ha, hs, hc⟩ := Grid.reshape_eq_ok.1 hy
  exact ⟨y, rfl, ⟨hs, hs ▸ ha⟩, hc⟩

theorem batches_flatten : (flatten : Operation α).Batches b shapes := by
  refine Operation.batches_of_only (fun outs ho => ?_) fun {s dims outs x ys} _ hs ho hb hx hf => ?_
  · obtain ⟨s, hs, -⟩ := bind_eq_ok.1 ho
    exact ⟨s, onlyInput_eq_ok.1 hs⟩
  simp only [flatten, bind_eq_ok, onlyInput_eq_ok, List.cons.injEq, and_true, exists_eq_left',
    hs.withoutBatch, pure_eq_ok] at ho
  obtain ⟨batch, -, v, hv, rfl⟩ := ho
  obtain rfl := Shape.volume?_concrete hv
  obtain ⟨y, rfl, hy, -⟩ := flatten_forward hb hx.shape hf
  exact ⟨_, _, y, rfl, ⟨batch, rfl⟩, rfl, hy⟩

theorem Reshape.forward_eq_ok {r : Reshape} {x : Grid α} {b : Nat} {dims : List Nat}
    {ys : List (Grid α)} (hb : 0 < b) (hx : x.shape = b :: dims) (h : r.forward [x] = .ok ys) :
    ∃ out y, r.resolve (volume dims) = .ok out ∧ ys = [y] ∧ y.Batch b out ∧ y.cells = x.cells := by
  simp only [Reshape.forward, bind_eq_ok, onlyInput_eq_ok, List.cons.injEq, and_true,
    exists_eq_left', Grid.batchVolume_eq hb hx, Except.ok.injEq, pure_eq_ok] at h
  obtain ⟨out, ho, y, hy, rfl⟩ := h
  obtain ⟨ha, hs, hc⟩ := Grid.reshape_eq_ok.1 hy
  exact ⟨out, y, ho, rfl, ⟨hs, hs ▸ ha⟩, hc⟩

theorem Reshape.batches_operation {r : Reshape} : (r.operation : Operation α).Batches b shapes := by
  refine Operation.batches_of_only (fun outs ho => ?_) fun {s dims outs x ys} _ hs ho hb hx hf => ?_
  · obtain ⟨s, hs, -⟩ := bind_eq_ok.1 ho
    exact ⟨s, onlyInput_eq_ok.1 hs⟩
  simp only [operation, Reshape.outputShapes, bind_eq_ok, onlyInput_eq_ok, List.cons.injEq,
    and_true, exists_eq_left', hs.withoutBatch] at ho
  obtain ⟨batch, -, v, hv, ho⟩ := ho
  obtain rfl := Shape.volume?_concrete hv
  obtain ⟨out, hout, ho⟩ := bind_eq_ok.1 ho
  obtain rfl := pure_eq_ok.1 ho
  obtain ⟨out', y, hout', rfl, hy, -⟩ := Reshape.forward_eq_ok hb hx.shape hf
  obtain rfl := Except.ok.inj (hout.symm.trans hout')
  exact ⟨_, out, y, rfl, ⟨batch, rfl⟩, rfl, hy⟩

/-! ### Target shapes -/

/-- A product that is computed stays within the signed words. -/
theorem signedProduct_eq_ok {is : List Int} {k : Int} (h : Word.signedProduct is = .ok k) :
    k = is.prod ∧ k < Word.signLimit := by
  have hfold : ∀ (is : List Int) (a : Int), a < Word.signLimit →
      is.foldlM (fun n i => Word.ofInt (n * i)) a = .ok k →
      k = a * is.prod ∧ k < Word.signLimit := by
    intro is
    induction is with
    | nil =>
      intro a ha h
      obtain rfl := foldlM_nil_eq_ok.1 h
      exact ⟨by simp, ha⟩
    | cons i is ih =>
      intro a ha h
      obtain ⟨a', ha', h⟩ := foldlM_cons_eq_ok.1 h
      obtain ⟨⟨-, hlt⟩, rfl⟩ : (-(Word.signLimit : Int) ≤ a * i ∧ a * i < Word.signLimit) ∧
          a * i = a' := by
        unfold Word.ofInt at ha'
        split at ha'
        case isTrue hword => exact ⟨hword, Except.ok.inj ha'⟩
        case isFalse => simp at ha'
      obtain ⟨rfl, hk⟩ := ih _ hlt h
      exact ⟨by rw [List.prod_cons, mul_assoc], hk⟩
  simpa using hfold is 1 (by decide) h

namespace Reshape
variable {r : Reshape} {v : Nat} {dims : List Nat}

/-- A resolved target shape keeps the given dimensions, read as words, and has
    one value for all wildcards. -/
theorem resolve_eq_ok (h : r.resolve v = .ok dims) : ∃ known fill, r.known = .ok known ∧
    0 < known ∧ dims = r.targetShape.map fun d => if d = -1 then fill else Word.unsigned d := by
  simp only [resolve, bind_eq_ok, require_eq_ok, pure_eq_ok] at h
  obtain ⟨known, hknown, _, -, _, ⟨hpos, -⟩, _, -, _, -, rfl⟩ := h
  exact ⟨known, _, hknown, hpos, rfl⟩

/-- The given dimensions divide a positive signed word, so that none of them is
    beyond the words. -/
theorem unsigned_of_known {known d : Int} (h : r.known = .ok known) (hpos : 0 < known)
    (hd : d ∈ r.targetShape) (h0 : 0 ≤ d) : Word.unsigned d = d.toNat := by
  obtain ⟨rfl, hlt⟩ := signedProduct_eq_ok h
  have hdvd : d ∣ (r.targetShape.filter (· ≠ -1)).prod :=
    List.dvd_prod (List.mem_filter.2 ⟨hd, decide_eq_true (by omega)⟩)
  have hle := Int.le_of_dvd hpos hdvd
  have hword : d < Word.limit := hle.trans_lt (hlt.trans (by decide))
  rw [Word.unsigned, Int.emod_eq_of_lt h0 hword]

/-- What is known of the target shape for samples of any volume is what it is
    resolved to. -/
theorem matches_unresolved (h : r.resolve v = .ok dims) :
    List.Forall₂ MatchesLength r.unresolved dims := by
  obtain ⟨known, fill, hknown, hpos, rfl⟩ := resolve_eq_ok h
  rw [unresolved, List.forall₂_map_left_iff, List.forall₂_map_right_iff, List.forall₂_same]
  intro d hd
  by_cases h0 : d < 0
  · rw [if_pos h0]
    exact matchesLength_none _
  · rw [if_neg h0, if_neg (by omega), unsigned_of_known hknown hpos hd (by omega)]
    exact matchesLength_some.2 rfl

end Reshape

end Neuroform

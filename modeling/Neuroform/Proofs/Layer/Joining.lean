/-
  Neuroform — which inferred shapes can be evaluated.

  A layer that takes several inputs accepts their shapes and is then run on
  arrays of these shapes.  A merge compares the samples of all inputs, so it
  evaluates whatever it accepts.  A concatenation compares ranks alone: it
  evaluates exactly those of the accepted arrays whose shapes agree off its
  axis (`AgreeOff`) and refuses all others.  Along the batch axis it infers the
  samples of its first input, and stacks the rows of all of them
  (`Concatenate.forward_batches`).
-/
import Neuroform.Proofs.Layer.Inference

namespace Neuroform

variable {α : Type} {b : Nat} {ins : List (List Nat)} {xs : List (Grid α)}

/-- The shapes that the samples of some inputs have in batches of `b`. -/
def inputShapes (b : Nat) (ins : List (List Nat)) : List Shape :=
  ins.map fun dims => .concrete (b :: dims)

/-- Shapes are the same on all axes but one. -/
def AgreeOff (axis : Nat) (shapes : List (List Nat)) : Prop :=
  ∀ s ∈ shapes, ∀ t ∈ shapes, s.eraseIdx axis = t.eraseIdx axis

instance (axis : Nat) (shapes : List (List Nat)) : Decidable (AgreeOff axis shapes) :=
  inferInstanceAs (Decidable (∀ s ∈ shapes, ∀ t ∈ shapes, s.eraseIdx axis = t.eraseIdx axis))

theorem agreeOff_cons {axis : Nat} {s : List Nat} {shapes : List (List Nat)} :
    AgreeOff axis (s :: shapes) ↔ ∀ t ∈ shapes, t.eraseIdx axis = s.eraseIdx axis := by
  constructor
  · exact fun h t ht => h t (List.mem_cons_of_mem _ ht) s (by simp)
  · intro h
    have hall : ∀ t ∈ s :: shapes, t.eraseIdx axis = s.eraseIdx axis := by
      simpa using h
    exact fun t ht u hu => (hall t ht).trans (hall u hu).symm

/-- The shape of arrays that are joined along an axis. -/
def joinedShape (axis : Nat) (shapes : List (List Nat)) : List Nat :=
  (shapes.headD []).set axis (totalSize (shapes.map (·.getD axis 0)))

theorem forall₂_batch_shape (h : List.Forall₂ (fun dims x => Grid.Batch x b dims) ins xs) :
    xs.map Grid.shape = ins.map (b :: ·) := by
  rw [← List.forall₂_eq_eq_eq, List.forall₂_map_left_iff, List.forall₂_map_right_iff]
  exact h.flip.imp fun _ _ hx => hx.shape

/-! ## Merging -/

namespace Merge
variable [Scalar α]

/-- Arrays of one shape can be merged. -/
theorem exists_forward (m : Merge) {x : Grid α} (h : ∀ z ∈ xs, z.shape = x.shape) :
    ∃ y, m.forward (x :: xs) = .ok [y] ∧ y.shape = x.shape := by
  have hfold : ∃ sum, xs.foldlM (fun acc z => acc.absorb (· + ·) z) x = .ok sum ∧
      sum.shape = x.shape :=
    exists_foldlM (P := fun acc : Grid α => acc.shape = x.shape) (fun z hz acc hacc =>
      have hsum := Grid.absorb_of_shape ((h z hz).trans hacc.symm)
      ⟨_, hsum, (Grid.shape_absorb hsum).trans hacc⟩) rfl
  obtain ⟨sum, hsum, hshape⟩ := hfold
  cases m with
  | add => exact ⟨sum, bind_eq_ok.2 ⟨sum, hsum, rfl⟩, hshape⟩
  | average => exact ⟨_, bind_eq_ok.2 ⟨sum, hsum, rfl⟩, hshape⟩

/-- A merge evaluates what it accepts, to the shape that it infers. -/
theorem forward_of_accepted {m : Merge} {outs : List Shape}
    (hx : List.Forall₂ (fun dims x => Grid.Batch x b dims) ins xs)
    (h : m.outputShapes (inputShapes b ins) = .ok outs) :
    ∃ y, m.forward xs = .ok [y] ∧ outs = [.concrete y.shape] := by
  obtain ⟨first, rest, hins, rfl, hsame⟩ := Merge.outputShapes_eq_ok h
  obtain ⟨dims, ins, rfl, rfl, rfl⟩ := List.map_eq_cons_iff.1 hins
  obtain ⟨x, xs, hxd, hxs, rfl⟩ := List.forall₂_cons_left_iff.1 hx
  have hshapes : ∀ z ∈ xs, z.shape = x.shape := fun z hz => by
    obtain ⟨ds, hds, hzd⟩ := forall₂_mem_left hxs.flip z hz
    have hdims : Shape.concrete ds = .concrete dims := hsame _ (List.mem_map_of_mem hds)
    have hsome := congrArg Shape.concrete? hdims
    rw [Shape.concrete?_concrete, Shape.concrete?_concrete, Option.some.injEq] at hsome
    rw [hzd.shape, hxd.shape, hsome]
  obtain ⟨y, hy, hshape⟩ := m.exists_forward hshapes
  exact ⟨y, hy, by rw [hshape, hxd.shape]⟩

end Merge

/-! ## Concatenation -/

namespace Concatenate

/-- Known lengths are added on the axis; elsewhere those of the first shape
    stay, whatever those of the other are. -/
theorem joinDims_known {a : Nat} {ds es : List Nat} {r : List (Option Nat)}
    (hl : es.length = ds.length) (h : joinDims a (ds.map some) (es.map some) = .ok r) :
    r = (ds.set a (ds.getD a 0 + es.getD a 0)).map some := by
  have hlen : r.length = ds.length := by simp [length_joinDims h, hl]
  refine List.ext_getElem? fun k => ?_
  by_cases hk : k < ds.length
  · have hke : k < es.length := hl ▸ hk
    rw [getElem?_joinDims h (k := k) (d := some ds[k]) (e := some es[k]) (by simp [hk])
      (by simp [hke])]
    by_cases hka : k = a
    · subst hka
      simp [hk, hke]
    · simp [hka, Ne.symm hka, hk]
  · rw [List.getElem?_eq_none (by omega), List.getElem?_eq_none (by simp; omega)]

theorem joinAll_known {a rank : Nat} : ∀ {ess : List (List Nat)} {ds : List Nat}
    {r : List (Option Nat)}, rank = ds.length → a < ds.length →
    joinAll a rank (ds.map some) (ess.map .concrete) = .ok r →
    (∀ es ∈ ess, es.length = rank) ∧
      r = (ds.set a (ds.getD a 0 + totalSize (ess.map (·.getD a 0)))).map some
  | [], ds, r, _, ha, h => by
    obtain rfl := foldlM_nil_eq_ok.1 h
    simp [ha]
  | es :: ess, ds, r, hrank, ha, h => by
    obtain ⟨dims, hr, hd, h⟩ := joinAll_cons_eq_ok h
    have hl : es.length = rank := by simpa [Shape.rank, Shape.concrete] using hr
    obtain rfl := joinDims_known (hl.trans hrank) hd
    obtain ⟨hlengths, rfl⟩ := joinAll_known (by simpa using hrank) (by simpa using ha) h
    refine ⟨by simpa [hl] using hlengths, ?_⟩
    simp [ha, Nat.add_assoc]

/-- A concatenation of known shapes infers that of the joined arrays from their
    ranks alone. -/
theorem outputShapes_known {c : Concatenate} {shapes : List (List Nat)} {outs : List Shape}
    (h : c.outputShapes (shapes.map .concrete) = .ok outs) : ∃ first rest axis,
      shapes = first :: rest ∧ axisIndex c.axis first.length = .ok axis ∧
      (∀ s ∈ rest, s.length = first.length) ∧ outs = [.concrete (joinedShape axis shapes)] := by
  obtain ⟨first, others, axis, r, hshapes, haxis, hr, rfl⟩ := outputShapes_eq_ok h
  obtain ⟨ds, ess, rfl, rfl, rfl⟩ := List.map_eq_cons_iff.1 hshapes
  have hrank : (Shape.concrete ds).rank = ds.length := by simp [Shape.rank, Shape.concrete]
  rw [hrank] at haxis
  obtain ⟨hlengths, rfl⟩ := joinAll_known hrank (axisIndex_lt haxis) hr
  refine ⟨ds, ess, axis, rfl, haxis, fun s hs => (hlengths s hs).trans hrank, ?_⟩
  simp [joinedShape, Shape.concrete]

section
variable {c : Concatenate} {axis : Nat} {x : Grid α}

/-- Parts that have the axis are compared on the others. -/
theorem forM_otherDims {common : List Nat} (h : ∀ z ∈ xs, axis < z.shape.length) :
    (xs.forM fun z => do
      require ((← Grid.otherDims axis z.shape) = common) Cause.arrangement : Outcome Unit) =
      if ∀ z ∈ xs, z.shape.eraseIdx axis = common then .ok () else refuse Cause.arrangement := by
  induction xs with
  | nil => simp [List.forM, pure, Except.pure]
  | cons z xs ih =>
    have hz : Grid.otherDims axis z.shape = .ok (z.shape.eraseIdx axis) := if_pos (h z (by simp))
    change ((Grid.otherDims axis z.shape >>= fun ds => require (ds = common) _) >>= fun _ =>
      xs.forM _) = _
    rw [hz, ih fun y hy => h y (List.mem_cons_of_mem _ hy)]
    by_cases hd : z.shape.eraseIdx axis = common
    · simp [require, bind, Except.bind, hd]
    · simp [require, refuse, bind, Except.bind, hd]

theorem agreeOff_shapes : AgreeOff axis ((x :: xs).map Grid.shape) ↔
    ∀ z ∈ xs, z.shape.eraseIdx axis = x.shape.eraseIdx axis := by
  simp [agreeOff_cons]

theorem joinedShape_shapes : joinedShape axis ((x :: xs).map Grid.shape) =
    x.shape.set axis (totalSize ((x :: xs).map (·.shape.getD axis 0))) := by
  simp [joinedShape, Function.comp_def]

variable [Zero α]

/-- Arrays that agree off the axis are joined, if there are arrays of the joined
    shape. -/
theorem exists_forward (haxis : axisIndex c.axis x.rank = .ok axis)
    (hrank : ∀ z ∈ xs, z.rank = x.rank) (h : AgreeOff axis ((x :: xs).map Grid.shape))
    (ha : addressable (joinedShape axis ((x :: xs).map Grid.shape))) :
    ∃ y, c.forward (x :: xs) = .ok [y] ∧
      y.shape = joinedShape axis ((x :: xs).map Grid.shape) := by
  have hlt : axis < x.shape.length := axisIndex_lt haxis
  have hxs : ∀ z ∈ xs, axis < z.shape.length := fun z hz => hlt.trans_eq (hrank z hz).symm
  rw [joinedShape_shapes] at ha ⊢
  have hmem : totalSize ((x :: xs).map (·.shape.getD axis 0)) ∈
      x.shape.set axis (totalSize ((x :: xs).map (·.shape.getD axis 0))) :=
    List.mem_set hlt _
  have hsum : Word.sum ((x :: xs).map (·.shape.getD axis 0)) =
      .ok (totalSize ((x :: xs).map (·.shape.getD axis 0))) :=
    ofNat_eq_ok.2 ⟨(lt_of_addressable ha hmem).trans (by decide), rfl⟩
  have hjoined : Grid.concatenate axis (x :: xs) = .ok (Grid.ofFn _ _) :=
    bind_eq_ok.2 ⟨_, if_pos hlt, bind_eq_ok.2 ⟨(),
      (forM_otherDims hxs).trans (if_pos (agreeOff_shapes.1 h)),
      bind_eq_ok.2 ⟨_, hsum, bind_eq_ok.2 ⟨(), require_eq_ok.2 ha, rfl⟩⟩⟩⟩
  exact ⟨_, bind_eq_ok.2 ⟨x, rfl, bind_eq_ok.2 ⟨axis, haxis, bind_eq_ok.2 ⟨_, hjoined, rfl⟩⟩⟩, rfl⟩

/-- Arrays that disagree off the axis are refused. -/
theorem forward_of_not_agreeOff (haxis : axisIndex c.axis x.rank = .ok axis)
    (hrank : ∀ z ∈ xs, z.rank = x.rank) (h : ¬ AgreeOff axis ((x :: xs).map Grid.shape)) :
    c.forward (x :: xs) = refuse Cause.arrangement := by
  have hlt : axis < x.shape.length := axisIndex_lt haxis
  have hxs : ∀ z ∈ xs, axis < z.shape.length := fun z hz => hlt.trans_eq (hrank z hz).symm
  have hother : Grid.otherDims axis x.shape = .ok (x.shape.eraseIdx axis) := if_pos hlt
  have hcompare := (forM_otherDims hxs).trans (if_neg (mt agreeOff_shapes.2 h))
  have hrefused : Grid.concatenate axis (x :: xs) = refuse Cause.arrangement := by
    refine bind_eq_error.2 (.inr ⟨_, hother, bind_eq_error.2 (.inl hcompare)⟩)
  exact bind_eq_error.2 (.inr ⟨x, rfl, bind_eq_error.2 (.inr ⟨axis, haxis,
    bind_eq_error.2 (.inl hrefused)⟩)⟩)

/-- Of what a concatenation accepts, it evaluates what agrees off its axis, as
    long as there are arrays of the shape that it infers. -/
theorem forward_of_accepted {outs : List Shape}
    (hx : List.Forall₂ (fun dims x => Grid.Batch x b dims) ins xs)
    (h : c.outputShapes (inputShapes b ins) = .ok outs) : ∃ axis,
      (∀ dims ∈ ins, axisIndex c.axis (dims.length + 1) = .ok axis) ∧
      outs = [.concrete (joinedShape axis (ins.map (b :: ·)))] ∧
      ((∃ ys, c.forward xs = .ok ys) ↔ AgreeOff axis (ins.map (b :: ·)) ∧
        addressable (joinedShape axis (ins.map (b :: ·)))) ∧
      (∀ ys, c.forward xs = .ok ys → ∃ y, ys = [y] ∧ outs = [.concrete y.shape]) ∧
      (¬ AgreeOff axis (ins.map (b :: ·)) → c.forward xs = refuse Cause.arrangement) := by
  have hconcrete : inputShapes b ins = (ins.map (b :: ·)).map .concrete := by
    simp [inputShapes]
  obtain ⟨_, _, axis, hins, haxis, hlengths, rfl⟩ := outputShapes_known (hconcrete ▸ h)
  obtain ⟨dims, ins, rfl, rfl, rfl⟩ := List.map_eq_cons_iff.1 hins
  obtain ⟨x, xs, hxd, -, rfl⟩ := List.forall₂_cons_left_iff.1 hx
  have hshapes : (x :: xs).map Grid.shape = (dims :: ins).map (b :: ·) := forall₂_batch_shape hx
  have hranks : ∀ ds ∈ ins, ds.length = dims.length := by simpa using hlengths
  have hrank : ∀ z ∈ xs, z.rank = x.rank := fun z hz => by
    obtain ⟨ds, hds, hzd⟩ := forall₂_mem_left hx.flip z (List.mem_cons_of_mem _ hz)
    rw [hzd.rank, hxd.rank]
    rcases List.mem_cons.1 hds with rfl | hds
    · rfl
    · rw [hranks ds hds]
  rw [List.length_cons, ← hxd.rank] at haxis
  have hjoined : ∀ ys, c.forward (x :: xs) = .ok ys →
      AgreeOff axis ((x :: xs).map Grid.shape) ∧
      addressable (joinedShape axis ((x :: xs).map Grid.shape)) ∧
      ∃ y, ys = [y] ∧ y.shape = joinedShape axis ((x :: xs).map Grid.shape) := fun ys hf => by
    obtain ⟨axis', haxis', ha, hagree, rfl⟩ := forward_eq_ok hf
    obtain rfl := Except.ok.inj (haxis.symm.trans haxis')
    rw [joinedShape_shapes]
    exact ⟨agreeOff_shapes.2 hagree, ha, _, rfl, rfl⟩
  rw [← hshapes]
  refine ⟨axis, fun ds hds => ?_, rfl, ⟨?_, ?_⟩, fun ys hf => ?_, ?_⟩
  · rw [← haxis, hxd.rank]
    rcases List.mem_cons.1 hds with rfl | hds
    · rfl
    · rw [hranks ds hds]
  · rintro ⟨ys, hf⟩
    exact ⟨(hjoined ys hf).1, (hjoined ys hf).2.1⟩
  · rintro ⟨hagree, ha⟩
    obtain ⟨y, hy, -⟩ := exists_forward haxis hrank hagree ha
    exact ⟨[y], hy⟩
  · obtain ⟨-, -, y, rfl, hy⟩ := hjoined ys hf
    exact ⟨y, rfl, by rw [hy]⟩
  · exact forward_of_not_agreeOff haxis hrank

/-! ### Along the batch axis -/

omit [Zero α] in
/-- Off the axis, lengths of the first shape that are known stay. -/
theorem getElem?_joinAll {rank k d : Nat} (hk : k ≠ axis) : ∀ {others : List Shape}
    {dims r : List (Option Nat)}, dims.length = rank → joinAll axis rank dims others = .ok r →
    dims[k]? = some (some d) → r[k]? = some (some d)
  | [], dims, r, _, h, hd => by
    obtain rfl := foldlM_nil_eq_ok.1 h
    exact hd
  | other :: others, dims, r, hl, h, hd => by
    obtain ⟨dims', hr, hjoin, h⟩ := joinAll_cons_eq_ok h
    have hother : other.dims.length = rank := hr
    have hlt : k < other.dims.length := by
      rw [hother, ← hl]
      exact (List.getElem?_eq_some_iff.1 hd).1
    have hd' := getElem?_joinDims hjoin hd (List.getElem?_eq_getElem hlt)
    rw [if_neg hk] at hd'
    exact getElem?_joinAll hk (by simp [length_joinDims hjoin, hl, hother]) h hd'

omit [Zero α] in
/-- Inputs whose batches are joined are inferred to give samples like those of
    the first one. -/
theorem samples_of_batches {shapes : List Shape} {s : Shape} {out : List Nat}
    (h : c.outputShapes shapes = .ok [s]) (hs : List.Forall₂ Shape.Samples shapes ins)
    (hout : s.Samples out) (haxis : axisIndex c.axis (out.length + 1) = .ok 0) :
    ∃ dims rest, ins = out :: dims :: rest := by
  obtain ⟨first, others, axis, r, rfl, hfirst, hr, hsingle⟩ := outputShapes_eq_ok h
  obtain rfl := List.singleton_inj.1 hsingle
  have hseveral : others ≠ [] := by
    rintro rfl
    simp [outputShapes] at h
  obtain ⟨dims, rest, hdims, hrest, rfl⟩ := List.forall₂_cons_left_iff.1 hs
  obtain ⟨dims', rest, rfl⟩ := List.exists_cons_of_ne_nil fun hnil : rest = [] => by
    subst hnil
    exact hseveral (List.forall₂_nil_right_iff.1 hrest)
  have hlength : out.length + 1 = dims.length + 1 := by
    rw [← hout.rank, ← hdims.rank]
    exact (length_joinAll rfl hr).1
  rw [hdims.rank, ← hlength] at hfirst
  obtain rfl := Except.ok.inj (haxis.symm.trans hfirst)
  refine ⟨dims', rest, congrArg (· :: _) (List.ext_getElem (by omega) fun k hk hk' => ?_)⟩
  obtain ⟨batch, hfirst⟩ := hdims
  obtain ⟨batch', hjoined⟩ := hout
  have hread := getElem?_joinAll (k := k + 1) (d := dims[k]) (Nat.succ_ne_zero k) rfl hr
    (by simp [hfirst, hk])
  have hjoined : r = batch' :: out.map some := hjoined
  simpa [hjoined, hk'] using hread.symm

/-- Batches that are joined are stacked. -/
theorem forward_batches {dims : List Nat} {ys : List (Grid α)}
    (haxis : axisIndex c.axis (dims.length + 1) = .ok 0)
    (hx : List.Forall₂ (fun dims x => Grid.Batch x b dims) (dims :: ins) xs)
    (h : c.forward xs = .ok ys) : ∃ y, ys = [y] ∧ y.shape = (dims :: ins).length * b :: dims := by
  have hrows : ∀ z ∈ xs, z.shape.getD 0 0 = b := fun z hz => by
    obtain ⟨ds, -, hzd⟩ := forall₂_mem_left hx.flip z hz
    rw [hzd.shape]
    rfl
  obtain ⟨x, xs, hxd, -, rfl⟩ := List.forall₂_cons_left_iff.1 hx
  obtain ⟨axis, haxis', -, -, rfl⟩ := forward_eq_ok h
  rw [hxd.rank] at haxis'
  obtain rfl := Except.ok.inj (haxis.symm.trans haxis')
  refine ⟨_, rfl, ?_⟩
  change x.shape.set 0 _ = _
  rw [hxd.shape, List.set_cons_zero, List.map_congr_left hrows, hx.length_eq, List.map_const']
  exact congrArg (· :: dims) List.sum_replicate_nat

end
end Concatenate

/-! ## Accepted inputs -/

/-- **Merges evaluate whatever they accept, concatenations only what agrees.**
    For batches of accepted shapes a merge has a result of the inferred shape.
    A concatenation has one if the shapes agree off its axis and arrays can
    have the inferred shape; it refuses arrays that disagree. -/
theorem evaluates_accepted [Scalar α]
    (hx : List.Forall₂ (fun dims x => Grid.Batch x b dims) ins xs) :
    (∀ (m : Merge) outs, m.outputShapes (inputShapes b ins) = .ok outs →
      ∃ y, m.forward xs = .ok [y] ∧ outs = [.concrete y.shape]) ∧
    ∀ (c : Concatenate) outs, c.outputShapes (inputShapes b ins) = .ok outs → ∃ axis,
      (∀ dims ∈ ins, axisIndex c.axis (dims.length + 1) = .ok axis) ∧
      outs = [.concrete (joinedShape axis (ins.map (b :: ·)))] ∧
      ((∃ ys, c.forward xs = .ok ys) ↔ AgreeOff axis (ins.map (b :: ·)) ∧
        addressable (joinedShape axis (ins.map (b :: ·)))) ∧
      (∀ ys, c.forward xs = .ok ys → ∃ y, ys = [y] ∧ outs = [.concrete y.shape]) ∧
      (¬ AgreeOff axis (ins.map (b :: ·)) → c.forward xs = refuse Cause.arrangement) :=
  ⟨fun _ _ => Merge.forward_of_accepted hx, fun _ _ => Concatenate.forward_of_accepted hx⟩

/-- Columns of two and of three values have no common row for a concatenation
    along the last axis, which accepts their shapes. -/
theorem evaluates_accepted_columns :
    (⟨-1⟩ : Concatenate).outputShapes (inputShapes 1 [[2, 1], [3, 1]]) =
      .ok [.concrete [1, 2, 2]] ∧
    (⟨-1⟩ : Concatenate).forward [(Grid.fill [1, 2, 1] 0 : Grid ℚ), Grid.fill [1, 3, 1] 0] =
      refuse Cause.arrangement := by
  have hfill : ∀ dims, addressable (1 :: dims) → (Grid.fill (1 :: dims) (0 : ℚ)).Batch 1 dims :=
    fun _ h => ⟨rfl, h⟩
  have hx : List.Forall₂ (fun dims (x : Grid ℚ) => x.Batch 1 dims) [[2, 1], [3, 1]]
      [Grid.fill [1, 2, 1] 0, Grid.fill [1, 3, 1] 0] :=
    .cons (hfill [2, 1] (by decide)) (.cons (hfill [3, 1] (by decide)) .nil)
  have ho : (⟨-1⟩ : Concatenate).outputShapes (inputShapes 1 [[2, 1], [3, 1]]) =
      .ok [.concrete [1, 2, 2]] := toOption_eq_some.1 (by decide +kernel)
  obtain ⟨axis, haxis, -, -, -, hrefused⟩ := (evaluates_accepted hx).2 _ _ ho
  have hlast : axisIndex (-1) 3 = .ok 2 := rfl
  obtain rfl := Except.ok.inj (hlast.symm.trans (haxis [2, 1] (by simp)))
  exact ⟨ho, hrefused (by decide)⟩

end Neuroform

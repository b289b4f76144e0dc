/-
  Neuroform — layers do the same for every channel layout.

  A batch with its channels last is moved to one with its channels first
  (`Grid.channelsToFront`).  Convolutions, poolings, up-samplings and zero
  paddings that expect channels first do to the moved batch what those that
  expect channels last do to the batch, sample by sample
  (`Grid.mapSamples_channelsToFront`).  Only entries are moved, and no law of
  arithmetic is needed.
-/
import Neuroform.Proofs.Layer.Sampling

namespace Neuroform

/-! ## Outcomes without their messages -/

section
variable {β β' γ γ' : Type}

theorem toOption_bind (x : Outcome β) (f : β → Outcome γ) :
    (x >>= f).toOption = x.toOption.bind fun b => (f b).toOption := by
  cases x <;> rfl

theorem toOption_map (f : β → γ) (x : Outcome β) : (f <$> x).toOption = x.toOption.map f := by
  cases x <;> rfl

/-- A computation whose steps give images of the results of another's steps
    gives the image of its result. -/
theorem toOption_bind_map {x : Outcome β} {y : Outcome β'} {f : β → Outcome γ}
    {f' : β' → Outcome γ'} {k : β → β'} {m : γ → γ'} (hx : y.toOption = x.toOption.map k)
    (hf : ∀ b, (f' (k b)).toOption = (f b).toOption.map m) :
    (y >>= f').toOption = (x >>= f).toOption.map m := by
  rw [toOption_bind, toOption_bind, hx]
  cases x.toOption with
  | none => rfl
  | some b => exact hf b

theorem toOption_bind_same {x x' : Outcome β} {f : β → Outcome γ} {f' : β → Outcome γ'}
    {m : γ → γ'} (hx : x'.toOption = x.toOption)
    (hf : ∀ b, (f' b).toOption = (f b).toOption.map m) :
    (x' >>= f').toOption = (x >>= f).toOption.map m :=
  toOption_bind_map (hx.trans Option.map_id'.symm) hf

theorem toOption_mapM {f : β → Outcome γ} {f' : β → Outcome γ'} {m : γ → γ'} :
    ∀ {bs : List β}, (∀ b ∈ bs, (f' b).toOption = (f b).toOption.map m) →
      (bs.mapM f').toOption = (bs.mapM f).toOption.map (List.map m)
  | [], _ => rfl
  | b :: bs, h => by
    rw [List.mapM_cons, List.mapM_cons]
    refine toOption_bind_map (h b (by simp)) fun c => ?_
    exact toOption_bind_map (toOption_mapM fun b hb => h b (List.mem_cons_of_mem _ hb)) fun _ => rfl

end

/-! ## Moving channels to the front -/

/-- Moves the last entry, that of the channels, behind the first, that of the
    batch. -/
def channelsToFront {β : Type} : List β → List β
  | [] => []
  | b :: xs => b :: Layout.channelsFirst.fromLast xs

/-- Moves the second entry to the end. -/
def channelsToBack {β : Type} : List β → List β
  | [] => []
  | b :: xs => b :: Layout.channelsFirst.toLast xs

/-- The batch with its last axis moved behind the first. -/
def Grid.channelsToFront {α : Type} [Zero α] (x : Grid α) : Grid α :=
  ofFn (Neuroform.channelsToFront x.shape) fun p => x.value (channelsToBack p)

/-- The shape of batches with their last axis moved behind the first. -/
def Shape.channelsToFront (s : Shape) : Shape := ⟨Neuroform.channelsToFront s.dims⟩

namespace Layout
variable {β γ δ : Type} {l : Layout}

theorem mem_positions_fromLast {p dims : List Nat} :
    p ∈ positions (l.fromLast dims) ↔ l.toLast p ∈ positions dims := by
  rw [← mem_positions_toLast (l := l), toLast_fromLast]

theorem zipWith_fromLast {f : β → γ → δ} {xs : List β} {ys : List γ} (h : xs.length = ys.length) :
    List.zipWith f (l.fromLast xs) (l.fromLast ys) = l.fromLast (List.zipWith f xs ys) := by
  rcases List.eq_nil_or_concat xs with rfl | ⟨xs, x, rfl⟩
  · obtain rfl := List.length_eq_zero_iff.1 h.symm
    cases l <;> rfl
  rcases List.eq_nil_or_concat ys with rfl | ⟨ys, y, rfl⟩
  · simp at h
  have hlen : xs.length = ys.length := by simpa using h
  rw [List.concat_eq_append, List.concat_eq_append, List.zipWith_append hlen]
  exact zipWith_join hlen

end Layout

section
variable {β γ δ : Type}

@[simp] theorem channelsToFront_channelsToBack (xs : List β) :
    channelsToFront (channelsToBack xs) = xs := by
  cases xs with
  | nil => rfl
  | cons b xs => exact congrArg (b :: ·) (Layout.fromLast_toLast .channelsFirst xs)

@[simp] theorem channelsToBack_channelsToFront (xs : List β) :
    channelsToBack (channelsToFront xs) = xs := by
  cases xs with
  | nil => rfl
  | cons b xs => exact congrArg (b :: ·) (Layout.toLast_fromLast .channelsFirst xs)

theorem channelsToFront_perm (xs : List β) : (channelsToFront xs).Perm xs := by
  cases xs with
  | nil => exact .refl _
  | cons b xs => exact (Layout.fromLast_perm .channelsFirst xs).cons b

@[simp] theorem length_channelsToFront (xs : List β) :
    (channelsToFront xs).length = xs.length := (channelsToFront_perm xs).length_eq

@[simp] theorem length_channelsToBack (xs : List β) : (channelsToBack xs).length = xs.length := by
  rw [← length_channelsToFront, channelsToFront_channelsToBack]

theorem map_channelsToFront (f : β → γ) (xs : List β) :
    (channelsToFront xs).map f = channelsToFront (xs.map f) := by
  cases xs with
  | nil => rfl
  | cons b xs => exact congrArg (f b :: ·) (Layout.map_fromLast f xs)

theorem zipWith_channelsToFront {f : β → γ → δ} {xs : List β} {ys : List γ}
    (h : xs.length = ys.length) : List.zipWith f (channelsToFront xs) (channelsToFront ys) =
      channelsToFront (List.zipWith f xs ys) := by
  rcases xs with _ | ⟨x, xs⟩ <;> rcases ys with _ | ⟨y, ys⟩
  · rfl
  · simp at h
  · simp at h
  · exact congrArg (f x y :: ·) (Layout.zipWith_fromLast (by simpa using h))

theorem mem_positions_channelsToFront {p dims : List Nat} :
    p ∈ positions (channelsToFront dims) ↔ channelsToBack p ∈ positions dims := by
  rcases p with _ | ⟨i, p⟩ <;> rcases dims with _ | ⟨d, dims⟩
  · rfl
  · simp [channelsToFront, channelsToBack, mem_positions]
  · simp [channelsToFront, channelsToBack, mem_positions]
  · exact cons_mem_positions.trans
      ((and_congr_right fun _ => Layout.mem_positions_fromLast).trans cons_mem_positions.symm)

end

namespace Grid
variable {α : Type} [Zero α] {x y : Grid α} {b : Nat} {dims p : List Nat}

theorem ofFn_value (x : Grid α) : ofFn x.shape x.value = x :=
  ext_values rfl fun _ hp => value_ofFn _ hp

@[simp] theorem toLast_channelsLast (x : Grid α) : x.toLast .channelsLast = x := x.ofFn_value

@[simp] theorem fromLast_channelsLast (x : Grid α) : x.fromLast .channelsLast = x := x.ofFn_value

@[simp] theorem toLast_fromLast (l : Layout) (x : Grid α) : (x.fromLast l).toLast l = x := by
  refine ext_values (l.toLast_fromLast x.shape) fun p hp => ?_
  rw [value_toLast hp, value_fromLast, Layout.toLast_fromLast]
  rwa [Layout.mem_positions_fromLast, Layout.toLast_fromLast, ← l.toLast_fromLast x.shape]

/-- A grid of moved values is a moved grid. -/
theorem ofFn_fromLast (l : Layout) (dims : List Nat) {v v' : List Nat → α}
    (hv : ∀ p ∈ positions (l.fromLast dims), v' p = v (l.toLast p)) :
    ofFn (l.fromLast dims) v' = (ofFn dims v).fromLast l := by
  refine ext_values rfl fun p (hp : p ∈ positions (l.fromLast dims)) => ?_
  have hback : l.toLast p ∈ positions dims := Layout.mem_positions_fromLast.1 hp
  rw [value_ofFn _ hp, hv p hp, value_fromLast hp, value_ofFn _ hback]

theorem rank_fromLast (l : Layout) (x : Grid α) : (x.fromLast l).rank = x.rank :=
  (l.fromLast_perm x.shape).length_eq

theorem rank_channelsToFront (x : Grid α) : x.channelsToFront.rank = x.rank :=
  (channelsToFront_perm x.shape).length_eq

theorem value_channelsToFront (hp : p ∈ positions (Neuroform.channelsToFront x.shape)) :
    x.channelsToFront.value p = x.value (channelsToBack p) := value_ofFn _ hp

/-- The samples are moved one by one. -/
theorem sample_channelsToFront (hx : x.shape = b :: dims) {i : Nat} (hi : i < b) :
    x.channelsToFront.sample i = (x.sample i).fromLast .channelsFirst := by
  have hs : (x.sample i).shape = dims := congrArg List.tail hx
  have hfront : x.channelsToFront.shape = b :: Layout.channelsFirst.fromLast dims :=
    congrArg Neuroform.channelsToFront hx
  have hs' : (x.channelsToFront.sample i).shape = Layout.channelsFirst.fromLast dims :=
    congrArg List.tail hfront
  refine ext_values (hs'.trans (congrArg _ hs.symm)) fun p hp => ?_
  rw [hs'] at hp
  rw [value_sample hfront hp, value_channelsToFront (hx ▸ cons_mem_positions.2 ⟨hi, hp⟩),
    value_fromLast (hs.symm ▸ hp), value_sample hx (Layout.mem_positions_fromLast.1 hp)]
  rfl

theorem samples_channelsToFront (hx : x.shape = b :: dims) : x.channelsToFront.samples =
    .ok (((List.range b).map x.sample).map (fromLast .channelsFirst)) := by
  have hfront : x.channelsToFront.shape = b :: Layout.channelsFirst.fromLast dims :=
    congrArg Neuroform.channelsToFront hx
  rw [samples, hfront, List.map_map]
  refine congrArg Except.ok (List.map_congr_left fun i hi => ?_)
  exact sample_channelsToFront hx (List.mem_range.1 hi)

theorem ofFn_channelsToFront {v v' : List Nat → α}
    (hv : ∀ p ∈ positions (Neuroform.channelsToFront dims), v' p = v (channelsToBack p)) :
    ofFn (Neuroform.channelsToFront dims) v' = (ofFn dims v).channelsToFront := by
  refine ext_values rfl fun p (hp : p ∈ positions (Neuroform.channelsToFront dims)) => ?_
  have hback : channelsToBack p ∈ positions dims := mem_positions_channelsToFront.1 hp
  rw [value_ofFn _ hp, hv p hp, value_channelsToFront hp, value_ofFn _ hback]

theorem arrange_channelsToFront (dims : List Nat) {v v' : List Nat → α}
    (hv : ∀ p ∈ positions (Neuroform.channelsToFront dims), v' p = v (channelsToBack p)) :
    (arrange (Neuroform.channelsToFront dims) v').toOption =
      (arrange dims v).toOption.map channelsToFront := by
  rw [arrange, arrange, addressable_perm (channelsToFront_perm dims), ofFn_channelsToFront hv]
  by_cases ha : addressable dims = true
  · rw [require, if_pos ha]
    rfl
  · rw [require, if_neg ha]
    rfl

/-- Moved samples make up a moved batch. -/
theorem stack_fromLast (gs : List (Grid α)) :
    (stack (gs.map (fromLast .channelsFirst))).toOption =
      (stack gs).toOption.map channelsToFront := by
  rcases gs with _ | ⟨g, gs⟩
  · rfl
  have hshapes : ((gs.map (fromLast .channelsFirst)).all fun h =>
      h.shape = (g.fromLast .channelsFirst).shape) = gs.all fun h => h.shape = g.shape := by
    rw [List.all_map]
    refine List.all_congr rfl fun h => decide_eq_decide.2 ?_
    exact (Function.LeftInverse.injective (Layout.toLast_fromLast .channelsFirst)).eq_iff
  simp only [stack, List.map_cons, hshapes]
  by_cases hall : (gs.all fun h => h.shape = g.shape) = true
  case neg =>
    rw [if_neg hall, if_neg hall]
    rfl
  rw [if_pos hall, if_pos hall, List.length_cons, List.length_cons, List.length_map]
  refine arrange_channelsToFront ((gs.length + 1) :: g.shape) fun q hq => ?_
  obtain ⟨i, p, hi, hp, rfl⟩ := List.forall₂_cons_right_iff.1 (mem_positions.1 hq)
  have hp : p ∈ positions (Layout.channelsFirst.fromLast g.shape) := mem_positions.2 hp
  have hget : ((g :: gs).map (fromLast .channelsFirst)).getD i (g.fromLast .channelsFirst) =
      ((g :: gs).getD i g).fromLast .channelsFirst := List.getD_map ..
  have hshape : ((g :: gs).getD i g).shape = g.shape := by
    cases i with
    | zero => rfl
    | succ i =>
      rw [List.getD_cons_succ, List.getD_eq_getElem _ _ (Nat.lt_of_succ_lt_succ hi)]
      exact of_decide_eq_true (List.all_eq_true.1 hall _ (List.getElem_mem _))
  change (((g :: gs).map (fromLast .channelsFirst)).getD i (g.fromLast .channelsFirst)).value p = _
  rw [hget, value_fromLast (hshape ▸ hp)]
  rfl

/-- What is done to each sample of a batch, and to each moved sample of the moved
    batch. -/
theorem mapSamples_channelsToFront {f g : Grid α → Outcome (Grid α)} (hx : x.shape = b :: dims)
    (h : ∀ s, s.shape = dims →
      (f (s.fromLast .channelsFirst)).toOption = (g s).toOption.map (fromLast .channelsFirst)) :
    (x.channelsToFront.mapSamples f).toOption =
      (x.mapSamples g).toOption.map channelsToFront := by
  have hsamples : x.samples = .ok ((List.range b).map x.sample) := by rw [samples, hx]
  rw [mapSamples, mapSamples, samples_channelsToFront hx, hsamples]
  change ((List.mapM f _) >>= stack).toOption = ((List.mapM g _) >>= stack).toOption.map _
  rw [List.mapM_map]
  refine toOption_bind_map (toOption_mapM fun s hs => ?_) stack_fromLast
  obtain ⟨i, -, rfl⟩ := List.mem_map.1 hs
  exact h _ (congrArg List.tail hx)

/-- What is the same for each sample and the moved sample. -/
theorem mapSamples_same {f g : Grid α → Outcome (Grid α)} (hx : x.shape = b :: dims)
    (h : ∀ s, f (s.fromLast .channelsFirst) = g s) :
    x.channelsToFront.mapSamples f = x.mapSamples g := by
  have hsamples : x.samples = .ok ((List.range b).map x.sample) := by rw [samples, hx]
  rw [mapSamples, mapSamples, samples_channelsToFront hx, hsamples]
  change (List.mapM f _) >>= stack = (List.mapM g _) >>= stack
  rw [List.mapM_map, show f ∘ fromLast .channelsFirst = g from funext h]

/-- There is no batch without samples. -/
theorem pos_of_mapSamples {f : Grid α → Outcome (Grid α)} (hx : x.shape = b :: dims)
    (h : x.mapSamples f = .ok y) : 0 < b := by
  rcases Nat.eq_zero_or_pos b with rfl | hb
  · have hsamples : x.samples = .ok [] := by rw [samples, hx]; rfl
    rw [mapSamples, hsamples] at h
    cases h
  · exact hb

/-- A function that has results of the same shapes makes a batch as well. -/
theorem exists_mapSamples_of_shapes {f g : Grid α → Outcome (Grid α)} (hx : x.shape = b :: dims)
    (hg : ∀ s z, f s = .ok z → ∃ z', g s = .ok z' ∧ z'.shape = z.shape)
    (h : x.mapSamples f = .ok y) : ∃ y', x.mapSamples g = .ok y' := by
  have hb := pos_of_mapSamples hx h
  obtain ⟨out, hy, hsample⟩ := mapSamples_eq_ok hb hx h
  refine exists_mapSamples hb hx (hy.shape ▸ hy.addressable) fun i hi => ?_
  obtain ⟨z, hz, rfl, -⟩ := hsample i hi
  exact hg _ z hz

/-- One axis alone is not moved. -/
theorem fromLast_ofList (l : Layout) (xs : List α) : (ofList xs).fromLast l = ofList xs := by
  have hshape : l.fromLast [xs.length] = [xs.length] := by cases l <;> rfl
  refine ext_values hshape fun p hp => ?_
  have hp : p ∈ positions (l.fromLast [xs.length]) := hp
  rw [value_fromLast hp]
  rw [hshape] at hp
  obtain ⟨i, q, -, hq, rfl⟩ := List.forall₂_cons_right_iff.1 (mem_positions.1 hp)
  obtain rfl := List.forall₂_nil_right_iff.1 hq
  cases l <;> rfl

/-- Functions of channels-last samples do not notice the layout. -/
theorem throughLast_fromLast (f : Grid α → Outcome (Grid α)) (hx : x.rank ≠ 0) :
    ((x.fromLast .channelsFirst).throughLast .channelsFirst f).toOption =
      (x.throughLast .channelsLast f).toOption.map (fromLast .channelsFirst) := by
  have hrank : ¬ (Layout.channelsFirst = .channelsFirst ∧ (x.fromLast .channelsFirst).rank = 0) :=
    fun h => hx (x.rank_fromLast .channelsFirst ▸ h.2)
  rw [throughLast, throughLast, if_neg hrank, if_neg (by simp), toLast_fromLast,
    toLast_channelsLast]
  refine toOption_bind_same rfl fun z => ?_
  rw [fromLast_channelsLast]
  rfl

end Grid
end Neuroform

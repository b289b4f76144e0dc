/-
  Neuroform — views of views.

  A view shows a position of its object at each of its places
  (`View.position?`).  A slice picks places of a view, in any order and any number
  of times, so that a slice of a slice is a slice at composed places.  Reading
  through a slice is reading twice; adding to a slice adds up what is at places of
  one position.
-/
import Neuroform.Proofs.Network.Equations

namespace Neuroform
namespace View

/-! ## Slices -/

/-- The position of its object that a view shows at a place. -/
def position? (v : View) (k : Nat) : Option Nat :=
  match v.indices with
  | none => some k
  | some indices => indices[k]?

variable {v w : View} {is js ks mine : List Nat} {o : ObjectId}

/-- A slice shows the positions at the places that it picks. -/
theorem slice_eq_ok_iff : v.slice is = .ok w ↔
    ∃ ps, w = ⟨v.object, some ps⟩ ∧ List.Forall₂ (fun i p => v.position? i = some p) is ps := by
  obtain ⟨o, mine | mine⟩ := v
  · have hself : ∀ {ps}, List.Forall₂ (fun i p => some i = some p) is ps ↔ is = ps := by
      simp [List.forall₂_eq_eq_eq]
    simp only [slice, position?, pure_eq_ok, hself]
    constructor
    · rintro rfl
      exact ⟨is, rfl, rfl⟩
    · rintro ⟨ps, rfl, rfl⟩
      rfl
  · simp only [slice, position?, bind_eq_ok, pure_eq_ok, mapM_forall₂, orRefuse_eq_ok]
    constructor
    · rintro ⟨ps, hps, rfl⟩
      exact ⟨ps, rfl, hps⟩
    · rintro ⟨ps, rfl, hps⟩
      exact ⟨ps, hps, rfl⟩

/-- A place of a slice is one of the view, if there is an index for it. -/
theorem position?_slice (h : v.slice is = .ok w) (c : Nat) :
    w.position? c = is[c]?.bind v.position? := by
  obtain ⟨ps, rfl, hps⟩ := slice_eq_ok_iff.1 h
  change ps[c]? = _
  cases hc : is[c]? with
  | none =>
    have hle : ps.length ≤ c := hps.length_eq ▸ List.getElem?_eq_none_iff.1 hc
    rw [List.getElem?_eq_none hle, Option.bind_none]
  | some i =>
    obtain ⟨p, hp, hposition⟩ := forall₂_getElem? hps hc
    rw [hp, Option.bind_some, hposition]

/-- Picking places of a list of positions fails at the first one outside of it. -/
theorem slice_eq_error_iff {e : Failure} : (View.mk o (some mine)).slice ks = .error e ↔
    ∃ k, ks.find? (mine.length ≤ ·) = some k ∧
      refuse (NetworkCause.indexOutOfView k mine.length) = (.error e : Outcome Nat) := by
  have hmapM : (View.mk o (some mine)).slice ks = .error e ↔ ks.mapM (fun i =>
      orRefuse mine[i]? (NetworkCause.indexOutOfView i mine.length)) = .error e := by
    simp only [slice, bind_eq_error]
    constructor
    · rintro (h | ⟨_, -, h⟩)
      · exact h
      · cases h
    · exact .inl
  rw [hmapM]
  clear hmapM
  -- places are read one after the other, up to the first one outside
  induction ks with
  | nil => simp [pure, Except.pure]
  | cons k ks ih =>
    rw [List.mapM_cons, List.find?_cons]
    by_cases hk : mine.length ≤ k
    · rw [List.getElem?_eq_none hk]
      simp [orRefuse, refuse, bind, Except.bind, hk]
    · rw [List.getElem?_eq_getElem (not_le.1 hk), decide_eq_false hk]
      simp only [← ih, bind_eq_error]
      constructor
      · rintro (h | ⟨p, -, h | ⟨_, -, h⟩⟩)
        · cases h
        · exact h
        · cases h
      · exact fun h => .inr ⟨_, rfl, .inl h⟩

/-- Picking places of a list of positions fails, if one of them is outside of it. -/
theorem slice_fails_iff : (∃ e, (View.mk o (some mine)).slice ks = .error e) ↔
    ∃ k ∈ ks, mine.length ≤ k := by
  simp only [slice_eq_error_iff]
  constructor
  · rintro ⟨e, k, hfind, -⟩
    exact ⟨k, List.mem_of_find?_eq_some hfind, by simpa using List.find?_some hfind⟩
  · rintro ⟨k, hk, hle⟩
    have hsome : (ks.find? (mine.length ≤ ·)).isSome := by
      rw [List.find?_isSome]
      exact ⟨k, hk, decide_eq_true hle⟩
    obtain ⟨first, hfirst⟩ := Option.isSome_iff_exists.1 hsome
    exact ⟨_, first, hfirst, rfl⟩

theorem slice_succeeds_iff : (∃ u, (View.mk o (some mine)).slice ks = .ok u) ↔
    ∀ k ∈ ks, k < mine.length := by
  have hfails := @slice_fails_iff ks mine o
  constructor
  · rintro ⟨u, hu⟩ k hk
    by_contra hle
    obtain ⟨e, he⟩ := hfails.2 ⟨k, hk, not_lt.1 hle⟩
    simp [hu] at he
  · intro hall
    cases h : (View.mk o (some mine)).slice ks with
    | ok u => exact ⟨u, rfl⟩
    | error e =>
      obtain ⟨k, hk, hle⟩ := hfails.1 ⟨e, h⟩
      exact absurd (hall k hk) (not_lt.2 hle)

/-- A slice can be sliced at its own places. -/
theorem slice_slice_succeeds_iff (h : v.slice is = .ok w) :
    (∃ u, w.slice js = .ok u) ↔ ∀ j ∈ js, j < is.length := by
  obtain ⟨ps, rfl, hps⟩ := slice_eq_ok_iff.1 h
  rw [hps.length_eq]
  exact slice_succeeds_iff

/-- Slicing a slice is slicing at composed places. -/
theorem slice_slice (h : v.slice is = .ok w) (hjs : ∀ j ∈ js, j < is.length) :
    w.slice js = v.slice (js.map fun j => is.getD j 0) := by
  have hobject : w.object = v.object := by
    obtain ⟨ps, rfl, -⟩ := slice_eq_ok_iff.1 h
    rfl
  have hposition : ∀ j ∈ js, w.position? j = v.position? (is.getD j 0) := by
    intro j hj
    rw [position?_slice h, List.getElem?_eq_getElem (hjs j hj), Option.bind_some,
      List.getD_eq_getElem _ _ (hjs j hj)]
  obtain ⟨u, hu⟩ := (slice_slice_succeeds_iff h).2 hjs
  obtain ⟨qs, rfl, hqs⟩ := slice_eq_ok_iff.1 hu
  rw [hu, eq_comm, slice_eq_ok_iff]
  refine ⟨qs, by rw [hobject], List.forall₂_map_left_iff.2 ?_⟩
  rw [List.forall₂_iff_get] at hqs ⊢
  refine ⟨hqs.1, fun c hc hc' => ?_⟩
  rw [← hposition _ (List.get_mem _ _)]
  exact hqs.2 c hc hc'

/-! ## Reading and adding through slices -/

section
variable {α : Type} [Zero α] {size n : Nat} {t x y : Table α}

omit [Zero α] in
/-- A view shows a position of its object at each place. -/
theorem Shows.exists_position (hv : v.Shows size n) {k : Nat} (hk : k < n) :
    ∃ p < size, v.position? k = some p := by
  obtain ⟨o, mine | mine⟩ := v
  · obtain rfl : n = size := hv
    exact ⟨k, hk, rfl⟩
  · obtain ⟨rfl, hin⟩ := hv
    exact ⟨mine[k], hin _ (List.getElem_mem hk), List.getElem?_eq_getElem hk⟩

theorem Shows.slice (hv : v.Shows size n) (his : ∀ i ∈ is, i < n) (h : v.slice is = .ok w) :
    w.Shows size is.length := by
  have hposition := position?_slice h
  obtain ⟨ps, rfl, hps⟩ := slice_eq_ok_iff.1 h
  refine ⟨hps.length_eq, fun p hp => ?_⟩
  obtain ⟨c, hc⟩ := List.mem_iff_getElem?.1 hp
  obtain ⟨i, hi, hip⟩ := Option.bind_eq_some_iff.1 ((hposition c).symm.trans hc)
  obtain ⟨q, hq, hiq⟩ := hv.exists_position (his i (List.mem_of_getElem? hi))
  obtain rfl := Option.some.inj (hip.symm.trans hiq)
  exact hq

/-- The values that a view shows are those at its positions. -/
theorem select_eq (hv : v.Shows t.columns n) : v.select t =
    .ok (Table.ofFn t.rows n fun r k => t.value r ((v.position? k).getD 0)) := by
  obtain ⟨o, mine | mine⟩ := v
  · obtain rfl : n = t.columns := hv
    exact congrArg _ t.ofFn_value.symm
  · obtain ⟨rfl, hin⟩ := hv
    exact if_pos (by simpa using hin)

/-- Selecting through a slice is selecting twice. -/
theorem select_slice (h : v.slice is = .ok w) (hv : v.Shows t.columns n) (his : ∀ i ∈ is, i < n) :
    ∃ x y, v.select t = .ok x ∧ x.selectColumns is = .ok y ∧ w.select t = .ok y := by
  refine ⟨_, _, select_eq hv, if_pos ?_, (select_eq (hv.slice his h)).trans ?_⟩
  · exact List.all_eq_true.2 fun i hi => decide_eq_true (his i hi)
  refine congrArg _ (Table.ofFn_congr fun r hr c hc => ?_)
  have hcn : is[c] < n := his _ (List.getElem_mem hc)
  rw [position?_slice h, List.getElem?_eq_getElem hc, Option.bind_some,
    List.getD_eq_getElem _ _ hc, Table.value_ofFn _ hr hcn]

omit [Zero α] in
/-- The places of a position are those at which a view shows it. -/
theorem places_eq_filter (ps : List Nat) (j : Nat) : (View.mk o (some ps)).places j =
    (List.range ps.length).filter fun c => ps[c]? = some j := by
  have hrange : List.range ps.length = ps.zipIdx.map (·.2) := by
    rw [List.zipIdx_map_snd, List.range_eq_range']
  rw [places, hrange, List.filter_map]
  refine congrArg _ (List.filter_congr fun e he => ?_)
  have := List.mem_zipIdx_iff_getElem?.1 he
  simp [this]

variable [Add α]

/-- Adding to a slice adds each column to the position that the slice shows at its
    place, one after the other. -/
theorem accumulate_slice (h : v.slice is = .ok w) (hy : y.Sized x.rows is.length) :
    ∃ z, w.accumulate y x = .ok z ∧ z.Sized x.rows x.columns ∧
      ∀ r < x.rows, ∀ j < x.columns, z.value r j =
        ((List.range is.length).filter fun c => is[c]?.bind v.position? = some j).foldl
          (fun sum c => sum + y.value r c) (x.value r j) := by
  have hposition := position?_slice h
  obtain ⟨ps, rfl, hps⟩ := slice_eq_ok_iff.1 h
  refine ⟨scatter ps y x, if_pos (hps.length_eq ▸ hy.columns.ge), ⟨rfl, rfl⟩, fun r hr j hj => ?_⟩
  have hplaces : ((List.range is.length).filter fun c => is[c]?.bind v.position? = some j) =
      (View.mk v.object (some ps)).places j := by
    rw [places_eq_filter, hps.length_eq]
    refine List.filter_congr fun c _ => ?_
    rw [← hposition]
    rfl
  rw [hplaces, scatter, Table.value_ofFn _ hr hj, places, List.foldl_map, List.foldl_filter]
  simp only [decide_eq_true_eq]

/-- Views compose.  A slice of a view has a place for each index that it was made
    from: slicing it once more succeeds at these places and is slicing the view at
    the composed ones.  As long as the view and the indices lie in the values, it
    reads what reading twice reads, and adds each column to the position of its
    index, repeated positions adding up.  Lists of positions are not sliced outside
    of them. -/
theorem slices_compose :
    (∀ (v w : View) (is : List Nat), v.slice is = .ok w →
      (∀ js, (∃ u, w.slice js = .ok u) ↔ ∀ j ∈ js, j < is.length) ∧
      (∀ js, (∀ j ∈ js, j < is.length) → w.slice js = v.slice (js.map fun j => is.getD j 0)) ∧
      ∀ (t : Table α) n, v.Shows t.columns n → (∀ i ∈ is, i < n) →
        (∃ x y, v.select t = .ok x ∧ x.selectColumns is = .ok y ∧ w.select t = .ok y) ∧
        ∀ y : Table α, y.Sized t.rows is.length →
          ∃ z, w.accumulate y t = .ok z ∧ z.Sized t.rows t.columns ∧
            ∀ r < t.rows, ∀ j < t.columns, z.value r j =
              ((List.range is.length).filter fun c => is[c]?.bind v.position? = some j).foldl
                (fun sum c => sum + y.value r c) (t.value r j)) ∧
    ∀ (o : ObjectId) (mine ks : List Nat),
      (∃ e, (View.mk o (some mine)).slice ks = .error e) ↔ ∃ k ∈ ks, mine.length ≤ k := by
  constructor
  · intro v w is h
    refine ⟨fun js => slice_slice_succeeds_iff h, fun js hjs => slice_slice h hjs, ?_⟩
    intro t n hv his
    exact ⟨select_slice h hv his, fun y hy => accumulate_slice h hy⟩
  · intro o mine ks
    exact slice_fails_iff

end

/-- Positions five and seven are the second and the last of four; what is added to
    the slice that shows the fifth position twice adds up there. -/
theorem slices_compose_of_four :
    (View.mk ⟨3⟩ (some [4, 5, 6, 7])).slice [1, 3, 1] = .ok ⟨⟨3⟩, some [5, 7, 5]⟩ ∧
    (View.mk ⟨3⟩ (some [5, 7, 5])).slice [1, 2] =
      (View.mk ⟨3⟩ (some [4, 5, 6, 7])).slice [3, 1] ∧
    ((∀ i ∈ [4, 5, 6, 7], i < 8) ∧ ∃ z, (View.mk ⟨3⟩ (some [5, 7, 5])).accumulate
      (Table.ofFn 1 3 fun _ c => (10 ^ c : ℤ)) (Table.zeros 1 8) = .ok z ∧ z.value 0 5 = 101) ∧
    ∃ e, (View.mk ⟨3⟩ (some [4, 5, 6, 7])).slice [4] = .error e := by
  obtain ⟨hslice, hfails⟩ := @slices_compose ℤ _ _
  have hok : (View.mk ⟨3⟩ (some [4, 5, 6, 7])).slice [1, 3, 1] = .ok ⟨⟨3⟩, some [5, 7, 5]⟩ := rfl
  obtain ⟨-, hcompose, htables⟩ := hslice _ _ _ hok
  obtain ⟨-, hadds⟩ := htables (Table.zeros 1 8) 4 ⟨rfl, by decide⟩ (by decide)
  obtain ⟨z, hz, -, hvalue⟩ := hadds (Table.ofFn 1 3 fun _ c => 10 ^ c) ⟨rfl, rfl⟩
  refine ⟨hok, hcompose _ (by decide), ⟨by decide, z, hz, ?_⟩, (hfails _ _ _).2 ⟨4, by simp⟩⟩
  exact (hvalue 0 (by decide) 5 (by decide)).trans (by decide)

end View
end Neuroform

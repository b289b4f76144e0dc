/-
  Neuroform — tables of swaps.

  The equality of nonlinearities goes back to that of numbers, which may tell a
  number apart from itself.  In a table that is accepted no two entries swap
  equal nonlinearities, so at most one of them matches, wherever it stands
  (`swaps_reordered`).
-/
import Neuroform.Conversion.Settings
import Neuroform.Proofs.Extended
import Neuroform.Proofs.Outcome

namespace Neuroform

variable {α : Type}

/-! ## Equality of nonlinearities -/

section
variable [BEq α] [PartialEquivBEq α]

theorem list_beq_symm : ∀ {xs ys : List α}, (xs == ys) = true → (ys == xs) = true
  | [], [], _ => rfl
  | x :: xs, y :: ys, h => by
    rw [List.cons_beq_cons, Bool.and_eq_true] at h ⊢
    exact ⟨PartialEquivBEq.symm h.1, list_beq_symm h.2⟩

theorem list_beq_trans : ∀ {xs ys zs : List α}, (xs == ys) = true → (ys == zs) = true →
    (xs == zs) = true
  | [], [], [], _, _ => rfl
  | x :: xs, y :: ys, z :: zs, h, h' => by
    rw [List.cons_beq_cons, Bool.and_eq_true] at h h' ⊢
    exact ⟨PartialEquivBEq.trans h.1 h'.1, list_beq_trans h.2 h'.2⟩

instance partialEquivList : PartialEquivBEq (List α) := ⟨list_beq_symm, list_beq_trans⟩

instance partialEquivOption : PartialEquivBEq (Option α) where
  symm {x y} h := by
    cases x <;> cases y <;> simp at h ⊢
    exact PartialEquivBEq.symm h
  trans {x y z} h h' := by
    cases x <;> cases y <;> cases z <;> simp at h h' ⊢
    exact PartialEquivBEq.trans h h'

instance : PartialEquivBEq (Neuron α) where
  symm {m n} h := by
    change m.beq n = true at h
    change n.beq m = true
    simp only [Neuron.beq, Bool.and_eq_true] at h ⊢
    exact ⟨⟨PartialEquivBEq.symm h.1.1, PartialEquivBEq.symm h.1.2⟩, PartialEquivBEq.symm h.2⟩
  trans {m n o} h h' := by
    change m.beq n = true at h
    change n.beq o = true at h'
    change m.beq o = true
    simp only [Neuron.beq, Bool.and_eq_true] at h h' ⊢
    exact ⟨⟨PartialEquivBEq.trans h.1.1 h'.1.1, PartialEquivBEq.trans h.1.2 h'.1.2⟩,
      PartialEquivBEq.trans h.2 h'.2⟩

omit [PartialEquivBEq α] in
/-- Equal nonlinearities are one activation, or two equal neuron types. -/
theorem Nonlinearity.beq_iff {m n : Nonlinearity α} : (m == n) = true ↔
    (∃ a, m = .activation a ∧ n = .activation a) ∨
      ∃ x y, m = .neuron x ∧ n = .neuron y ∧ (x == y) = true := by
  change m.beq n = true ↔ _
  cases m with
  | activation a =>
    cases n with
    | activation b => simp [Nonlinearity.beq, @eq_comm _ b a]
    | neuron y => simp [Nonlinearity.beq]
  | neuron x => cases n <;> simp [Nonlinearity.beq]

instance : PartialEquivBEq (Nonlinearity α) where
  symm {m n} h := by
    obtain ⟨a, rfl, rfl⟩ | ⟨x, y, rfl, rfl, h⟩ := Nonlinearity.beq_iff.1 h
    · exact h
    · exact Nonlinearity.beq_iff.2 (.inr ⟨y, x, rfl, rfl, PartialEquivBEq.symm h⟩)
  trans {m n o} h h' := by
    obtain ⟨a, rfl, rfl⟩ | ⟨x, y, rfl, rfl, h⟩ := Nonlinearity.beq_iff.1 h
    · exact h'
    · obtain ⟨a, ha, -⟩ | ⟨y', z, hy, rfl, h'⟩ := Nonlinearity.beq_iff.1 h'
      · cases ha
      · cases hy
        exact Nonlinearity.beq_iff.2 (.inr ⟨x, z, rfl, rfl, PartialEquivBEq.trans h h'⟩)

end

/-! ## Tables -/

section
variable {κ β : Type} [BEq κ] [PartialEquivBEq κ]

/-- In a table no two of whose keys are equal, an entry is found if and only if
    its key matches. -/
theorem find?_eq_some_iff {table : List (κ × β)}
    (htable : table.Pairwise fun e e' => (e.1 == e'.1) = false) {k : κ} {e : κ × β} :
    table.find? (·.1 == k) = some e ↔ e ∈ table ∧ (e.1 == k) = true := by
  induction table with
  | nil => simp
  | cons e₀ table ih =>
    obtain ⟨hfirst, hrest⟩ := List.pairwise_cons.1 htable
    rw [List.find?_cons]
    cases hk : e₀.1 == k with
    | false =>
      rw [ih hrest, List.mem_cons]
      refine ⟨fun ⟨he, hmatch⟩ => ⟨.inr he, hmatch⟩, fun ⟨he, hmatch⟩ => ⟨?_, hmatch⟩⟩
      refine he.resolve_left ?_
      rintro rfl
      simp [hk] at hmatch
    | true =>
      -- a later match would be equal to this one
      constructor
      · intro he
        obtain rfl := Option.some.inj he
        exact ⟨List.mem_cons_self .., hk⟩
      · rintro ⟨he, hmatch⟩
        rcases List.mem_cons.1 he with rfl | he
        · rfl
        · have hequal : (e₀.1 == e.1) = true :=
            PartialEquivBEq.trans hk (PartialEquivBEq.symm hmatch)
          simp [hfirst e he] at hequal

/-- The order of such a table has no say in what is found. -/
theorem find?_perm {table table' : List (κ × β)}
    (htable : table.Pairwise fun e e' => (e.1 == e'.1) = false) (hperm : table.Perm table')
    (k : κ) : table'.find? (·.1 == k) = table.find? (·.1 == k) := by
  have htable' : table'.Pairwise fun e e' => (e.1 == e'.1) = false :=
    (hperm.pairwise_iff fun h => BEq.comm.trans h).1 htable
  refine Option.ext fun e => ?_
  rw [find?_eq_some_iff htable', find?_eq_some_iff htable, hperm.mem_iff]

end

namespace Settings

/-- Nothing is swapped again if and only if all entries swap something else. -/
theorem swappedAgain?_eq_none [BEq α] {ns : List (Nonlinearity α)} :
    ∀ {earlier : List (Nonlinearity α)}, swappedAgain? earlier ns = none ↔
      (∀ m ∈ earlier, ∀ n ∈ ns, (m == n) = false) ∧ ns.Pairwise fun m n => (m == n) = false := by
  induction ns with
  | nil => simp [swappedAgain?]
  | cons n ns ih =>
    intro earlier
    rw [swappedAgain?, List.pairwise_cons]
    split
    case isTrue h =>
      obtain ⟨m, hm, hmn⟩ := List.any_eq_true.1 h
      refine iff_of_false nofun ?_
      rintro ⟨hearlier, -⟩
      simp [hearlier m hm n (List.mem_cons_self ..)] at hmn
    case isFalse h =>
      have hnew : ∀ m ∈ earlier, (m == n) = false := by simpa using h
      rw [ih]
      simp only [List.mem_append, List.mem_cons, List.not_mem_nil, or_false]
      constructor
      · rintro ⟨hboth, hrest⟩
        refine ⟨?_, fun n' hn' => hboth n (.inr rfl) n' hn', hrest⟩
        rintro m hm n' (rfl | hn')
        · exact hnew m hm
        · exact hboth m (.inl hm) n' hn'
      · rintro ⟨hearlier, hn, hrest⟩
        refine ⟨?_, hrest⟩
        rintro m (hm | rfl) n' hn'
        · exact hearlier m hm n' (.inr hn')
        · exact hn n' hn'

/-- A table in which no two entries swap equal nonlinearities. -/
def Distinct [BEq α] (swaps : List (Nonlinearity α × Nonlinearity α)) : Prop :=
  swaps.Pairwise fun e e' => (e.1 == e'.1) = false

theorem distinct_iff [BEq α] {swaps : List (Nonlinearity α × Nonlinearity α)} :
    Distinct swaps ↔ swappedAgain? [] (swaps.map (·.1)) = none := by
  rw [Distinct, swappedAgain?_eq_none, List.pairwise_map]
  simp

variable [Scalar α] {s : Settings α}

theorem distinct_of_validate (h : s.validate = .ok ()) : Distinct s.swaps := by
  rw [distinct_iff]
  cases hagain : swappedAgain? [] (s.swaps.map (·.1)) with
  | none => rfl
  | some n =>
    -- whatever else is checked before, this is refused
    unfold validate at h
    rw [hagain] at h
    dsimp only at h
    split at h
    · cases h
    · split at h
      · obtain ⟨-, -, h⟩ := bind_eq_ok.1 h
        cases h
      · cases h

/-- The order of swaps has no say in what else is checked. -/
theorem validate_of_distinct (hs : Distinct s.swaps)
    {swaps : List (Nonlinearity α × Nonlinearity α)} (hswaps : Distinct swaps) :
    { s with swaps }.validate = s.validate := by
  unfold validate
  rw [distinct_iff.1 hs, distinct_iff.1 hswaps]

/-- **The table of swaps is a function**: in settings that are accepted every
    entry that matches gives the replacement.  They are accepted with their swaps
    in any other order, and then swap every nonlinearity alike, before and after
    its native counterpart is taken. -/
theorem swaps_reordered [PartialEquivBEq α] (h : s.validate = .ok ())
    {swaps : List (Nonlinearity α × Nonlinearity α)} (hperm : s.swaps.Perm swaps) :
    (∀ e ∈ s.swaps, ∀ n, (e.1 == n) = true → s.swap n = e.2) ∧
      { s with swaps }.validate = .ok () ∧ (∀ n, { s with swaps }.swap n = s.swap n) ∧
      ∀ n, { s with swaps }.target n = s.target n := by
  have htable : Distinct s.swaps := distinct_of_validate h
  have htable' : Distinct swaps := (hperm.pairwise_iff fun h => BEq.comm.trans h).1 htable
  have hswap : ∀ n, { s with swaps }.swap n = s.swap n := by
    intro n
    rw [swap, swap, find?_perm htable hperm]
  refine ⟨fun e he n hmatch => ?_, ?_, hswap, fun n => ?_⟩
  · rw [swap, (find?_eq_some_iff htable).2 ⟨he, hmatch⟩]
    rfl
  · exact (validate_of_distinct htable htable').trans h
  · simp only [target, hswap]

/-- Settings that swap a leaky type whose slope is no number twice, which are
    two types, and the type that stands for a rectifier. -/
def unequalSlopes : Settings Extended :=
  { Settings.standard with swaps := [(.neuron (.leaky .nan 1), .activation .linear),
    (.neuron (.rectified 1), .neuron (.spikingRectified 1)),
    (.neuron (.leaky .nan 1), .activation .softmax)] }

/-- They are accepted in either order, and no entry matches such a type. -/
theorem swaps_reordered_unequal : unequalSlopes.validate = .ok () ∧
    { unequalSlopes with swaps := unequalSlopes.swaps.reverse }.validate = .ok () ∧
    unequalSlopes.swap (.neuron (.leaky .nan 1)) = .neuron (.leaky .nan 1) ∧
    { unequalSlopes with swaps := unequalSlopes.swaps.reverse }.swap (.neuron (.leaky .nan 1)) =
      .neuron (.leaky .nan 1) ∧
    { unequalSlopes with swaps := unequalSlopes.swaps.reverse }.target (.activation .relu) =
      .neuron (.spikingRectified 1) := by
  have hvalid : unequalSlopes.validate = .ok () := by cbv
  have hsame : unequalSlopes.swap (.neuron (.leaky .nan 1)) = .neuron (.leaky .nan 1) := by cbv
  have hrelu : unequalSlopes.target (.activation .relu) = .neuron (.spikingRectified 1) := by cbv
  obtain ⟨-, hvalid', hswap, htarget⟩ :=
    swaps_reordered hvalid (List.reverse_perm unequalSlopes.swaps).symm
  exact ⟨hvalid, hvalid', hsame, (hswap _).trans hsame, (htarget _).trans hrelu⟩

end Settings
end Neuroform

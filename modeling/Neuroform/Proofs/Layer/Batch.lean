/-
  Neuroform — batches and the shapes that stand for them.

  A batched shape with known sample dimensions (`Shape.Samples`) stands for
  arrays with one sample of these dimensions after the other (`Grid.Batch`).
  Layers that run on each sample, or on channels-last samples, are described by
  what they do to one sample (`mapSamples_eq_ok`, `throughLast_eq_ok`).
-/
import Neuroform.Layer.Kind
import Neuroform.Proofs.Grid
import Neuroform.Proofs.Outcome

namespace Neuroform

variable {α : Type} {β : Type}

/-- A shape of samples with known dimensions, behind a batch dimension. -/
def Shape.Samples (s : Shape) (dims : List Nat) : Prop := ∃ batch, s.dims = batch :: dims.map some

/-- An array of samples, of a shape that arrays have. -/
structure Grid.Batch (x : Grid α) (b : Nat) (dims : List Nat) : Prop where
  shape : x.shape = b :: dims
  addressable : addressable x.shape = true

/-- From batches of the samples that its input shapes stand for, an operation
    makes one batch of the samples that its only output shape stands for. -/
def Operation.Batches (op : Operation α) (b : Nat) (shapes : List Shape) : Prop :=
  ∀ {ins : List (List Nat)} {outs : List Shape} {xs ys : List (Grid α)},
    List.Forall₂ Shape.Samples shapes ins → op.outputShapes shapes = .ok outs → 0 < b →
    List.Forall₂ (fun dims x => Grid.Batch x b dims) ins xs → op.forward xs = .ok ys →
    ∃ s out y, outs = [s] ∧ s.Samples out ∧ ys = [y] ∧ y.Batch b out

@[simp] theorem onlyInput_eq_ok {layer : String} {xs : List β} {x : β} :
    onlyInput layer xs = .ok x ↔ xs = [x] := by
  rcases xs with _ | ⟨y, _ | ⟨z, xs⟩⟩ <;> simp [onlyInput]

theorem Shape.Samples.rank {s : Shape} {dims : List Nat} (h : s.Samples dims) :
    s.rank = dims.length + 1 := by
  obtain ⟨batch, h⟩ := h
  simp [Shape.rank, h]

theorem Shape.Samples.withoutBatch {s : Shape} {dims : List Nat} (h : s.Samples dims) :
    s.withoutBatch = Shape.concrete dims := by
  obtain ⟨batch, h⟩ := h
  simp [Shape.withoutBatch, Shape.concrete, h]

theorem Shape.concrete?_concrete (dims : List Nat) :
    (Shape.concrete dims).concrete? = some dims := by
  simp only [Shape.concrete?, Shape.concrete]
  induction dims with
  | nil => rfl
  | cons d ds ih => simp [ih]

theorem Shape.volume?_concrete {dims : List Nat} {v : Option Nat}
    (h : (Shape.concrete dims).volume? = .ok v) : v = some (volume dims) := by
  have htake : ((Shape.concrete dims).dims.takeWhile Option.isSome).filterMap id = dims := by
    have hall : ∀ ds : List Nat, (ds.map some).takeWhile Option.isSome = ds.map some := by
      intro ds
      induction ds with
      | nil => rfl
      | cons d ds ih => simp [ih]
    simp [Shape.concrete, hall]
  obtain ⟨known, hk, h⟩ := bind_eq_ok.1 h
  rw [htake] at hk
  obtain rfl := product_eq_ok hk
  rw [if_pos (by simp [Shape.isConcrete, Shape.concrete])] at h
  exact (pure_eq_ok.1 h).symm

theorem Shape.Samples.unique {s : Shape} {dims dims' : List Nat} (h : s.Samples dims)
    (h' : s.Samples dims') : dims = dims' := by
  have := h.withoutBatch.symm.trans h'.withoutBatch
  have := congrArg Shape.concrete? this
  simpa [Shape.concrete?_concrete] using this

theorem Grid.Batch.rank {x : Grid α} {b : Nat} {dims : List Nat} (h : x.Batch b dims) :
    x.rank = dims.length + 1 := by
  simp [Grid.rank, h.shape]

/-- The values of a sample stand behind those of the samples before it. -/
theorem Grid.Batch.index_lt {x : Grid α} {b i m : Nat} {dims : List Nat} (h : x.Batch b dims)
    (hi : i < b) (hm : m < volume dims) : i * volume dims + m < x.size := by
  rw [Grid.size, x.size_cells, h.shape, volume_cons]
  calc i * volume dims + m < i * volume dims + volume dims := Nat.add_lt_add_left hm _
    _ = (i + 1) * volume dims := (Nat.succ_mul i _).symm
    _ ≤ b * volume dims := Nat.mul_le_mul_right _ hi

theorem Grid.Batch.value_cells [Zero α] {x : Grid α} {b : Nat} {dims : List Nat}
    (h : x.Batch b dims) (i : Nat) (p : List Nat) :
    x.value (i :: p) = x.cells.getD (i * volume dims + offset dims p) 0 := by
  rw [Grid.value, h.shape]
  rfl

/-! ## Channel layouts -/

namespace Layout
variable {l : Layout} {xs ys : List β}

@[simp] theorem fromLast_toLast (l : Layout) (xs : List β) : l.fromLast (l.toLast xs) = xs := by
  cases l with
  | channelsLast => rfl
  | channelsFirst => cases xs <;> simp [toLast, fromLast]

@[simp] theorem toLast_fromLast (l : Layout) (xs : List β) : l.toLast (l.fromLast xs) = xs := by
  cases l with
  | channelsLast => rfl
  | channelsFirst =>
    rcases List.eq_nil_or_concat xs with rfl | ⟨ys, c, rfl⟩
    · rfl
    · simp [toLast, fromLast]

theorem map_toLast {γ : Type} (f : β → γ) (xs : List β) :
    (l.toLast xs).map f = l.toLast (xs.map f) := by
  cases l with
  | channelsLast => rfl
  | channelsFirst => cases xs <;> simp [toLast]

theorem map_fromLast {γ : Type} (f : β → γ) (xs : List β) :
    (l.fromLast xs).map f = l.fromLast (xs.map f) := by
  cases l with
  | channelsLast => rfl
  | channelsFirst =>
    rcases List.eq_nil_or_concat xs with rfl | ⟨ys, c, rfl⟩ <;> simp [fromLast]

theorem forall₂_toLast {γ : Type} {R : β → γ → Prop} {cs : List γ} :
    List.Forall₂ R (l.toLast xs) (l.toLast cs) ↔ List.Forall₂ R xs cs := by
  cases l with
  | channelsLast => rfl
  | channelsFirst =>
    rcases xs with _ | ⟨x, xs⟩ <;> rcases cs with _ | ⟨c, cs⟩
    · simp [toLast]
    · simp [toLast]
    · simp [toLast]
    · simp only [toLast, List.forall₂_cons]
      constructor
      · intro h
        have hl : xs.length = cs.length := by simpa using h.length_eq
        have hfront := List.forall₂_take_append _ _ _ h
        have hback := List.forall₂_drop_append _ _ _ h
        rw [← hl, List.take_left' rfl] at hfront
        rw [← hl, List.drop_left' rfl] at hback
        exact ⟨by simpa using hback, hfront⟩
      · rintro ⟨h, h'⟩
        exact List.rel_append h' (.cons h .nil)

theorem mem_positions_toLast {p dims : List Nat} :
    l.toLast p ∈ positions (l.toLast dims) ↔ p ∈ positions dims := by
  rw [mem_positions, mem_positions, forall₂_toLast]

@[simp] theorem length_toLast (l : Layout) (xs : List β) : (l.toLast xs).length = xs.length := by
  cases l with
  | channelsLast => rfl
  | channelsFirst => cases xs <;> simp [toLast]

theorem toLast_perm (l : Layout) (xs : List β) : (l.toLast xs).Perm xs := by
  cases l with
  | channelsLast => exact .refl _
  | channelsFirst =>
    cases xs with
    | nil => exact .refl _
    | cons c hw => exact (List.perm_append_comm : (hw ++ [c]).Perm ([c] ++ hw))

theorem fromLast_perm (l : Layout) (xs : List β) : (l.fromLast xs).Perm xs := by
  have hperm := l.toLast_perm (l.fromLast xs)
  rwa [toLast_fromLast, List.perm_comm] at hperm

theorem join_perm (l : Layout) (c : β) (hw : List β) : (l.join c hw).Perm (hw ++ [c]) :=
  l.fromLast_perm _

theorem length_spatial (l : Layout) (xs : List β) : (l.spatial xs).length = xs.length - 1 := by
  rw [spatial, List.length_dropLast, length_toLast]

/-- Channels and spatial axes make up a sample. -/
theorem join_spatial {c : β} (h : l.channel? xs = some c) : l.join c (l.spatial xs) = xs := by
  rw [join, spatial, List.dropLast_append_getLast? _ h, fromLast_toLast]

end Layout

theorem Shape.Samples.splitChannels {s : Shape} {dims : List Nat} (hs : s.Samples dims) {l : Layout}
    {parts : ChannelShape} (h : s.splitChannels l = .ok parts) : ∃ c, l.channel? dims = some c ∧
      parts.channels = some c ∧ parts.spatial = (l.spatial dims).map some := by
  obtain ⟨batch, hs⟩ := hs
  unfold Shape.splitChannels at h
  simp only [Shape.withoutBatch, hs, List.tail_cons, Layout.channel?, Layout.spatial,
    ← Layout.map_toLast, List.getLast?_map] at h ⊢
  split at h
  case h_1 heq hc =>
    obtain ⟨c, hc', rfl⟩ := Option.map_eq_some_iff.1 hc
    obtain rfl := Except.ok.inj h
    exact ⟨c, hc', rfl, List.map_dropLast.symm⟩
  case h_2 => simp at h

theorem Shape.samples_join (l : Layout) (batch : Option Nat) (spatial : List Nat) (c : Nat) :
    (ChannelShape.join l ⟨batch, spatial.map some, some c⟩).Samples (l.join c spatial) :=
  ⟨batch, by simp [ChannelShape.join, Layout.join, Layout.map_fromLast]⟩

/-! ## One sample -/

namespace Grid
variable [Zero α] {x y : Grid α} {f : Grid α → Outcome (Grid α)} {l : Layout} {p : List Nat}

theorem value_toLast (hp : p ∈ positions (l.toLast x.shape)) :
    (x.toLast l).value p = x.value (l.fromLast p) := value_ofFn _ hp

theorem value_fromLast (hp : p ∈ positions (l.fromLast x.shape)) :
    (x.fromLast l).value p = x.value (l.toLast p) := value_ofFn _ hp

theorem throughLast_eq_ok (h : x.throughLast l f = .ok y) :
    ∃ z, f (x.toLast l) = .ok z ∧ y = z.fromLast l ∧ (l = .channelsFirst → x.rank ≠ 0) := by
  unfold throughLast at h
  split at h
  case isTrue => simp at h
  case isFalse hrank =>
    obtain ⟨z, hz, h⟩ := bind_eq_ok.1 h
    exact ⟨z, hz, (pure_eq_ok.1 h).symm, fun hl h0 => hrank ⟨hl, h0⟩⟩

/-- A sample with channels is rearranged for a function of channels-last ones. -/
theorem throughLast_of_channel {z : Grid α} {c : Nat} (hc : l.channel? x.shape = some c)
    (h : f (x.toLast l) = .ok z) : x.throughLast l f = .ok (z.fromLast l) := by
  refine (if_neg fun ⟨_, h0⟩ => ?_).trans (bind_eq_ok.2 ⟨z, h, rfl⟩)
  rw [List.length_eq_zero_iff.1 h0] at hc
  cases l <;> simp [Layout.channel?, Layout.toLast] at hc

theorem value_sample {b i : Nat} {dims : List Nat} (hs : x.shape = b :: dims)
    (hp : p ∈ positions dims) : (x.sample i).value p = x.value (i :: p) := by
  unfold sample
  rw [hs]
  exact value_ofFn _ hp

omit [Zero α] in
theorem arrange_eq_ok {shape : List Nat} {v : List Nat → α} (h : arrange shape v = .ok y) :
    y = ofFn shape v ∧ addressable shape = true := by
  obtain ⟨_, ha, h⟩ := bind_eq_ok.1 h
  exact ⟨(pure_eq_ok.1 h).symm, require_eq_ok.1 ha⟩

/-- A function run on every sample of a batch makes a batch of its results,
    which have one shape. -/
theorem mapSamples_eq_ok {b : Nat} {dims : List Nat} (hb : 0 < b) (hs : x.shape = b :: dims)
    (h : x.mapSamples f = .ok y) : ∃ out, y.Batch b out ∧ ∀ i < b, ∃ z,
      f (x.sample i) = .ok z ∧ z.shape = out ∧
      ∀ p ∈ positions out, y.value (i :: p) = z.value p := by
  simp only [mapSamples, bind_eq_ok, Grid.samples, hs, Except.ok.injEq, exists_eq_left'] at h
  obtain ⟨zs, hzs, h⟩ := h
  have hf := mapM_forall₂.1 hzs
  have hlen : zs.length = b := by simpa using hf.length_eq.symm
  have hget : ∀ i < b, ∃ z, zs[i]? = some z ∧ f (x.sample i) = .ok z := fun i hi =>
    forall₂_getElem? hf (by simp [hi])
  unfold stack at h
  split at h
  case h_1 => simp at hlen; omega
  case h_2 g rest =>
    split at h
    case isFalse => simp at h
    case isTrue hall =>
      obtain ⟨rfl, ha⟩ := arrange_eq_ok h
      have hshapes : ∀ z ∈ g :: rest, z.shape = g.shape := by
        rintro z (_ | ⟨_, hz⟩)
        · rfl
        · exact of_decide_eq_true (List.all_eq_true.1 hall z hz)
      rw [hlen] at ha ⊢
      refine ⟨g.shape, ⟨rfl, ha⟩, fun i hi => ?_⟩
      obtain ⟨z, hz, hfz⟩ := hget i hi
      refine ⟨z, hfz, hshapes z (List.mem_of_getElem? hz), fun p hp => ?_⟩
      rw [value_ofFn _ (cons_mem_positions.2 ⟨hi, hp⟩)]
      simp only [List.getD_eq_getElem?_getD, hz, Option.getD_some]

/-- If a function has results of one shape, they make up a batch. -/
theorem exists_mapSamples {b : Nat} {dims out : List Nat} (hb : 0 < b) (hs : x.shape = b :: dims)
    (ha : addressable (b :: out)) (hf : ∀ i < b, ∃ z, f (x.sample i) = .ok z ∧ z.shape = out) :
    ∃ y, x.mapSamples f = .ok y := by
  obtain ⟨zs, hzs⟩ := exists_forall₂ (l := (List.range b).map x.sample)
    (R := fun s z => f s = .ok z ∧ z.shape = out) fun s hs => by
      obtain ⟨i, hi, rfl⟩ := List.mem_map.1 hs
      exact hf i (List.mem_range.1 hi)
  have hlen : zs.length = b := by simpa using hzs.length_eq.symm
  have hshapes : ∀ z ∈ zs, z.shape = out := fun z hz => by
    obtain ⟨_, -, -, h⟩ := forall₂_mem_left hzs.flip z hz
    exact h
  have hsamples : x.samples = .ok ((List.range b).map x.sample) := by
    rw [samples, hs]
  obtain ⟨y, hy⟩ : ∃ y, stack zs = .ok y := by
    cases zs with
    | nil =>
      rw [List.length_nil] at hlen
      omega
    | cons z rest =>
      have hz := hshapes z (by simp)
      refine ⟨_, (if_pos (List.all_eq_true.2 fun h hh => ?_)).trans
        (bind_eq_ok.2 ⟨(), require_eq_ok.2 ?_, rfl⟩)⟩
      · exact decide_eq_true ((hshapes h (List.mem_cons_of_mem _ hh)).trans hz.symm)
      · rwa [hlen, hz]
  exact ⟨y, bind_eq_ok.2 ⟨_, hsamples, bind_eq_ok.2
    ⟨zs, mapM_forall₂.2 (hzs.imp fun _ _ h => h.1), hy⟩⟩⟩

end Grid

/-! ## Activations -/

section
variable [Scalar α] {a : Activation} {x y : Grid α}

/-- Activations leave shapes alone. -/
theorem Activation.shape_apply (h : a.apply x = .ok y) : y.shape = x.shape := by
  unfold Activation.apply at h
  split at h
  · rw [Except.ok.inj h]
  · simp only [softmaxGrid, orFault_eq_ok, Grid.ofArray?, Option.dite_none_right_eq_some,
      Option.some.injEq] at h
    obtain ⟨_, rfl⟩ := h
    rfl
  · rw [← Except.ok.inj h]; rfl

theorem Activation.apply_elementwise (ha : a.isElementwise = true) :
    ∃ z, a.apply x = .ok z ∧ z.shape = x.shape ∧
      ∀ p ∈ positions x.shape, z.value p = a.eval (x.value p) := by
  cases a
  case linear => exact ⟨x, rfl, rfl, fun _ _ => rfl⟩
  case softmax => simp [isElementwise] at ha
  all_goals exact ⟨_, rfl, rfl, fun p hp => Grid.value_map hp⟩

end
end Neuroform

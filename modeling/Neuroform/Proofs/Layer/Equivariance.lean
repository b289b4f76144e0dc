/-
  Neuroform — channels-first layers are moved channels-last layers.

  A convolution, pooling, up-sampling or zero padding may keep its channels
  first or last.  Moving the channels of its input to the front moves those of
  its output (`Primitive.forward_channelsToFront`), and shapes are inferred
  accordingly.  Only the average of a whole channel also depends on where its
  values are in memory, as far as the order does in which they are added up
  (`SumsAgree`).
-/
import Neuroform.Layer.Kind
import Neuroform.Proofs.Layer.Layouts
import Neuroform.Proofs.Rational
import Neuroform.Scalar.Single

namespace Neuroform

variable {α : Type}

/-! ## Shapes -/

theorem toOption_require {γ δ : Type} [IsCause γ] [IsCause δ] {p : Prop} [Decidable p] {c : γ}
    {d : δ} : (require p c).toOption = (require p d).toOption := by
  unfold require
  split <;> rfl

/-- Both layouts find the same parts of a shape. -/
theorem Shape.splitChannels_channelsToFront (s : Shape) :
    s.channelsToFront.splitChannels .channelsFirst = s.splitChannels .channelsLast := by
  obtain ⟨_ | ⟨b, ds⟩⟩ := s
  · rfl
  rcases List.eq_nil_or_concat ds with rfl | ⟨ds, c, rfl⟩
  · rfl
  simp [splitChannels, channelsToFront, Neuroform.channelsToFront, withoutBatch, Layout.channel?,
    Layout.spatial, Layout.toLast, Layout.fromLast]

/-- Shapes that are inferred from the parts of an input shape. -/
theorem Shape.toOption_fromParts {layer : String} {s : Shape}
    {f f' : Shape → ChannelShape → Outcome (List Shape)} {m : List Shape → List Shape}
    (h : ∀ parts, (f' s.channelsToFront parts).toOption = (f s parts).toOption.map m) :
    (onlyInput layer [s.channelsToFront] >>= fun i =>
        i.splitChannels .channelsFirst >>= f' i).toOption =
      (onlyInput layer [s] >>= fun i => i.splitChannels .channelsLast >>= f i).toOption.map m := by
  change (_ >>= f' s.channelsToFront).toOption = (_ >>= f s).toOption.map _
  exact toOption_bind_same (congrArg _ s.splitChannels_channelsToFront) h

theorem Conv.outputShapes_channelsToFront (c : Conv α) (s : Shape) :
    ({ c with layout := .channelsFirst }.outputShapes [s.channelsToFront]).toOption =
      ({ c with layout := .channelsLast }.outputShapes [s]).toOption.map
        (List.map Shape.channelsToFront) := by
  refine Shape.toOption_fromParts fun parts => ?_
  refine toOption_bind_same toOption_require fun _ => ?_
  cases parts.channels with
  | none => exact toOption_bind_same rfl fun _ => rfl
  | some n =>
    refine toOption_bind_same toOption_require fun _ => ?_
    exact toOption_bind_same rfl fun _ => rfl

theorem Pool.outputShapes_channelsToFront (p : Pool) (s : Shape) :
    ({ p with layout := .channelsFirst }.outputShapes [s.channelsToFront]).toOption =
      ({ p with layout := .channelsLast }.outputShapes [s]).toOption.map
        (List.map Shape.channelsToFront) := by
  obtain ⟨kind, extent, layout⟩ := p
  refine Shape.toOption_fromParts fun parts => ?_
  refine toOption_bind_same toOption_require fun _ => ?_
  cases extent with
  | everywhere rank => rfl
  | windows size strides padding => exact toOption_bind_same rfl fun _ => rfl

theorem UpSampling.outputShapes_channelsToFront (u : UpSampling) (s : Shape) :
    ({ u with layout := .channelsFirst }.outputShapes [s.channelsToFront]).toOption =
      ({ u with layout := .channelsLast }.outputShapes [s]).toOption.map
        (List.map Shape.channelsToFront) := by
  refine Shape.toOption_fromParts fun parts => ?_
  refine toOption_bind_same toOption_require fun _ => ?_
  exact toOption_bind_same rfl fun _ => rfl

theorem ZeroPadding.outputShapes_channelsToFront (z : ZeroPadding) (s : Shape) :
    ({ z with layout := .channelsFirst }.outputShapes [s.channelsToFront]).toOption =
      ({ z with layout := .channelsLast }.outputShapes [s]).toOption.map
        (List.map Shape.channelsToFront) := by
  refine Shape.toOption_fromParts fun parts => ?_
  refine toOption_bind_same toOption_require fun _ => ?_
  exact toOption_bind_same rfl fun _ => rfl

/-- Without spatial axes in the output, both layouts infer the same. -/
theorem Pool.outputShapes_everywhere_layouts {p : Pool} (hp : p.isGlobal = true) (s : Shape) :
    ({ p with layout := .channelsFirst }.outputShapes [s.channelsToFront]).toOption =
      ({ p with layout := .channelsLast }.outputShapes [s]).toOption := by
  obtain ⟨kind, _ | _, layout⟩ := p
  · refine (Shape.toOption_fromParts fun parts => ?_).trans Option.map_id'
    exact toOption_bind_same toOption_require fun _ => rfl
  · simp [isGlobal] at hp

/-! ## Convolutions -/

theorem Layout.getD_fromLast {β : Type} (xs : List β) (d : β) :
    (channelsFirst.fromLast xs).getD 0 d = xs.getD (xs.length - 1) d := by
  rcases List.eq_nil_or_concat xs with rfl | ⟨xs, x, rfl⟩ <;> simp [fromLast]

/-- The bias of a channel is found along its axis. -/
theorem Conv.addBias_fromLast [Zero α] [Add α] (bias : List α) (y : Grid α) :
    addBias .channelsFirst bias (y.fromLast .channelsFirst) =
      (addBias .channelsLast bias y).fromLast .channelsFirst := by
  refine Grid.ofFn_fromLast .channelsFirst y.shape fun p hp => ?_
  have hback := Layout.mem_positions_fromLast.1 hp
  have hlen : (Layout.channelsFirst.toLast p).length = y.rank := (mem_positions.1 hback).length_eq
  have hchannel : p.getD 0 0 = (Layout.channelsFirst.toLast p).getD (y.rank - 1) 0 := by
    rw [← hlen, ← Layout.getD_fromLast, Layout.fromLast_toLast]
  simp only [Layout.channelAxis, hchannel, Grid.value_fromLast hp]

theorem Conv.biased_fromLast [Zero α] [Add α] (bias : Option (List α)) (y : Grid α) :
    bias.elim (y.fromLast .channelsFirst)
        (fun b => addBias .channelsFirst b (y.fromLast .channelsFirst)) =
      (bias.elim y fun b => addBias .channelsLast b y).fromLast .channelsFirst := by
  cases bias with
  | none => rfl
  | some bias => exact addBias_fromLast bias y

section
variable [Scalar α] {x : Grid α} {b : Nat} {dims : List Nat}

/-- Activations of values do not notice where the values are. -/
theorem Activation.apply_channelsToFront {a : Activation} (ha : a.isElementwise = true) :
    a.apply x.channelsToFront = Grid.channelsToFront <$> a.apply x := by
  obtain ⟨z, hz, hshape, hvalue⟩ := apply_elementwise (x := x) ha
  obtain ⟨z', hz', hshape', hvalue'⟩ := apply_elementwise (x := x.channelsToFront) ha
  rw [hz, hz']
  refine congrArg Except.ok (Grid.ext_values (hshape'.trans ?_) fun p hp => ?_)
  · exact congrArg channelsToFront hshape.symm
  · rw [hshape'] at hp
    have hback := mem_positions_channelsToFront.1 hp
    rw [hvalue' p hp, Grid.value_channelsToFront hp, Grid.value_channelsToFront (hshape ▸ hp),
      hvalue _ hback]

theorem Conv.forward_channelsToFront {c : Conv α} (ha : c.activation.isElementwise = true)
    (hx : x.shape = b :: dims) (hd : dims ≠ []) :
    ({ c with layout := .channelsFirst }.forward [x.channelsToFront]).toOption =
      ({ c with layout := .channelsLast }.forward [x]).toOption.map
        (List.map Grid.channelsToFront) := by
  refine toOption_bind_map (x := x.mapSamples _) (y := x.channelsToFront.mapSamples _)
    (Grid.mapSamples_channelsToFront hx fun s hs => ?_) fun y => ?_
  · refine toOption_bind_map (Grid.throughLast_fromLast _ ?_) fun y => ?_
    · simpa [Grid.rank, hs] using hd
    · exact congrArg some (biased_fromLast c.bias y)
  · exact toOption_bind_map ((congrArg _ (Activation.apply_channelsToFront ha)).trans
      (toOption_map _ _)) fun _ => rfl

/-! ## Poolings -/

theorem dropLast_append_getD {β : Type} {xs : List β} (h : xs ≠ []) (d : β) :
    xs.dropLast ++ [xs.getD (xs.length - 1) d] = xs := by
  obtain ⟨xs, x, rfl⟩ := (List.eq_nil_or_concat xs).resolve_left h
  simp

/-- Arrays have the same sum wherever their values are in memory. -/
def SumsAgree (α : Type) [Scalar α] : Prop :=
  ∀ (apart apart' : Nat) (dims : List Nat) (values : List α), values.length = volume dims →
    Elementary.arraySum 0 (· + ·) apart dims values =
      Elementary.arraySum 0 (· + ·) apart' dims values

/-- The order of additions does not matter where addition is commutative and
    associative. -/
theorem sumsAgree_of_laws (hzero : ∀ a : α, 0 + a = a) (hcomm : ∀ a b : α, a + b = b + a)
    (hassoc : ∀ a b c : α, a + b + c = a + (b + c)) : SumsAgree α := by
  intro apart apart' dims values hvalues
  rw [Elementary.arraySum_eq_foldl _ _ _ _ _ hzero hcomm hassoc hvalues,
    Elementary.arraySum_eq_foldl _ _ _ _ _ hzero hcomm hassoc hvalues]

/-- The global pooling of a sample with its channels last, whose values lie in
    memory as those of a sample of some layout. -/
def globalPoolAs (memory : Layout) (kind : PoolKind) (s : Grid α) : Outcome (Grid α) := do
  require (2 ≤ s.rank) (GridCause.globalPoolingRank s.rank)
  let channels := s.shape.getD (s.rank - 1) 0
  requireRoom valueBytes [channels]
  let dims := Layout.channelsLast.spatial s.shape
  return Grid.ofList ((List.range channels).map fun c =>
    kind.ofChannel (apartInChannel memory channels) dims
      ((positions dims).map fun p => s.value (Layout.channelsLast.join c p)))

theorem globalPool_fromLast (kind : PoolKind) (s : Grid α) :
    globalPool .channelsFirst kind (s.fromLast .channelsFirst) =
      globalPoolAs .channelsFirst kind s := by
  by_cases hrank : 2 ≤ s.rank
  case neg => simp only [globalPool, globalPoolAs, Grid.rank_fromLast, require, if_neg hrank]; rfl
  have hchannels : (s.fromLast .channelsFirst).shape.getD 0 0 = s.shape.getD (s.rank - 1) 0 :=
    Layout.getD_fromLast s.shape 0
  have hspatial : Layout.channelsFirst.spatial (s.fromLast .channelsFirst).shape =
      Layout.channelsLast.spatial s.shape :=
    congrArg List.dropLast (Layout.toLast_fromLast .channelsFirst s.shape)
  have hshape : Layout.channelsLast.spatial s.shape ++ [s.shape.getD (s.rank - 1) 0] = s.shape :=
    dropLast_append_getD (List.ne_nil_of_length_pos (Nat.lt_of_lt_of_le Nat.zero_lt_two hrank)) 0
  have hvalue : ∀ c < s.shape.getD (s.rank - 1) 0,
      ∀ p ∈ positions (Layout.channelsLast.spatial s.shape),
        (s.fromLast .channelsFirst).value (Layout.channelsFirst.join c p) =
          s.value (Layout.channelsLast.join c p) := fun c hc p hp =>
    Grid.value_fromLast_join (hshape ▸ mem_positions_concat.2 ⟨p, c, hp, hc, rfl⟩)
  simp only [globalPool, globalPoolAs, Grid.rank_fromLast, Layout.channelAxis, hchannels, hspatial]
  refine congrArg _ (funext fun _ => congrArg _ (funext fun _ => ?_))
  refine congrArg (fun l => Except.ok (Grid.ofList l)) (List.map_congr_left fun c hc => ?_)
  refine congrArg (kind.ofChannel _ _) (List.map_congr_left fun p hp => ?_)
  exact hvalue c (List.mem_range.1 hc) p hp

/-- Unless sums depend on it, memory does not matter. -/
theorem globalPoolAs_congr {kind : PoolKind} (hkind : kind = .average → SumsAgree α)
    (l l' : Layout) (s : Grid α) : globalPoolAs l kind s = globalPoolAs l' kind s := by
  refine bind_congr fun _ => bind_congr fun _ => congrArg (Except.ok ∘ Grid.ofList) ?_
  refine List.map_congr_left fun c _ => ?_
  cases kind with
  | average =>
    refine congrArg (· / _) (hkind rfl _ _ _ _ ?_)
    rw [List.length_map, length_positions]
  | maximum => rfl

theorem globalPoolAs_eq_ok {l : Layout} {kind : PoolKind} {s z : Grid α} :
    globalPoolAs l kind s = .ok z ↔ 2 ≤ s.rank ∧
      requireRoom valueBytes [s.shape.getD (s.rank - 1) 0] = .ok () ∧
      z = Grid.ofList ((List.range (s.shape.getD (s.rank - 1) 0)).map fun c =>
        kind.ofChannel (apartInChannel l (s.shape.getD (s.rank - 1) 0))
          (Layout.channelsLast.spatial s.shape)
          ((positions (Layout.channelsLast.spatial s.shape)).map fun p =>
            s.value (Layout.channelsLast.join c p))) := by
  simp only [globalPoolAs, bind_eq_ok, require_eq_ok, pure_eq_ok]
  constructor
  · rintro ⟨_, hrank, _, hroom, rfl⟩
    exact ⟨hrank, hroom, rfl⟩
  · rintro ⟨hrank, hroom, rfl⟩
    exact ⟨(), hrank, (), hroom, rfl⟩

/-- The value of a channel is what its values are reduced to. -/
theorem globalPoolAs_channels {l : Layout} {kind : PoolKind} {s z : Grid α} {hw : List Nat}
    {c : Nat} (hs : s.shape = hw ++ [c]) (h : globalPoolAs l kind s = .ok z) :
    z.shape = [c] ∧ ∀ k < c, z.value [k] = kind.ofChannel (apartInChannel l c) hw
      ((positions hw).map fun q => s.value (q ++ [k])) := by
  have hcount : s.shape.getD (s.rank - 1) 0 = c := by simp [Grid.rank, hs]
  have hspatial : Layout.channelsLast.spatial s.shape = hw := by
    rw [hs]
    exact List.dropLast_concat
  obtain ⟨-, -, rfl⟩ := globalPoolAs_eq_ok.1 h
  rw [hcount, hspatial]
  refine ⟨by simp [Grid.ofList], fun k hk => ?_⟩
  simp [Grid.ofList, Grid.value, offset, hk, Layout.join, Layout.fromLast]

/-- The average of channel `k` of sample `i` of a batch with spatial dimensions
    `hw`, whose neighbours lie `apart` places apart in memory. -/
def channelAverage (apart : Nat) (x : Grid α) (hw : List Nat) (i k : Nat) : α :=
  Elementary.arraySum 0 (· + ·) apart hw ((positions hw).map fun q => x.value (i :: (q ++ [k]))) /
    ((volume hw : Nat) : α)

/-- What the samples of a batch are averaged to. -/
theorem mapSamples_average {l : Layout} {y : Grid α} (hx : x.shape = b :: dims)
    (h : x.mapSamples (globalPoolAs l .average) = .ok y) :
    ∃ hw c, dims = hw ++ [c] ∧ y.shape = [b, c] ∧ ∀ i < b, ∀ k < c,
      y.value [i, k] = channelAverage (apartInChannel l c) x hw i k := by
  have hb := Grid.pos_of_mapSamples hx h
  have hshape : ∀ i, (x.sample i).shape = dims := fun i => congrArg List.tail hx
  obtain ⟨out, hy, hsample⟩ := Grid.mapSamples_eq_ok hb hx h
  obtain ⟨z, hz, rfl, -⟩ := hsample 0 hb
  obtain ⟨hw, c, rfl⟩ : ∃ hw c, dims = hw ++ [c] := by
    rcases List.eq_nil_or_concat dims with rfl | ⟨hw, c, rfl⟩
    · have hrank := (globalPoolAs_eq_ok.1 hz).1
      simp [Grid.rank, hshape] at hrank
    · exact ⟨hw, c, List.concat_eq_append⟩
  have hc := (globalPoolAs_channels (hshape 0) hz).1
  rw [hc] at hy hsample
  refine ⟨hw, c, rfl, hy.shape, fun i hi k hk => ?_⟩
  obtain ⟨z, hz, -, hvalue⟩ := hsample i hi
  have hvalues : ((positions hw).map fun q => (x.sample i).value (q ++ [k])) =
      (positions hw).map fun q => x.value (i :: (q ++ [k])) :=
    List.map_congr_left fun q hq =>
      Grid.value_sample hx (mem_positions_concat.2 ⟨q, k, hq, hk, rfl⟩)
  rw [hvalue [k] (mem_positions.2 (.cons hk .nil)), (globalPoolAs_channels (hshape i) hz).2 k hk,
    hvalues, PoolKind.ofChannel, List.length_map, length_positions, channelAverage]

namespace Pool
variable {p : Pool}

/-- Without spatial axes in the output, both layouts pool a batch with its
    channels last, which lies in memory as they are. -/
theorem forward_everywhere (hp : p.isGlobal = true) (hx : x.shape = b :: dims) :
    { p with layout := .channelsFirst }.forward [x.channelsToFront] =
        (x.mapSamples (globalPoolAs .channelsFirst p.kind) >>= fun y => pure [y]) ∧
      { p with layout := .channelsLast }.forward [x] =
        (x.mapSamples (globalPoolAs .channelsLast p.kind) >>= fun y => pure [y]) := by
  obtain ⟨kind, _ | _, layout⟩ := p
  · refine ⟨?_, rfl⟩
    change (x.channelsToFront.mapSamples _ >>= _) = _
    exact congrArg (· >>= fun y => pure [y]) (Grid.mapSamples_same hx (globalPool_fromLast kind))
  · simp [isGlobal] at hp

theorem forward_everywhere_same (hp : p.isGlobal = true)
    (hkind : p.kind = .average → SumsAgree α) (hx : x.shape = b :: dims) :
    { p with layout := .channelsFirst }.forward [x.channelsToFront] =
      { p with layout := .channelsLast }.forward [x] := by
  obtain ⟨hfirst, hlast⟩ := forward_everywhere hp hx
  have hsame : globalPoolAs .channelsFirst p.kind = globalPoolAs (α := α) .channelsLast p.kind :=
    funext (globalPoolAs_congr hkind _ _)
  rw [hfirst, hlast, hsame]

/-- Averages of whole channels succeed at both layouts or at none. -/
theorem exists_forward_everywhere (hp : p.isGlobal = true) (hx : x.shape = b :: dims) :
    (∃ ys, { p with layout := .channelsFirst }.forward [x.channelsToFront] = .ok ys) ↔
      ∃ ys, { p with layout := .channelsLast }.forward [x] = .ok ys := by
  obtain ⟨hfirst, hlast⟩ := forward_everywhere hp hx
  have hmove : ∀ l l' : Layout,
      (∃ ys, (x.mapSamples (globalPoolAs l p.kind) >>= fun y => pure [y]) = .ok ys) →
      ∃ ys, (x.mapSamples (globalPoolAs l' p.kind) >>= fun y => pure [y]) = .ok ys := by
    rintro l l' ⟨ys, h⟩
    obtain ⟨y, hy, -⟩ := bind_eq_ok.1 h
    obtain ⟨y', hy'⟩ := Grid.exists_mapSamples_of_shapes (g := globalPoolAs l' p.kind) hx
      (fun s z hz => by
        obtain ⟨hrank, hroom, rfl⟩ := globalPoolAs_eq_ok.1 hz
        exact ⟨_, globalPoolAs_eq_ok.2 ⟨hrank, hroom, rfl⟩, by simp [Grid.ofList]⟩) hy
    exact ⟨[y'], bind_eq_ok.2 ⟨y', hy', rfl⟩⟩
  rw [hfirst, hlast]
  exact ⟨hmove _ _, hmove _ _⟩

theorem forward_channelsToFront
    (hkind : p.isGlobal = true → p.kind = .average → SumsAgree α)
    (hx : x.shape = b :: dims) (hd : dims ≠ []) :
    ({ p with layout := .channelsFirst }.forward [x.channelsToFront]).toOption =
      ({ p with layout := .channelsLast }.forward [x]).toOption.map
        (List.map Grid.channelsToFront) := by
  refine toOption_bind_map (x := x.mapSamples _) (y := x.channelsToFront.mapSamples _)
    (Grid.mapSamples_channelsToFront hx fun s hs => ?_) fun _ => rfl
  have hrank : s.rank ≠ 0 := by simpa [Grid.rank, hs] using hd
  obtain ⟨kind, _ | ⟨size, strides, padding⟩, layout⟩ := p
  · refine (congrArg _ ((globalPool_fromLast kind s).trans
      (globalPoolAs_congr (hkind rfl) _ .channelsLast s))).trans ?_
    change (globalPool .channelsLast kind s).toOption =
      (globalPool .channelsLast kind s).toOption.map _
    cases hy : globalPool .channelsLast kind s with
    | error e => rfl
    | ok y =>
      obtain ⟨-, rfl⟩ := globalPool_eq_ok hy
      exact congrArg some (Grid.fromLast_ofList .channelsFirst _).symm
  · exact Grid.throughLast_fromLast _ hrank

end Pool

/-! ## Up-sampling -/

namespace UpSampling

theorem sample_fromLast {u : UpSampling} {s : Grid α} (hs : s.rank ≠ 0) :
    ({ u with layout := .channelsFirst }.sample (s.fromLast .channelsFirst)).toOption =
      ({ u with layout := .channelsLast }.sample s).toOption.map
        (Grid.fromLast .channelsFirst) := by
  have hlast : (s.fromLast .channelsFirst).toLast .channelsFirst = s.toLast .channelsLast :=
    (s.toLast_fromLast _).trans s.toLast_channelsLast.symm
  have hdims : u.dimsLast (Layout.channelsFirst.toLast (s.fromLast .channelsFirst).shape) =
      u.dimsLast s.shape := congrArg u.dimsLast (Layout.toLast_fromLast _ _)
  refine toOption_bind_same ?_ fun _ => toOption_bind_same ?_ fun _ => toOption_bind_same ?_
    fun _ => ?_
  · rw [Layout.requireSpatial_eq hs, Layout.requireSpatial_eq (by rwa [Grid.rank_fromLast]),
      Grid.rank_fromLast]
    exact toOption_require
  · exact congrArg (fun dims => (requireRoom valueBytes dims).toOption) hdims
  · exact congrArg (fun dims => (u.requireCorners dims).toOption) hdims
  · change some ((u.sampleLast _).fromLast .channelsFirst) =
      some (((u.sampleLast _).fromLast .channelsLast).fromLast .channelsFirst)
    rw [hlast, Grid.fromLast_channelsLast]

theorem forward_channelsToFront {u : UpSampling} (hx : x.shape = b :: dims)
    (hd : dims ≠ []) :
    ({ u with layout := .channelsFirst }.forward [x.channelsToFront]).toOption =
      ({ u with layout := .channelsLast }.forward [x]).toOption.map
        (List.map Grid.channelsToFront) := by
  refine toOption_bind_map (x := x.mapSamples _) (y := x.channelsToFront.mapSamples _)
    (Grid.mapSamples_channelsToFront hx fun s hs => ?_) fun _ => rfl
  exact sample_fromLast (by simpa [Grid.rank, hs] using hd)

end UpSampling

/-! ## Zero padding -/

omit [Scalar α] in
theorem unpadded?_channelsToFront {pads : List (Nat × Nat)} {p : List Nat}
    (hpads : pads.length = dims.length) (hp : p.length = dims.length) :
    unpadded? (channelsToFront pads) (channelsToFront dims) p =
      (unpadded? pads dims (channelsToBack p)).map channelsToFront := by
  refine Option.ext fun q => ?_
  have hzip : ∀ r ∈ positions dims,
      List.zipWith (· + ·) ((channelsToFront pads).map Prod.fst) (channelsToFront r) =
        channelsToFront (List.zipWith (· + ·) (pads.map Prod.fst) r) := fun r hr => by
    rw [map_channelsToFront, zipWith_channelsToFront]
    rw [List.length_map, hpads, (mem_positions.1 hr).length_eq]
  have hlen : (channelsToBack p).length = dims.length := by rw [length_channelsToBack, hp]
  rw [unpadded?_eq_some (by simp [hpads]) (by simp [hp]), Option.map_eq_some_iff]
  constructor
  · rintro ⟨hq, hpq⟩
    have hback := mem_positions_channelsToFront.1 hq
    have hmoved := hzip _ hback
    rw [channelsToFront_channelsToBack, ← hpq] at hmoved
    refine ⟨channelsToBack q, (unpadded?_eq_some hpads hlen).2 ⟨hback, ?_⟩, by simp⟩
    rw [hmoved, channelsToBack_channelsToFront]
  · rintro ⟨r, hr, rfl⟩
    obtain ⟨hmem, hpr⟩ := (unpadded?_eq_some hpads hlen).1 hr
    refine ⟨mem_positions_channelsToFront.2 (by simpa), ?_⟩
    rw [hzip r hmem, ← hpr, channelsToFront_channelsToBack]

omit [Scalar α] in
theorem paddedDims_channelsToFront {pads : List (Nat × Nat)} (h : pads.length = dims.length) :
    paddedDims (channelsToFront pads) (channelsToFront dims) =
      channelsToFront (paddedDims pads dims) := zipWith_channelsToFront h

omit [Scalar α] in
theorem Grid.padded_channelsToFront [Zero α] {x : Grid α} {pads : List (Nat × Nat)}
    (h : pads.length = x.rank) :
    x.channelsToFront.padded (Neuroform.channelsToFront pads) =
      (x.padded pads).channelsToFront := by
  have hdims : paddedDims (Neuroform.channelsToFront pads) x.channelsToFront.shape =
      Neuroform.channelsToFront (paddedDims pads x.shape) := paddedDims_channelsToFront h
  rw [padded, hdims]
  refine ofFn_channelsToFront fun p hp => ?_
  have hlen : p.length = x.shape.length := by
    rw [(mem_positions.1 hp).length_eq, length_channelsToFront, paddedDims, List.length_zipWith, h,
      Grid.rank, Nat.min_self]
  change ((unpadded? (Neuroform.channelsToFront pads) (Neuroform.channelsToFront x.shape) p).map
    x.channelsToFront.value).getD 0 = _
  rw [unpadded?_channelsToFront h hlen]
  cases hq : unpadded? pads x.shape (channelsToBack p) with
  | none => rfl
  | some q =>
    obtain ⟨hmem, -⟩ := (unpadded?_eq_some h (by rw [length_channelsToBack, hlen])).1 hq
    change x.channelsToFront.value (Neuroform.channelsToFront q) = x.value q
    rw [value_channelsToFront (mem_positions_channelsToFront.2 (by simpa)),
      channelsToBack_channelsToFront]

theorem ZeroPadding.forward_channelsToFront {z : ZeroPadding} (hx : 2 ≤ x.rank) :
    ({ z with layout := .channelsFirst }.forward [x.channelsToFront]).toOption =
      ({ z with layout := .channelsLast }.forward [x]).toOption.map
        (List.map Grid.channelsToFront) := by
  obtain ⟨n, hn⟩ : ∃ n, x.rank = n + 2 := ⟨x.rank - 2, by omega⟩
  change (ZeroPadding.pads _ x.channelsToFront.rank >>= _).toOption =
    (ZeroPadding.pads _ x.rank >>= _).toOption.map _
  rw [Grid.rank_channelsToFront, hn]
  by_cases hrank : n ≤ z.rank
  case neg =>
    have hpads : ∀ l, { z with layout := l }.pads (n + 2) = fault := fun _ => if_neg hrank
    rw [hpads, hpads]
    rfl
  have hpads : ∀ l, { z with layout := l }.pads (n + 2) =
      .ok ((0, 0) :: l.join (0, 0) (z.padding.take n)) := fun _ => if_pos hrank
  have hlen : ((0, 0) :: Layout.channelsLast.join (0, 0) (z.padding.take n)).length = x.rank := by
    simpa [hn, rank] using hrank
  rw [hpads, hpads]
  refine toOption_bind_same (x := requireRoom valueBytes (paddedDims _ x.shape)) ?_ fun _ => ?_
  · exact congrArg _ ((congrArg _ (paddedDims_channelsToFront hlen)).trans
      (requireRoom_perm (channelsToFront_perm _)))
  · exact congrArg (fun y => some [y]) (Grid.padded_channelsToFront hlen)

/-! ## All layers -/

namespace Primitive

/-- A layer that works along spatial axes, next to which its samples have
    channels: what its activation does to a value does not depend on the other
    channels. -/
def IsSpatial : Primitive α → Prop
  | conv c => c.activation.isElementwise = true
  | pool _ | upSampling _ | zeroPadding _ => True
  | _ => False

/-- The layer that expects its channels where a layout keeps them. -/
def withLayout (l : Layout) : Primitive α → Primitive α
  | conv c => conv { c with layout := l }
  | pool p => pool { p with layout := l }
  | upSampling u => upSampling { u with layout := l }
  | zeroPadding z => zeroPadding { z with layout := l }
  | p => p

/-- A pooling of all positions, whose output has no spatial axes. -/
def IsGlobal : Primitive α → Prop
  | pool p => p.isGlobal = true
  | _ => False

/-- An average of all positions. -/
def IsGlobalAverage : Primitive α → Prop
  | pool p => p.isGlobal = true ∧ p.kind = .average
  | _ => False

variable {p : Primitive α}

theorem outputShapes_channelsToFront (hp : p.IsSpatial) (s : Shape) :
    ((p.withLayout .channelsFirst).operation.outputShapes [s.channelsToFront]).toOption =
      ((p.withLayout .channelsLast).operation.outputShapes [s]).toOption.map
        (List.map Shape.channelsToFront) := by
  cases p with
  | conv c => exact c.outputShapes_channelsToFront s
  | pool p => exact p.outputShapes_channelsToFront s
  | upSampling u => exact u.outputShapes_channelsToFront s
  | zeroPadding z => exact z.outputShapes_channelsToFront s
  | _ => exact hp.elim

theorem forward_channelsToFront (hp : p.IsSpatial) (hs : p.IsGlobalAverage → SumsAgree α)
    (hx : 2 ≤ x.rank) :
    ((p.withLayout .channelsFirst).operation.forward [x.channelsToFront]).toOption =
      ((p.withLayout .channelsLast).operation.forward [x]).toOption.map
        (List.map Grid.channelsToFront) := by
  obtain ⟨b, dims, hshape⟩ := List.exists_cons_of_length_pos (Nat.zero_lt_of_lt hx)
  have hd : dims ≠ [] := by
    rintro rfl
    simp [Grid.rank, hshape] at hx
  cases p with
  | conv c => exact Conv.forward_channelsToFront hp hshape hd
  | pool p => exact Pool.forward_channelsToFront (fun hg hk => hs ⟨hg, hk⟩) hshape hd
  | upSampling u => exact UpSampling.forward_channelsToFront hshape hd
  | zeroPadding z => exact ZeroPadding.forward_channelsToFront hx
  | _ => exact hp.elim

theorem forward_everywhere (hg : p.IsGlobal) (hs : p.IsGlobalAverage → SumsAgree α)
    (hx : 2 ≤ x.rank) :
    (p.withLayout .channelsFirst).operation.forward [x.channelsToFront] =
      (p.withLayout .channelsLast).operation.forward [x] := by
  obtain ⟨b, dims, hshape⟩ := List.exists_cons_of_length_pos (Nat.zero_lt_of_lt hx)
  cases p with
  | pool p => exact Pool.forward_everywhere_same hg (fun hk => hs ⟨hg, hk⟩) hshape
  | _ => exact hg.elim

theorem outputShapes_everywhere (hg : p.IsGlobal) (s : Shape) :
    ((p.withLayout .channelsFirst).operation.outputShapes [s.channelsToFront]).toOption =
      ((p.withLayout .channelsLast).operation.outputShapes [s]).toOption := by
  cases p with
  | pool p => exact Pool.outputShapes_everywhere_layouts hg s
  | _ => exact hg.elim

/-- The averages of whole channels add up the same values, but these are
    neighbours in memory only if channels come first. -/
theorem forward_average (hg : p.IsGlobalAverage) (hx : 2 ≤ x.rank) :
    ((∃ ys, (p.withLayout .channelsFirst).operation.forward [x.channelsToFront] = .ok ys) ↔
      ∃ ys, (p.withLayout .channelsLast).operation.forward [x] = .ok ys) ∧
    ∀ ys ys', (p.withLayout .channelsFirst).operation.forward [x.channelsToFront] = .ok ys →
      (p.withLayout .channelsLast).operation.forward [x] = .ok ys' →
      ∃ b hw c y y', x.shape = b :: (hw ++ [c]) ∧ ys = [y] ∧ ys' = [y'] ∧ y.shape = [b, c] ∧
        y'.shape = [b, c] ∧ ∀ i < b, ∀ k < c,
          y.value [i, k] = channelAverage 1 x hw i k ∧
          y'.value [i, k] = channelAverage c x hw i k := by
  obtain ⟨b, dims, hshape⟩ := List.exists_cons_of_length_pos (Nat.zero_lt_of_lt hx)
  cases p with
  | pool p =>
    obtain ⟨hglobal, haverage⟩ := hg
    refine ⟨Pool.exists_forward_everywhere hglobal hshape, fun ys ys' h h' => ?_⟩
    obtain ⟨hfirst, hlast⟩ := Pool.forward_everywhere hglobal hshape
    obtain ⟨y, hy, hsingle⟩ := bind_eq_ok.1 (hfirst.symm.trans h)
    obtain ⟨y', hy', hsingle'⟩ := bind_eq_ok.1 (hlast.symm.trans h')
    rw [haverage] at hy hy'
    obtain ⟨hw, c, rfl, hys, hvalue⟩ := mapSamples_average hshape hy
    obtain ⟨hw', c', hdims, hys', hvalue'⟩ := mapSamples_average hshape hy'
    obtain ⟨rfl, hc⟩ := List.append_inj' hdims rfl
    obtain rfl := List.singleton_inj.1 hc
    exact ⟨b, hw, c, y, y', hshape, (pure_eq_ok.1 hsingle).symm, (pure_eq_ok.1 hsingle').symm, hys,
      hys', fun i hi k hk => ⟨hvalue i hi k hk, hvalue' i hi k hk⟩⟩
  | _ => exact hg.elim

/-- **Layouts agree.**  A layer that expects its channels first, given an input with
    the channels moved to the front, succeeds exactly if the layer that expects them
    last does, and its output is that one's, with the channels moved as well.
    Shapes are inferred accordingly.  Poolings of all positions give the same at
    both layouts.

    Averages of all positions are an exception, as far as sums of arrays depend on
    where the values are in memory.  They still succeed at both layouts or at none,
    and average the same values; in exact arithmetic they are no exception. -/
theorem layouts_agree (hp : p.IsSpatial) :
    ((p.IsGlobalAverage → SumsAgree α) →
      (∀ x : Grid α, 2 ≤ x.rank →
        ((p.withLayout .channelsFirst).operation.forward [x.channelsToFront]).toOption =
          ((p.withLayout .channelsLast).operation.forward [x]).toOption.map
            (List.map Grid.channelsToFront)) ∧
      (p.IsGlobal → ∀ x : Grid α, 2 ≤ x.rank →
        (p.withLayout .channelsFirst).operation.forward [x.channelsToFront] =
          (p.withLayout .channelsLast).operation.forward [x])) ∧
    ((∀ a : α, 0 + a = a) → (∀ a b : α, a + b = b + a) →
      (∀ a b c : α, a + b + c = a + (b + c)) → SumsAgree α) ∧
    (p.IsGlobalAverage → ∀ x : Grid α, 2 ≤ x.rank →
      ((∃ ys, (p.withLayout .channelsFirst).operation.forward [x.channelsToFront] = .ok ys) ↔
        ∃ ys, (p.withLayout .channelsLast).operation.forward [x] = .ok ys) ∧
      ∀ ys ys', (p.withLayout .channelsFirst).operation.forward [x.channelsToFront] = .ok ys →
        (p.withLayout .channelsLast).operation.forward [x] = .ok ys' →
        ∃ b hw c y y', x.shape = b :: (hw ++ [c]) ∧ ys = [y] ∧ ys' = [y'] ∧ y.shape = [b, c] ∧
          y'.shape = [b, c] ∧ ∀ i < b, ∀ k < c,
            y.value [i, k] = channelAverage 1 x hw i k ∧
            y'.value [i, k] = channelAverage c x hw i k) ∧
    (∀ s : Shape,
      ((p.withLayout .channelsFirst).operation.outputShapes [s.channelsToFront]).toOption =
        ((p.withLayout .channelsLast).operation.outputShapes [s]).toOption.map
          (List.map Shape.channelsToFront)) ∧
    (p.IsGlobal → ∀ s : Shape,
      ((p.withLayout .channelsFirst).operation.outputShapes [s.channelsToFront]).toOption =
        ((p.withLayout .channelsLast).operation.outputShapes [s]).toOption) :=
  ⟨fun hs => ⟨fun _ => forward_channelsToFront hp hs, fun hg _ => forward_everywhere hg hs⟩,
    sumsAgree_of_laws, fun hg _ => forward_average hg, outputShapes_channelsToFront hp,
    outputShapes_everywhere⟩

end Primitive
end

/-- A sample of three places with two channels. -/
def threePlaces : Grid ℚ := ⟨[1, 3, 2], #[1, 2, 3, 4, 5, 6], rfl⟩

/-- The differences between one channel of a place and the other channel of the
    next. -/
def acrossChannels : Conv ℚ where
  kernel := ⟨[2, 2, 1], #[-1, 0, 0, 1], rfl⟩
  bias := some [10]
  activation := .relu
  strides := [1]
  dilationRate := [1]
  padding := .valid
  layout := .channelsLast
  regularization := default
  rank_kernel := by decide
  length_bias := by decide

/-- A convolution, and a maximum and an average of all positions, at both
    layouts. -/
theorem Primitive.layouts_agree_threePlaces :
    (conv acrossChannels).IsSpatial ∧ (pool ⟨.maximum, .everywhere 1, .channelsLast⟩ :
      Primitive ℚ).IsGlobal ∧ 2 ≤ threePlaces.rank ∧
    ((({ acrossChannels with layout := .channelsFirst } : Conv ℚ).forward
      [threePlaces.channelsToFront]).toOption.map (List.map fun y => (y.shape, y.toList)) =
        some [([1, 1, 2], [13, 13])]) ∧
    (Pool.forward ⟨.maximum, .everywhere 1, .channelsFirst⟩
      [threePlaces.channelsToFront]).toOption.map (List.map fun y => (y.shape, y.toList)) =
        some [([1, 2], [5, 6])] ∧
    (Pool.forward ⟨.average, .everywhere 1, .channelsFirst⟩
      [threePlaces.channelsToFront]).toOption.map (List.map fun y => (y.shape, y.toList)) =
        some [([1, 2], [3, 4])] := by
  obtain ⟨hconv, -⟩ := layouts_agree (p := conv acrossChannels) rfl
  obtain ⟨hmaximum, -⟩ := layouts_agree
    (p := (pool ⟨.maximum, .everywhere 1, .channelsLast⟩ : Primitive ℚ)) trivial
  obtain ⟨haverage, hlaws, -⟩ := layouts_agree
    (p := (pool ⟨.average, .everywhere 1, .channelsLast⟩ : Primitive ℚ)) trivial
  have hrank : 2 ≤ threePlaces.rank := by decide
  refine ⟨rfl, rfl, hrank, ?_, ?_, ?_⟩
  · refine (congrArg (Option.map _) ((hconv nofun).1 threePlaces hrank)).trans ?_
    decide +kernel
  · refine (congrArg (Option.map _ ∘ Except.toOption)
      ((hmaximum nofun).2 rfl threePlaces hrank)).trans ?_
    decide +kernel
  · have hsums := hlaws zero_add add_comm add_assoc
    refine (congrArg (Option.map _ ∘ Except.toOption)
      ((haverage fun _ => hsums).2 rfl threePlaces hrank)).trans ?_
    decide +kernel

/-- Two channels of eight places: a large number and ones, and zeros. -/
def steep : Grid Float32 :=
  ⟨[1, 8, 2], #[16777216, 0, 1, 0, 1, 0, 1, 0, 1, 0, 1, 0, 1, 0, 1, 0], rfl⟩

/-- In the arithmetic of the machine, no one that is added to the large number
    alone changes it; side by side, the ones are added to each other first. -/
theorem Primitive.averages_apart :
    (pool ⟨.average, .everywhere 1, .channelsLast⟩ : Primitive Float32).IsSpatial ∧
    2 ≤ steep.rank ∧
    ((pool ⟨.average, .everywhere 1, .channelsFirst⟩ : Primitive Float32).operation.forward
      [steep.channelsToFront]).toOption.map (List.map Grid.toList) = some [[2097152.75, 0]] ∧
    ((pool ⟨.average, .everywhere 1, .channelsLast⟩ : Primitive Float32).operation.forward
      [steep]).toOption.map (List.map Grid.toList) = some [[2097152, 0]] ∧
    (2097152.75 : Float32) ≠ 2097152 := by
  refine ⟨trivial, by decide, ?_, ?_, by decide⟩
  · decide +kernel
  · decide +kernel

end Neuroform

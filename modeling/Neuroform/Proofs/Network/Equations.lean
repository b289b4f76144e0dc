/-
  Neuroform — the equations of a network.

  A network says of every object what its input is, and what it makes of that
  (`Network.Solves`).  Without circles these equations have one solution at
  most.  Running the network finds it, in whatever order the objects are
  evaluated, as long as each of them stands behind those that it reads from.
-/
import Neuroform.Proofs.Network.React
import Neuroform.Proofs.Network.Recurrence

namespace Neuroform

variable {α : Type}

/-! ## What is received -/

/-- The places in the values of a view that belong to one position of its
    object. -/
def View.places (v : View) (j : Nat) : List Nat :=
  match v.indices with
  | none => [j]
  | some indices => (indices.zipIdx.filter (·.1 = j)).map (·.2)

section
variable [Zero α] [Add α] {v : View} {x y input : Table α} {rows size a b : Nat}

/-- Adding values to a view adds to each position what is at its places. -/
theorem accumulate_eq (hv : v.Shows size b) (hy : y.Sized rows b) (hi : input.Sized rows size) :
    v.accumulate y input = .ok (Table.ofFn rows size fun i j =>
      (v.places j).foldl (fun sum k => sum + y.value i k) (input.value i j)) := by
  obtain ⟨rfl, rfl⟩ := hi
  obtain ⟨o, indices | indices⟩ := v
  · obtain rfl : b = input.columns := hv
    obtain ⟨t, ht, hr⟩ := accumulate_full (o := o) (f := input.value) (g := y.value)
      ⟨hy.rows, hy.columns, fun _ _ _ _ => rfl⟩ ⟨rfl, rfl, fun _ _ _ _ => rfl⟩
    refine ht.trans (congrArg _ (Table.ext_values hr.rows hr.columns fun i hi j hj => ?_))
    rw [hr.rows] at hi
    rw [hr.columns] at hj
    rw [hr.value i hi j hj, Table.value_ofFn _ hi hj]
    rfl
  · obtain ⟨rfl, -⟩ := hv
    refine (if_pos hy.columns.ge : _ = Except.ok (scatter indices y input)).trans (congrArg _ ?_)
    refine Table.ofFn_congr fun i _ j _ => ?_
    rw [View.places, List.foldl_map, List.foldl_filter]
    simp only [decide_eq_true_eq]

variable [Mul α]

/-- What a transform gives has the size that was checked. -/
theorem sized_of_apply {t : Transform α} (hc : t.check a b = .ok ()) (hx : x.Sized rows a)
    (h : t.apply x = .ok y) : y.Sized rows b := by
  obtain ⟨rfl, rfl⟩ := hx
  obtain ⟨i, o, hi, ho, hin, hout, -⟩ := Transform.check_eq_ok.1 hc
  cases t with
  | identity =>
    obtain rfl := Except.ok.inj ho
    obtain rfl : x = y := Except.ok.inj h
    exact ⟨rfl, hout⟩
  | scalar factor =>
    obtain rfl := Except.ok.inj ho
    obtain rfl : x.map (· * factor) = y := Except.ok.inj h
    exact ⟨rfl, hout⟩
  | diagonal factors =>
    obtain rfl := Except.ok.inj hi
    obtain rfl := Except.ok.inj ho
    obtain ⟨_, h₁, h⟩ := bind_eq_ok.1 h
    obtain rfl := Except.ok.inj h₁
    obtain ⟨_, -, h⟩ := bind_eq_ok.1 h
    obtain rfl := pure_eq_ok.1 h
    exact ⟨rfl, hin.symm.trans hout⟩
  | dense weights =>
    obtain rfl := Except.ok.inj ho
    obtain ⟨_, h₁, h⟩ := bind_eq_ok.1 h
    obtain rfl := Except.ok.inj h₁
    obtain ⟨_, -, h⟩ := bind_eq_ok.1 h
    obtain ⟨_, -, h⟩ := bind_eq_ok.1 h
    obtain rfl := pure_eq_ok.1 h
    exact ⟨rfl, hout⟩
  | sparse s =>
    obtain rfl := Except.ok.inj ho
    obtain ⟨_, h₁, h⟩ := bind_eq_ok.1 h
    obtain rfl := Except.ok.inj h₁
    obtain ⟨_, -, h⟩ := bind_eq_ok.1 h
    obtain ⟨_, -, h⟩ := bind_eq_ok.1 h
    split at h
    · obtain rfl := Except.ok.inj h
      exact ⟨rfl, hout⟩
    · simp at h
  | convolution c =>
    obtain ⟨b', hsize, rfl⟩ := map_eq_ok.1 ho
    obtain ⟨_, h₁, h⟩ := bind_eq_ok.1 h
    obtain ⟨a', -, rfl⟩ := map_eq_ok.1 h₁
    obtain ⟨_, -, h⟩ := bind_eq_ok.1 h
    obtain ⟨_, hsize', h⟩ := bind_eq_ok.1 h
    obtain rfl := Except.ok.inj (hsize.symm.trans hsize')
    obtain ⟨_, -, h⟩ := bind_eq_ok.1 h
    obtain ⟨_, -, h⟩ := bind_eq_ok.1 h
    obtain rfl := pure_eq_ok.1 h
    exact ⟨rfl, hout⟩

/-! ### Connections -/

/-- What a connection carries, the objects having given values: what its
    transform makes of the values that its view shows. -/
def Connection.Carries (c : Connection α) (value : ObjectId → Table α) (y : Table α) : Prop :=
  ∃ x, c.pre.select (value c.pre.object) = .ok x ∧ c.transform.apply x = .ok y

/-- A sum to which connections, one after the other, add what they carry to a
    cell. -/
def gathered (carried : List (Connection α × Table α)) (i j : Nat) (sum : α) : α :=
  carried.foldl (fun sum e => (e.1.post.places j).foldl (fun sum k => sum + e.2.value i k) sum) sum

/-- A connection fits the values that it reads, and an input of some size. -/
def Connection.FitsAt (c : Connection α) (value : ObjectId → Table α) (rows size : Nat) : Prop :=
  ∃ m a b, (value c.pre.object).Sized rows m ∧ c.pre.Shows m a ∧
    c.transform.check a b = .ok () ∧ c.post.Shows size b

end

section
variable [Scalar α] {value : ObjectId → Table α} {rows size : Nat}

/-- What a connection carries fits the view that it adds to. -/
theorem sized_carries {c : Connection α} {y : Table α} (hc : c.FitsAt value rows size)
    (h : c.Carries value y) : ∃ b, c.post.Shows size b ∧ y.Sized rows b := by
  obtain ⟨m, a, b, hv, ha, hcheck, hb⟩ := hc
  obtain ⟨x, hx, hy⟩ := h
  obtain ⟨x', hx', hs⟩ := sized_select ha hv
  obtain rfl := Except.ok.inj (hx.symm.trans hx')
  exact ⟨b, hb, sized_of_apply hcheck hs hy⟩

/-- Adding to an input what a connection carries. -/
theorem carry_eq_ok_iff {c : Connection α} {input t : Table α} (hc : c.FitsAt value rows size)
    (hi : input.Sized rows size) :
    c.wire.carry (fun u => some (value u)) input = .ok t ↔ ∃ y, c.Carries value y ∧
      t = Table.ofFn rows size fun i j => gathered [(c, y)] i j (input.value i j) := by
  have hadd : ∀ {y}, c.Carries value y → c.post.accumulate y input = .ok
      (Table.ofFn rows size fun i j => gathered [(c, y)] i j (input.value i j)) := fun h =>
    let ⟨_, hb, hy⟩ := sized_carries hc h
    accumulate_eq hb hy hi
  constructor
  · intro h
    obtain ⟨_, h₁, h⟩ := bind_eq_ok.1 h
    obtain rfl := Option.some.inj (orFault_eq_ok.1 h₁)
    obtain ⟨x, hx, h⟩ := bind_eq_ok.1 h
    obtain ⟨y, hy, h⟩ := bind_eq_ok.1 h
    exact ⟨y, ⟨x, hx, hy⟩, Except.ok.inj (h.symm.trans (hadd ⟨x, hx, hy⟩))⟩
  · rintro ⟨y, ⟨x, hx, hy⟩, rfl⟩
    exact carry_eq_ok rfl hx hy (hadd ⟨x, hx, hy⟩)

/-- Adding up what connections carry, one after the other. -/
theorem carries_eq_ok {cs : List (Connection α)} (hcs : ∀ c ∈ cs, c.FitsAt value rows size)
    {input t : Table α} (hi : input.Sized rows size) :
    (cs.map Connection.wire).foldlM (Wire.carry fun u => some (value u)) input = .ok t ↔
      ∃ ys, List.Forall₂ (fun c y => c.Carries value y) cs ys ∧
        t = Table.ofFn rows size fun i j => gathered (cs.zip ys) i j (input.value i j) := by
  induction cs generalizing input with
  | nil =>
    obtain ⟨rfl, rfl⟩ := hi
    have hself : (Table.ofFn input.rows input.columns fun i j => gathered [] i j (input.value i j)) =
        input := Table.ofFn_value input
    constructor
    · exact fun h => ⟨[], .nil, (foldlM_nil_eq_ok.1 h).symm.trans hself.symm⟩
    · rintro ⟨_, ⟨⟩, rfl⟩
      exact foldlM_nil_eq_ok.2 hself.symm
  | cons c cs ih =>
    have hrest := fun c' hc' => hcs c' (List.mem_cons_of_mem _ hc')
    rw [List.map_cons, foldlM_cons_eq_ok]
    constructor
    · rintro ⟨acc, hacc, h⟩
      obtain ⟨y, hy, rfl⟩ := (carry_eq_ok_iff (hcs c (by simp)) hi).1 hacc
      obtain ⟨ys, hys, rfl⟩ := (ih hrest ⟨rfl, rfl⟩).1 h
      refine ⟨y :: ys, .cons hy hys, Table.ofFn_congr fun i hi j hj => ?_⟩
      rw [Table.value_ofFn _ hi hj]
      rfl
    · rintro ⟨_, hall, rfl⟩
      obtain ⟨y, ys, hy, hys, rfl⟩ := List.forall₂_cons_left_iff.1 hall
      refine ⟨_, (carry_eq_ok_iff (hcs c (by simp)) hi).2 ⟨y, hy, rfl⟩, ?_⟩
      refine (ih hrest ⟨rfl, rfl⟩).2 ⟨ys, hys, Table.ofFn_congr fun i hi j hj => ?_⟩
      rw [Table.value_ofFn _ hi hj]
      rfl

end

/-! ## What objects make of it -/

/-- What an object of a kind makes of its input.  `fed` is data in the place of
    its constant values. -/
def ObjectKind.Makes [Scalar α] (k : ObjectKind α) (fed : Option (Table α)) (batch : Nat)
    (input t : Table α) : Prop :=
  match k with
  | .node (.passthrough _) => t = input
  | .node (.constant values) =>
    t = fed.getD (Table.ofFn batch values.length fun _ j => values.getD j 0)
  | .neurons e => t = Table.ofFn batch e.size fun i j =>
    e.neuron.rate (input.value i j * e.gain.getD j 0 + e.bias.getD j 0)
  | .tensorNode f => ∃ x y, input.toGrid.reshape (batch :: f.shapeIn) = .ok x ∧
    f.function.eval x = .ok y ∧ Word.ofNat (batch * f.sizeOut) = .ok y.size ∧
    Table.ofGrid batch f.sizeOut y = .ok t

theorem react_eq_ok_iff [Scalar α] {k : ObjectKind α} {fed : Option (Table α)} {batch size : Nat}
    {input t : Table α} (hk : k.WellFormed) (hs : k.sizeIn = .ok size)
    (hi : input.Sized batch size) :
    k.react fed batch input = .ok t ↔ k.Makes fed batch input t := by
  cases k with
  | node n =>
    cases n with
    | passthrough => exact pure_eq_ok.trans eq_comm
    | constant => exact pure_eq_ok.trans eq_comm
  | neurons e =>
    obtain rfl := Except.ok.inj hs
    obtain ⟨u, (hu : (ObjectKind.neurons e).react fed batch input = .ok u), hr⟩ :=
      react_neurons hk.1 hk.2
        (⟨hi.rows, hi.columns, fun _ _ _ _ => rfl⟩ : input.Reads batch e.size input.value)
    have hvalue : u = Table.ofFn batch e.size fun i j =>
        e.neuron.rate (input.value i j * e.gain.getD j 0 + e.bias.getD j 0) := by
      refine Table.ext_values hr.rows hr.columns fun i hi j hj => ?_
      rw [hr.rows] at hi
      rw [hr.columns] at hj
      rw [hr.value i hi j hj, Table.value_ofFn _ hi hj]
    rw [hu, Except.ok.injEq, hvalue]
    exact eq_comm
  | tensorNode f =>
    simp only [ObjectKind.react, Network.react, bind_eq_ok, within_eq_ok, require_eq_ok,
      ObjectKind.Makes]
    constructor
    · rintro ⟨x, hx, y, hy, count, hcount, _, rfl, ht⟩
      exact ⟨x, y, hx, hy, hcount, ht⟩
    · rintro ⟨x, y, hx, hy, hcount, ht⟩
      exact ⟨x, hx, y, hy, _, hcount, (), rfl, ht⟩

/-! ## The equations -/

namespace Network

section
variable [Scalar α] {n : Network α} {fed states : States α} {batch size : Nat}
  {value value' : ObjectId → Table α} {o : ObjectId} {input t : Table α}

/-- The input of an object, the objects having given values: what the
    connections into it carry, added up in their order from zeros on. -/
def Receives (n : Network α) (value : ObjectId → Table α) (batch size : Nat) (o : ObjectId)
    (input : Table α) : Prop :=
  let cs := (n.connectionsInto o).map (·.2)
  ∃ ys, List.Forall₂ (fun c y => c.Carries value y) cs ys ∧
    input = Table.ofFn batch size fun i j => gathered (cs.zip ys) i j 0

/-- The value of an object, the objects having given values: what it makes of
    its input. -/
def Gives (n : Network α) (fed : States α) (batch : Nat) (value : ObjectId → Table α)
    (o : ObjectId) (t : Table α) : Prop :=
  ∃ x size input, n.object o = .ok x ∧ x.kind.sizeIn = .ok size ∧
    n.Receives value batch size o input ∧ x.kind.Makes (fed.lookup o) batch input t

/-- The equations of a network: every object has the value that it is given by
    the values of the others. -/
def Solves (n : Network α) (fed : States α) (batch : Nat) (value : ObjectId → Table α) : Prop :=
  ∀ o ∈ n.objectIds, n.Gives fed batch value o (value o)

/-! ### Values before an object -/

omit [Scalar α] in
/-- A connection into an object makes what it reads precede the object. -/
theorem precedes_of_mem {c : Connection α} (h : c ∈ (n.connectionsInto o).map (·.2)) :
    n.sketch.Precedes c.pre.object o := by
  obtain ⟨e, he, rfl⟩ := List.mem_map.1 h
  exact ⟨e.2.wire, (mem_connectionsInto he).2, rfl⟩

theorem Receives.congr (h : n.Receives value batch size o input)
    (hv : ∀ u, n.sketch.Precedes u o → value u = value' u) :
    n.Receives value' batch size o input := by
  obtain ⟨ys, hys, hinput⟩ := h
  refine ⟨ys, List.forall₂_iff_get.2 ⟨hys.length_eq, fun i hi hi' => ?_⟩, hinput⟩
  obtain ⟨x, hx, hy⟩ := hys.get hi hi'
  exact ⟨x, hv _ (precedes_of_mem (List.get_mem _ ⟨i, hi⟩)) ▸ hx, hy⟩

/-- What an object is given depends on the values before it only. -/
theorem Gives.congr (h : n.Gives fed batch value o t)
    (hv : ∀ u, n.sketch.Precedes u o → value u = value' u) : n.Gives fed batch value' o t :=
  let ⟨x, size, input, hx, hs, hi, ht⟩ := h
  ⟨x, size, input, hx, hs, hi.congr hv, ht⟩

theorem carries_rightUnique : Relator.RightUnique fun (c : Connection α) y => c.Carries value y := by
  rintro c y y' ⟨x, hx, hy⟩ ⟨x', hx', hy'⟩
  obtain rfl := Except.ok.inj (hx.symm.trans hx')
  exact Except.ok.inj (hy.symm.trans hy')

theorem makes_unique {k : ObjectKind α} {fed : Option (Table α)} {t' : Table α}
    (h : k.Makes fed batch input t) (h' : k.Makes fed batch input t') : t = t' := by
  match k, h, h' with
  | .node (.passthrough _), h, h' => exact h.trans h'.symm
  | .node (.constant _), h, h' => exact h.trans h'.symm
  | .neurons _, h, h' => exact h.trans h'.symm
  | .tensorNode f, ⟨x, y, hx, hy, _, ht⟩, ⟨x', y', hx', hy', _, ht'⟩ =>
    obtain rfl := Except.ok.inj (hx.symm.trans hx')
    obtain rfl := Except.ok.inj (hy.symm.trans hy')
    exact Except.ok.inj (ht.symm.trans ht')

/-- An object is given one value at most. -/
theorem Gives.unique {t' : Table α} (h : n.Gives fed batch value o t)
    (h' : n.Gives fed batch value o t') : t = t' := by
  obtain ⟨x, size, input, hx, hs, ⟨ys, hys, rfl⟩, ht⟩ := h
  obtain ⟨x', size', input', hx', hs', ⟨ys', hys', rfl⟩, ht'⟩ := h'
  obtain rfl := Except.ok.inj (hx.symm.trans hx')
  obtain rfl := Except.ok.inj (hs.symm.trans hs')
  obtain rfl := List.right_unique_forall₂' carries_rightUnique hys hys'
  exact makes_unique ht ht'

/-- The equations have one solution at most: two agree on an object, if they
    agree on all before it. -/
theorem Solves.unique (ha : n.Acyclic) (hl : n.sketch.Linked) (h : n.Solves fed batch value)
    (h' : n.Solves fed batch value') : ∀ o ∈ n.objectIds, value o = value' o := by
  intro o
  induction ha.acc hl o with
  | intro o _ ih =>
    intro ho
    refine ((h o ho).congr fun u hu => ih u hu ?_).unique (h' o ho)
    exact mem_objectIds.2 (length_kinds (n := n) ▸ (hl.index_lt hu).1)

/-! ### Sizes -/

/-- What an object makes of an input of its size has its size. -/
theorem sized_makes {k : ObjectKind α} {fed : Option (Table α)} (hs : k.sizeIn = .ok size)
    (hi : input.Sized batch size) (hfed : ∀ u, fed = some u → u.Sized batch k.sizeOut)
    (h : k.Makes fed batch input t) : t.Sized batch k.sizeOut := by
  match k, h with
  | .node (.passthrough _), h =>
    obtain rfl := Except.ok.inj hs
    exact h ▸ hi
  | .node (.constant values), h =>
    obtain rfl := h
    cases fed with
    | none => exact ⟨rfl, rfl⟩
    | some u => exact hfed u rfl
  | .neurons _, h => exact h ▸ ⟨rfl, rfl⟩
  | .tensorNode _, ⟨_, _, _, _, _, h⟩ =>
    obtain ⟨hr, hc, -⟩ := Table.ofGrid_eq_ok.1 h
    exact ⟨hr, hc⟩

/-- The objects before another one have values of their sizes. -/
def SizedBefore (n : Network α) (batch : Nat) (value : ObjectId → Table α) (o : ObjectId) : Prop :=
  ∀ u, n.sketch.Precedes u o → ∃ x, n.object u = .ok x ∧ (value u).Sized batch x.kind.sizeOut

theorem sized_gives (hfed : fed.forM (n.checkFed batch) = .ok ())
    (h : n.Gives fed batch value o t) :
    ∃ x, n.object o = .ok x ∧ t.Sized batch x.kind.sizeOut := by
  obtain ⟨x, size, input, hx, hs, ⟨ys, -, rfl⟩, ht⟩ := h
  exact ⟨x, hx, sized_makes hs ⟨rfl, rfl⟩ (fun u hu => sized_fed hfed hx hu) ht⟩

theorem Solves.sizedBefore (hl : n.sketch.Linked) (hfed : fed.forM (n.checkFed batch) = .ok ())
    (h : n.Solves fed batch value) : n.SizedBefore batch value o := fun u hu =>
  sized_gives hfed (h u (mem_objectIds.2 (length_kinds (n := n) ▸ (hl.index_lt hu).1)))

omit [Scalar α] in
/-- What has been checked of a connection into an object. -/
theorem checked_of_mem (hn : n.Sound) {x : Object α} (hx : n.object o = .ok x)
    (hs : x.kind.sizeIn = .ok size) {c : Connection α} (hc : c ∈ (n.connectionsInto o).map (·.2)) :
    ∃ u a b, n.object c.pre.object = .ok u ∧ c.pre.Shows u.kind.sizeOut a ∧
      c.transform.check a b = .ok () ∧ c.post.Shows size b := by
  obtain ⟨e, he, rfl⟩ := List.mem_map.1 hc
  obtain ⟨hwire, hpost⟩ := Sketch.mem_into.1 (mem_connectionsInto he).2
  obtain ⟨kin, kout, size', a, b, hin, ha, hout, hsize, hb, hcheck⟩ := hn.checked _ hwire
  obtain ⟨u, hu, rfl⟩ := kind?_sketch.1 hin
  obtain rfl := Option.some.inj ((kind?_sketch.2 ⟨x, hx, rfl⟩).symm.trans (hpost ▸ hout))
  obtain rfl := Except.ok.inj (hs.symm.trans hsize)
  exact ⟨u, a, b, hu, ha, hcheck, hb⟩

omit [Scalar α] in
/-- Connections fit values of the sizes that they were checked for. -/
theorem fitsAt_of_sized (hn : n.Sound) {x : Object α} (hx : n.object o = .ok x)
    (hs : x.kind.sizeIn = .ok size) (hv : n.SizedBefore batch value o) :
    ∀ c ∈ (n.connectionsInto o).map (·.2), c.FitsAt value batch size := by
  intro c hc
  obtain ⟨u, hu, hsized⟩ := hv _ (precedes_of_mem hc)
  obtain ⟨u', a, b, hu', ha, hcheck, hb⟩ := checked_of_mem hn hx hs hc
  obtain rfl := Except.ok.inj (hu.symm.trans hu')
  exact ⟨_, a, b, hsized, ha, hcheck, hb⟩

/-! ### Runs -/

/-- One more object is evaluated to what it is given by the values before
    it. -/
theorem evaluate_eq_ok_iff (hn : n.Sound) (hv : n.SizedBefore batch value o)
    (hread : ∀ u, n.sketch.Precedes u o → states.lookup u = some (value u)) {states' : States α} :
    n.evaluate fed batch states o = .ok states' ↔
      ∃ t, n.Gives fed batch value o t ∧ (o, t) :: states = states' := by
  have hinto : n.sketch.into o = ((n.connectionsInto o).map (·.2)).map Connection.wire := by
    rw [List.map_map, ← map_wire_connectionsInto]
    rfl
  have hcarry : ∀ input, (n.sketch.into o).foldlM (Wire.carry (states.lookup ·)) input =
      (n.sketch.into o).foldlM (Wire.carry fun u => some (value u)) input := fun input =>
    carries_congr fun w hw => hread _ ⟨w, hw, rfl⟩
  have hreceive : ∀ {x size input}, n.object o = .ok x → x.kind.sizeIn = .ok size →
      ((n.sketch.into o).foldlM (Wire.carry (states.lookup ·)) (Table.zeros batch size) = .ok input ↔
        n.Receives value batch size o input) := by
    intro x size input hx hs
    rw [hcarry, hinto, carries_eq_ok (fitsAt_of_sized hn hx hs hv) ⟨rfl, rfl⟩]
    simp only [Table.value_zeros]
    rfl
  have hreact : ∀ {x size input t}, n.object o = .ok x → x.kind.sizeIn = .ok size →
      n.Receives value batch size o input → (x.kind.react (fed.lookup o) batch input = .ok t ↔
        x.kind.Makes (fed.lookup o) batch input t) := by
    rintro x size _ t hx hs ⟨_, _, rfl⟩
    have hk : x.kind ∈ n.sketch.kinds :=
      List.mem_map_of_mem (Array.mem_def.1 (Array.mem_of_getElem? (object_eq_ok.1 hx)))
    exact react_eq_ok_iff (hn.kinds _ hk) hs ⟨rfl, rfl⟩
  rw [evaluate_eq_ok]
  constructor
  · rintro ⟨_, size, input, t, hk, hs, hi, ht, h⟩
    obtain ⟨x, hx, rfl⟩ := kind?_sketch.1 hk
    have hi := (hreceive hx hs).1 hi
    exact ⟨t, ⟨x, size, input, hx, hs, hi, (hreact hx hs hi).1 ht⟩, h⟩
  · rintro ⟨t, ⟨x, size, input, hx, hs, hi, ht⟩, h⟩
    exact ⟨_, size, input, t, kind?_sketch.2 ⟨x, hx, rfl⟩, hs, (hreceive hx hs).2 hi,
      (hreact hx hs hi).2 ht, h⟩

/-- What has been evaluated has values of its size. -/
def Known (n : Network α) (batch : Nat) (done : List ObjectId) (states : States α) : Prop :=
  ∀ u ∈ done, ∃ x t, n.object u = .ok x ∧ states.lookup u = some t ∧ t.Sized batch x.kind.sizeOut

section
variable {done rest order : List ObjectId} {states states' : States α}

omit [Scalar α] in
theorem lookup_later {t : Table α} {u : ObjectId} (ho : o ∉ done) (hu : u ∈ done) :
    ((o, t) :: states).lookup u = states.lookup u := by
  rw [List.lookup_cons, beq_eq_false_iff_ne.2 fun h : u = o => ho (h ▸ hu)]

/-- Known values are values of some valuation. -/
theorem Known.exists_value (h : n.Known batch done states) :
    ∃ value : ObjectId → Table α, ∀ u ∈ done, states.lookup u = some (value u) := by
  refine ⟨fun u => (states.lookup u).getD (Table.zeros 0 0), fun u hu => ?_⟩
  obtain ⟨_, t, -, ht, -⟩ := h u hu
  simp [ht]

omit [Scalar α] in
/-- One more object has been evaluated. -/
theorem Known.snoc (h : n.Known batch done states) (ho : o ∉ done) {x : Object α}
    (hx : n.object o = .ok x) {t : Table α} (ht : t.Sized batch x.kind.sizeOut) :
    n.Known batch (done ++ [o]) ((o, t) :: states) := by
  intro u hu
  rcases List.mem_append.1 hu with hu | hu
  · obtain ⟨y, t', hy, ht', hs⟩ := h u hu
    exact ⟨y, t', hy, (lookup_later ho hu).trans ht', hs⟩
  · obtain rfl := List.mem_singleton.1 hu
    exact ⟨x, t, hx, by simp, ht⟩

omit [Scalar α] in
theorem Known.sizedBefore (h : n.Known batch done states)
    (hvalue : ∀ u ∈ done, states.lookup u = some (value u))
    (hbefore : ∀ u, n.sketch.Precedes u o → u ∈ done) : n.SizedBefore batch value o := by
  intro u hu
  obtain ⟨x, t, hx, ht, hs⟩ := h u (hbefore u hu)
  obtain rfl := Option.some.inj (ht.symm.trans (hvalue u (hbefore u hu)))
  exact ⟨x, hx, hs⟩

/-- The objects that follow in an order are evaluated to what they are given by
    the values of all. -/
theorem evaluates_eq_ok (hn : n.Sound) (hfed : fed.forM (n.checkFed batch) = .ok ())
    (ht : n.sketch.Topological order) (hd : order.Nodup) (ho : order = done ++ rest)
    (hk : n.Known batch done states) :
    rest.foldlM (n.evaluate fed batch) states = .ok states' ↔ ∃ value,
      (∀ u ∈ done, states.lookup u = some (value u)) ∧
      (∀ o ∈ rest, n.Gives fed batch value o (value o)) ∧
      (rest.map fun o => (o, value o)).reverse ++ states = states' := by
  induction rest generalizing done states with
  | nil =>
    obtain ⟨value, hvalue⟩ := hk.exists_value
    rw [foldlM_nil_eq_ok]
    exact ⟨fun h => ⟨value, hvalue, nofun, h⟩, fun ⟨_, _, _, h⟩ => h⟩
  | cons o rest ih =>
    have hbefore : ∀ u, n.sketch.Precedes u o → u ∈ done := by
      rintro u ⟨w, hw, rfl⟩
      exact ht done o rest ho w hw
    have hnew : o ∉ done := fun hmem =>
      (List.nodup_append.1 (ho ▸ hd)).2.2 o hmem o (by simp) rfl
    rw [foldlM_cons_eq_ok]
    constructor
    · rintro ⟨_, hstep, hrest⟩
      obtain ⟨old, hold⟩ := hk.exists_value
      obtain ⟨t, hg, rfl⟩ := (evaluate_eq_ok_iff hn (hk.sizedBefore hold hbefore)
        fun u hu => hold u (hbefore u hu)).1 hstep
      obtain ⟨x, hx, hs⟩ := sized_gives hfed hg
      obtain ⟨value, hvalue, hgives, rfl⟩ :=
        (ih (by simp [ho]) (hk.snoc hnew hx hs)).1 hrest
      have hdone : ∀ u ∈ done, states.lookup u = some (value u) := fun u hu =>
        (lookup_later hnew hu).symm.trans (hvalue u (List.mem_append_left _ hu))
      obtain rfl : t = value o := by simpa using hvalue o (by simp)
      refine ⟨value, hdone, List.forall_mem_cons.2 ⟨hg.congr fun u hu => ?_, hgives⟩, by simp⟩
      exact Option.some.inj ((hold u (hbefore u hu)).symm.trans (hdone u (hbefore u hu)))
    · rintro ⟨value, hvalue, hgives, rfl⟩
      obtain ⟨hg, hgives⟩ := List.forall_mem_cons.1 hgives
      obtain ⟨x, hx, hs⟩ := sized_gives hfed hg
      refine ⟨_, (evaluate_eq_ok_iff hn (hk.sizedBefore hvalue hbefore)
        fun u hu => hvalue u (hbefore u hu)).2 ⟨_, hg, rfl⟩, ?_⟩
      refine (ih (by simp [ho]) (hk.snoc hnew hx hs)).2 ⟨value, fun u hu => ?_, hgives, by simp⟩
      rcases List.mem_append.1 hu with hu | hu
      · exact (lookup_later hnew hu).trans (hvalue u hu)
      · obtain rfl := List.mem_singleton.1 hu
        simp

end

/-- Whatever the order, evaluating all objects solves the equations. -/
theorem settle_eq_ok_iff (hn : n.Sound) (hfed : fed.forM (n.checkFed batch) = .ok ())
    {order : List ObjectId} (ht : n.sketch.Topological order) (hp : order.Perm n.objectIds)
    {states : States α} : n.settle order fed batch = .ok states ↔ ∃ value,
      n.Solves fed batch value ∧ (order.map fun o => (o, value o)).reverse = states := by
  have hnone : n.Known batch [] [] := by simp [Known]
  rw [settle, evaluates_eq_ok hn hfed ht (hp.nodup_iff.2 nodup_objectIds)
    (List.nil_append order).symm hnone]
  simp [Solves, hp.mem_iff]

/-- Probes read values of the solution. -/
def Reads (n : Network α) (value : ObjectId → Table α) (outs : List (Table α)) : Prop :=
  List.Forall₂ (fun p y => p.target.select (value p.target.object) = .ok y) n.probes.toList outs

theorem simulate_eq_ok_iff (hn : n.Sound) {order : List ObjectId} (ht : n.sketch.Topological order)
    (hp : order.Perm n.objectIds) {outs : List (Table α)} :
    n.simulate order fed batch = .ok outs ↔ fed.forM (n.checkFed batch) = .ok () ∧
      n.requireSpace batch = .ok () ∧ ∃ value, n.Solves fed batch value ∧ n.Reads value outs := by
  have hreads : ∀ {value : ObjectId → Table α}, (n.probes.toList.mapM fun p => do
      p.target.select (← orRefuse
        ((order.map fun o => (o, value o)).reverse.lookup p.target.object)
        NetworkCause.probedNotEvaluated)) = .ok outs ↔ n.Reads value outs := by
    intro value
    have hlookup : ∀ p ∈ n.probes.toList,
        (order.map fun o => (o, value o)).reverse.lookup p.target.object =
          some (value p.target.object) := fun p hmem => by
      obtain ⟨k, _, hk, -⟩ := hn.probes p (Array.mem_def.2 hmem)
      have ho : p.target.object ∈ order :=
        hp.mem_iff.2 (mem_objectIds.2 (length_kinds (n := n) ▸ Sketch.index_lt hk))
      refine lookup_of_mem (List.mem_reverse.2 (List.mem_map_of_mem ho)) fun t ht => ?_
      obtain ⟨u, -, hu⟩ := List.mem_map.1 (List.mem_reverse.1 ht)
      obtain ⟨rfl, rfl⟩ := Prod.mk.inj hu
      rfl
    rw [mapM_forall₂, Reads, List.forall₂_iff_zip, List.forall₂_iff_zip]
    refine and_congr_right fun _ => forall₂_congr fun p y => forall_congr' fun hzip => ?_
    rw [hlookup p (List.of_mem_zip hzip).1]
    rfl
  simp only [simulate, bind_eq_ok]
  constructor
  · rintro ⟨_, hfed, _, hspace, _, hs, hr⟩
    obtain ⟨value, hv, rfl⟩ := (settle_eq_ok_iff hn hfed ht hp).1 hs
    exact ⟨hfed, hspace, value, hv, hreads.1 hr⟩
  · rintro ⟨hfed, hspace, value, hv, hr⟩
    exact ⟨(), hfed, (), hspace, _, (settle_eq_ok_iff hn hfed ht hp).2 ⟨value, hv, rfl⟩,
      hreads.2 hr⟩

/-- A network without circles runs if it accepts the data, has memory, and its
    equations have a solution. -/
theorem predict_eq_ok_iff (hn : n.Sound) (ha : n.Acyclic) {outs : List (Table α)} :
    n.predict fed batch = .ok outs ↔ fed.forM (n.checkFed batch) = .ok () ∧
      n.requireSpace batch = .ok () ∧ ∃ value, n.Solves fed batch value ∧ n.Reads value outs := by
  have hl := hn.checked.linked
  obtain ⟨order, ho⟩ := (exists_order_iff hl).2 ha
  rw [← simulate_eq_ok_iff hn (order_spec hl ho).1 (perm_of_order hl ho), predict, ho]
  rfl

/-- **Running a network solves its equations.**  A network without circles runs
    if and only if it accepts the data, memory holds the inputs of all objects,
    and its equations have a solution; its probes read that solution, and it is
    the only one.  These are the values that a run finds, in whatever order the
    objects are evaluated, as long as each one stands behind those that it reads
    from, and so all orders give the probes the same values. -/
theorem run_solves (hn : n.Reachable) (ha : n.Acyclic) :
    (∀ outs, n.predict fed batch = .ok outs ↔ fed.forM (n.checkFed batch) = .ok () ∧
      n.requireSpace batch = .ok () ∧ ∃ value, n.Solves fed batch value ∧ n.Reads value outs) ∧
    (∀ value value', n.Solves fed batch value → n.Solves fed batch value' →
      ∀ o ∈ n.objectIds, value o = value' o) ∧
    ∀ order, order.Perm n.objectIds → n.sketch.Topological order →
      (∀ states, fed.forM (n.checkFed batch) = .ok () → n.settle order fed batch = .ok states →
        ∃ value, n.Solves fed batch value ∧
          states = (order.map fun o => (o, value o)).reverse) ∧
      ∀ outs, n.simulate order fed batch = .ok outs ↔ n.predict fed batch = .ok outs := by
  have hs := hn.sound
  refine ⟨fun outs => predict_eq_ok_iff hs ha,
    fun value value' h h' => h.unique ha hs.checked.linked h', fun order hp ht =>
      ⟨fun states hfed hsettle => ?_, fun outs => ?_⟩⟩
  · obtain ⟨value, hv, hstates⟩ := (settle_eq_ok_iff hs hfed ht hp).1 hsettle
    exact ⟨value, hv, hstates.symm⟩
  · rw [predict_eq_ok_iff hs ha, simulate_eq_ok_iff hs ht hp]

end

/-- Two connections into an ensemble: one swaps the values of a node, the other
    one adds both of them to the same neuron. -/
def parallel : List (Call ℚ) :=
  [.add (.node (.constant [1, 2])) "a", .add (.neurons ⟨2, .rectified 1, [1, 1], [0, 1]⟩) "e",
    .connect ⟨⟨0⟩, some [1, 0]⟩ (.full ⟨1⟩) (.scalar 3) none,
    .connect (.full ⟨0⟩) ⟨⟨1⟩, some [0, 0]⟩ .identity none, .probe (.full ⟨1⟩) none]

/-- The neurons are driven by 3 · 2 + 1 + 2 and 3 · 1. -/
theorem run_solves_parallel : (build "net" parallel).Reachable ∧ (build "net" parallel).Acyclic ∧
    ∃ value outs, (build "net" parallel).Solves [] 1 value ∧
      (build "net" parallel).Reads value outs ∧ outs.map (·.cells) = [#[9, 4]] := by
  have hn : (build "net" parallel).Reachable := reachable_build (by
    simp [parallel, Call.WellFormed, ObjectKind.WellFormed, Transform.WellFormed])
  have ha : (build "net" parallel).Acyclic := acyclic_of_forward (by decide +kernel)
  have hrun : ((build "net" parallel).predict [] 1 >>= fun outs => pure (outs.map (·.cells)) :
      Outcome _).toOption = some [#[9, 4]] := by decide +kernel
  obtain ⟨outs, houts, hcells⟩ := bind_eq_ok.1 (toOption_eq_some.1 hrun)
  obtain ⟨-, -, value, hv, hr⟩ := ((run_solves hn ha).1 outs).1 houts
  exact ⟨hn, ha, value, outs, hv, hr, pure_eq_ok.1 hcells⟩

end Network
end Neuroform

/-
  Neuroform — copies of weights.

  The objects and connections of a converted network stand in the order of the
  entries that they were made for (`maker?`, `wirer?`), each entry's as one part
  that nothing else is wired to (`Turn.stands`).  The part of a native dense
  layer or convolution is an object for the output, a connection with the
  kernel, and what brings the biases (`Copy.Built`).  So invocations of one
  layer have copies of its weights, which are equal and share nothing.
-/
import Neuroform.Proofs.Conversion.Convolving
import Neuroform.Proofs.Conversion.Entries
import Neuroform.Proofs.Conversion.Relaying

namespace Neuroform

variable {α : Type}

/-! ## Places -/

section
variable {β : Type} {size : β → Nat} {x : β} {after : List β}

/-- The member of a list that a place belongs to, if each member takes some
    places behind those of the members before it. -/
def holder? (size : β → Nat) : List β → Nat → Option β
  | [], _ => none
  | x :: xs, k => if k < size x then some x else holder? size xs (k - size x)

theorem mem_of_holder? : ∀ {xs : List β} {k : Nat}, holder? size xs k = some x → x ∈ xs
  | y :: xs, k, h => by
    rw [holder?] at h
    split at h
    · exact List.mem_cons.2 (.inl (Option.some.inj h).symm)
    · exact List.mem_cons_of_mem y (mem_of_holder? h)

/-- The places of a member that is listed once. -/
theorem holder?_eq_some_iff (hafter : x ∉ after) : ∀ {before : List β} {k : Nat},
    x ∉ before → (holder? size (before ++ x :: after) k = some x ↔
      (before.map size).sum ≤ k ∧ k < (before.map size).sum + size x)
  | [], k, _ => by
    rw [List.nil_append, holder?]
    split
    case isTrue hk => simp [hk]
    case isFalse hk =>
      refine iff_of_false (fun h => hafter (mem_of_holder? h)) fun h => hk ?_
      simpa using h.2
  | y :: before, k, hbefore => by
    rw [List.mem_cons, not_or] at hbefore
    rw [List.cons_append, holder?, List.map_cons, List.sum_cons]
    split
    case isTrue hk =>
      refine iff_of_false (fun h => hbefore.1 (Option.some.inj h).symm) fun h => ?_
      omega
    case isFalse hk =>
      rw [holder?_eq_some_iff hafter hbefore.2]
      omega

/-- Names that take the places from a first one on. -/
theorem mem_iff_of_consecutive {ι : Type} {index : ι → Nat} (hinj : index.Injective)
    {names : List ι} {first n : Nat} (h : names.map index = List.range' first n) {i : ι} :
    i ∈ names ↔ first ≤ index i ∧ index i < first + n := by
  rw [← List.mem_map_of_injective hinj, h, List.mem_range'_1]

end

namespace Sketch
variable {s t : Sketch α} {c : ConnectionId} {x : Wire α}

/-- The wire of a connection. -/
def wire? (s : Sketch α) (c : ConnectionId) : Option (Wire α) := s.wires[c.index]?

theorem mem_of_wire? (h : s.wire? c = some x) : x ∈ s.wires := List.mem_of_getElem? h

theorem wire?_append_of_lt (h : c.index < s.wires.length) : (s ++ t).wire? c = s.wire? c :=
  List.getElem?_append_left h

theorem wire?_append_of_le (h : s.wires.length ≤ c.index) :
    (s ++ t).wire? c = t.wire? ⟨c.index - s.wires.length⟩ :=
  List.getElem?_append_right h

end Sketch

/-- The sketch of a part. -/
def Part.sketch (p : Part α) : Sketch α :=
  ⟨p.objects.map (·.kind), p.connections.map Connection.wire⟩

/-- What is drawn is the sketch of the part that a network is extended by. -/
theorem Workspace.Draws.sketch_eq {w w' : Workspace α} {part : Sketch α} {p : Part α}
    (h : w.Draws part w') (hp : w'.network = w.network.extend p) : p.sketch = part := by
  have hsketch : w.network.sketch ++ p.sketch = w.network.sketch ++ part :=
    Network.sketch_extend.symm.trans (hp ▸ h.sketch)
  exact congrArg₂ Sketch.mk (List.append_cancel_left (congrArg Sketch.kinds hsketch))
    (List.append_cancel_left (congrArg Sketch.wires hsketch))

/-! ## What is drawn for layers with weights -/

namespace Workspace

variable [Scalar α] {w w' : Workspace α} {i : InvocationId} {v : View}

theorem Grows.inputView (h : w.Grows w') {input : Nat} (hv : w.inputView i input = .ok v) :
    w'.inputView i input = .ok v := by
  obtain ⟨inv, t, hr, ht, hv⟩ := inputView_eq_ok.1 hv
  exact inputView_eq_ok.2 ⟨inv, t, h.graph ▸ hr, ht, h.views t v hv⟩

/-- A dense layer is a target with its biases, and a connection with the
    kernel. -/
theorem draws_convertDense {d : Dense α} (h : (Rule.convertDense d i).exec w = (.ok v, w')) :
    ∃ dims input, w.inputView i 0 = .ok input ∧ v = .full w.next ∧
      w.Draws (⟨[w.settings.targetKind i.layer d.bias (some (.activation d.activation)) dims], []⟩ ++
        biasWiring ⟨w.next.index + 1⟩ w.next d.bias (w.settings.target (.activation d.activation)) ++
        ⟨[], [⟨input, .full w.next, .dense d.kernel.transpose⟩]⟩) w' := by
  obtain ⟨output, w₁, ht, h⟩ := Step.exec_bind_eq_ok.1 h
  obtain ⟨dims, -, -, -, rfl, hd⟩ := draws_target ht
  obtain ⟨_, w₂, hw, h⟩ := Step.exec_bind_eq_ok.1 h
  obtain ⟨rfl, rfl⟩ := Step.exec_pure_eq_ok.1 h
  obtain ⟨input, hinput, hdw, -⟩ := draws_wireInput hw
  exact ⟨dims, input, hd.framed.inputView i 0 ▸ hinput, rfl, hd.trans hdw⟩

/-- The connection of the kernel comes last. -/
theorem draws_wireKernel {c : Conv α} {output : View} {part : Sketch α} {w₁ : Workspace α}
    (hd : w.Draws part w₁) (h : (do
      let dims ← (← get).inputDims i
      let _ ← wireInput i output 0 true (.convolution (← Rule.convTransform c dims))
      return output : Step (Workspace α) View).exec w₁ = (.ok v, w')) :
    ∃ input t, w.inputView i 0 = .ok input ∧ t.kernel = c.kernel ∧ v = output ∧
      w.Draws (part ++ ⟨[], [⟨input, output, .convolution t⟩]⟩) w' := by
  obtain ⟨rfl, ins, t, _, -, ht, hw⟩ := wireKernel_eq_ok h
  obtain ⟨input, hinput, hdw, -⟩ := draws_wireInput hw
  obtain ⟨_, -, ht⟩ := bind_eq_ok.1 ht
  obtain ⟨_, -, ht⟩ := bind_eq_ok.1 ht
  obtain rfl := pure_eq_ok.1 ht
  exact ⟨input, _, hd.framed.inputView i 0 ▸ hinput, rfl, rfl, hd.trans hdw⟩

/-- What is drawn for the biases of a convolution, if it has any. -/
def relayWiring (first : ObjectId) (c : Conv α) (dims : List Nat) : Sketch α :=
  c.bias.elim ⟨[], []⟩ fun b =>
    relayPart ⟨first.index + 1⟩ first b c.filters (Rule.channelSpread c.layout dims c.filters)

/-- A convolution is a target, a relay of its biases, and a connection with the
    kernel. -/
theorem draws_convertConv {c : Conv α} (h : (Rule.convertConv c i).exec w = (.ok v, w')) :
    ∃ dims input t, w.inputView i 0 = .ok input ∧ t.kernel = c.kernel ∧ v = .full w.next ∧
      w.Draws (⟨[w.settings.targetKind i.layer none (some (.activation c.activation)) dims], []⟩ ++
        relayWiring w.next c dims ++ ⟨[], [⟨input, .full w.next, .convolution t⟩]⟩) w' := by
  obtain ⟨output, w₁, ht, h⟩ := Step.exec_bind_eq_ok.1 h
  obtain ⟨dims, hdims, -, rfl, hd⟩ := draws_bareTarget ht
  have hnext : w₁.next = ⟨w.next.index + 1⟩ := hd.next
  refine ⟨dims, ?_⟩
  unfold relayWiring
  cases hbias : c.bias with
  | none =>
    rw [hbias] at h
    exact draws_wireKernel (hd.trans .refl) h
  | some bias =>
    rw [hbias] at h
    obtain ⟨_, w₂, hb, h⟩ := Step.exec_bind_eq_ok.1 h
    obtain ⟨dims', hdims', hdr, -⟩ := draws_wireBiases hb
    obtain rfl := Except.ok.inj (hdims.symm.trans (hd.framed.outputDims i ▸ hdims'))
    exact draws_wireKernel (hd.trans (hnext ▸ hdr)) h

end Workspace

/-! ## Weights and biases -/

/-- The weights of a layer: the matrix of a dense one, with a row per output, or
    the kernel of a convolution. -/
inductive Weights (α : Type) where
  | matrix (t : Table α)
  | kernel (k : Grid α)

/-- The weights that a connection has in place of a layer. -/
def Transform.weights? : Transform α → Option (Weights α)
  | .dense t => some (.matrix t)
  | .convolution c => some (.kernel c.kernel)
  | _ => none

/-- The weights of the layers that share them among their invocations. -/
def Primitive.weights? [Zero α] : Primitive α → Option (Weights α)
  | .dense d => some (.matrix d.kernel.transpose)
  | .conv c => some (.kernel c.kernel)
  | _ => none

/-- The biases of a layer as networks have them: those that an ensemble holds are
    scaled with its gain. -/
def Settings.biases? [Scalar α] (s : Settings α) (l : LayerId) : Primitive α → Option (List α)
  | .dense d => match s.target (.activation d.activation) with
    | .neuron _ => d.bias.map fun b => (s.scale.ofLayer? l).elim b fun k => b.map (· * k)
    | .activation _ => d.bias
  | .conv c => c.bias
  | _ => none

/-- How an object gets the biases of a layer, if there are any: it holds them,
    or it is fed them by a constant node, through a relay node if there is one
    for each filter. -/
inductive Biases (α : Type) where
  | absent
  | held (values : List α)
  | fed (node : ObjectId) (weights : ConnectionId) (values : List α)
  | relayed (node relay : ObjectId) (weights spread : ConnectionId) (values : List α)

namespace Biases

def values? : Biases α → Option (List α)
  | absent => none
  | held values | fed _ _ values | relayed _ _ _ _ values => some values

/-- The nodes that bring biases. -/
def objects : Biases α → List ObjectId
  | absent | held _ => []
  | fed node _ _ => [node]
  | relayed node relay _ _ _ => [node, relay]

/-- The connections that bring biases. -/
def connections : Biases α → List ConnectionId
  | absent | held _ => []
  | fed _ weights _ => [weights]
  | relayed _ _ weights spread _ => [weights, spread]

end Biases

/-- An object that holds no biases: it is no ensemble, or one with zeros. -/
def Sketch.Unbiased [Zero α] (s : Sketch α) (o : ObjectId) : Prop :=
  ∃ k, s.kind? o = some k ∧ ∀ e, k = .neurons e → e.bias = List.replicate e.size 0

/-- Biases reach an object in a network.  Those that it does not hold itself are
    the weights on a connection from a constant node, to the object or to a relay
    node that every place of the object reads its filter from. -/
def Biases.Reach [Scalar α] (s : Sketch α) (o : ObjectId) : Biases α → Prop
  | .absent => s.Unbiased o
  | .held values => ∃ e, s.kind? o = some (.neurons e) ∧ e.bias = values
  | .fed node weights values => s.Unbiased o ∧ s.kind? node = some (.node (.constant [1])) ∧
    s.wire? weights = some ⟨.full node, .full o, .dense (Table.ofColumn values)⟩
  | .relayed node relay weights spread values => s.Unbiased o ∧
    s.kind? node = some (.node (.constant [1])) ∧
    s.wire? weights = some ⟨.full node, .full relay, .dense (Table.ofColumn values)⟩ ∧
    ∃ layout dims filters, s.kind? relay = some (.node (.passthrough filters)) ∧
      s.wire? spread =
        some ⟨.full relay, .full o, .sparse (Rule.channelSpread layout dims filters)⟩

theorem Sketch.unbiased_target [Scalar α] {s : Sketch α} {o : ObjectId} {factor : Option α}
    {biases : Option (List α)} {dims : List Nat} {n : Nonlinearity α}
    (h : s.kind? o = some (targetKind factor biases dims n))
    (hn : biases = none ∨ ∃ a, n = .activation a) : s.Unbiased o := by
  refine ⟨_, h, ?_⟩
  rintro e he
  cases n with
  | neuron n =>
    obtain rfl | ⟨a, ha⟩ := hn
    · obtain rfl := ObjectKind.neurons.inj he
      rfl
    · cases ha
  | activation a =>
    change Workspace.activationKind dims a = _ at he
    unfold Workspace.activationKind at he
    split at he <;> cases he

namespace Session

open Neuroform.Graph

/-! ## Makers -/

/-- The entry that an object was made for. -/
def maker? (entries : List (Entry α)) (o : ObjectId) : Option (Entry α) :=
  holder? (·.part.objects.length) entries o.index

/-- The entry that a connection was made for. -/
def wirer? (entries : List (Entry α)) (c : ConnectionId) : Option (Entry α) :=
  holder? (·.part.connections.length) entries c.index

variable [Scalar α] {g : Graph α} {settings : Settings α} {entries before : List (Entry α)}
  {w w₀ w₁ : Workspace α} {e : Entry α} {p : Primitive α} {v : View}
  {c : InvocationId → Step (Workspace α) View} {part : Sketch α}

/-- A network has as many objects and connections as its entries have added. -/
theorem Run.lengths (h : Run g settings entries w) :
    w.network.sketch.kinds.length = (entries.map (·.part.objects.length)).sum ∧
      w.network.sketch.wires.length = (entries.map (·.part.connections.length)).sum := by
  induction h with
  | start => exact ⟨rfl, rfl⟩
  | note _ _ _ ih => exact ih
  | @convert entries w w' e _ _ _ _ _ _ hpart ih =>
    change w'.network.sketch.kinds.length = _ ∧ w'.network.sketch.wires.length = _
    rw [hpart, Network.sketch_extend]
    simp [ih.1, ih.2]

/-- What was made for an entry stands in a network as one part: its objects from
    a first one on, and its connections.  What is wired to one of the objects is
    one of the connections. -/
structure Stands (entries : List (Entry α)) (s : Sketch α) (e : Entry α) (first : ObjectId)
    (wire : ConnectionId) (part : Sketch α) : Prop where
  made : ∀ o, maker? entries o = some e ↔
    first.index ≤ o.index ∧ o.index < first.index + part.kinds.length
  wired : ∀ c, wirer? entries c = some e ↔
    wire.index ≤ c.index ∧ c.index < wire.index + part.wires.length
  kind : ∀ (j : Nat) (k : ObjectKind α), part.kinds[j]? = some k →
    s.kind? ⟨first.index + j⟩ = some k
  wire : ∀ (j : Nat) (x : Wire α), part.wires[j]? = some x → s.wire? ⟨wire.index + j⟩ = some x
  into : ∀ c x, s.wire? c = some x →
    (maker? entries x.post.object = some e ↔ wirer? entries c = some e)

/-- **What was drawn in the turn of an entry stands in the last network.** -/
theorem Turn.stands (h : Turn g settings entries w e before w₀ w₁ p c v)
    (hnodup : (converted entries).Nodup) (hd : w₀.Draws part w₁) :
    Stands entries w.network.sketch e w₀.next ⟨w₀.network.sketch.wires.length⟩ part := by
  obtain ⟨after, rfl⟩ := h.split
  obtain ⟨hkinds, hwires⟩ := h.run.lengths
  have hpart := hd.sketch_eq h.extends'
  have hobjects : part.kinds.length = e.part.objects.length := by simp [← hpart, Part.sketch]
  have hconnections : part.wires.length = e.part.connections.length := by
    simp [← hpart, Part.sketch]
  -- an entry is listed once
  have hbefore : e ∉ before := fun hmem => by
    rw [converted, List.map_append, List.nodup_append] at hnodup
    exact hnodup.2.2 _ (List.mem_map_of_mem hmem) _ (by simp) rfl
  have hafter : e ∉ after := fun hmem => by
    rw [converted, List.map_append, List.map_cons, List.nodup_append, List.nodup_cons] at hnodup
    exact hnodup.2.1.1 (List.mem_map_of_mem hmem)
  have hmade : ∀ o, maker? (before ++ e :: after) o = some e ↔
      w₀.next.index ≤ o.index ∧ o.index < w₀.next.index + part.kinds.length := fun o => by
    rw [maker?, holder?_eq_some_iff hafter hbefore, hobjects, Workspace.next, hkinds]
  have hwired : ∀ c, wirer? (before ++ e :: after) c = some e ↔
      w₀.network.sketch.wires.length ≤ c.index ∧
        c.index < w₀.network.sketch.wires.length + part.wires.length := fun c => by
    rw [wirer?, holder?_eq_some_iff hafter hbefore, hconnections, hwires]
  obtain ⟨rest, hrest, hleads⟩ := h.grows.sketch
  obtain ⟨opened, hopened, hopens⟩ := h.opens.sketch
  rw [hd.sketch] at hrest
  have hlinked := (hd.checked h.run.feedforward.checked).linked
  rw [hd.sketch] at hlinked
  have hlength : (w₀.network.sketch ++ part).wires.length =
      w₀.network.sketch.wires.length + part.wires.length := List.length_append
  refine ⟨hmade, hwired, fun j k hk => ?_, fun j x hx => ?_, fun c x hx => ?_⟩
  · rw [hrest]
    exact Sketch.kind?_append ((Sketch.kind?_added j).trans hk)
  · have hj := (List.getElem?_eq_some_iff.1 hx).1
    rw [hrest, Sketch.wire?_append_of_lt (by rw [hlength]; exact Nat.add_lt_add_left hj _),
      Sketch.wire?_append_of_le (Nat.le_add_right _ _)]
    simpa [Sketch.wire?] using hx
  · rw [hmade, hwired]
    -- older connections add to older objects, and later ones to later objects
    by_cases hold : c.index < w₀.network.sketch.wires.length
    · rw [hopened, Sketch.wire?_append_of_lt hold] at hx
      have hpost := (h.run.feedforward.checked.linked x (Sketch.mem_of_wire? hx)).2
      exact iff_of_false (fun h => absurd hpost (Nat.not_lt.2 h.1)) fun h => absurd hold (by omega)
    have hbehind : w₀.next.index ≤ x.post.object.index := by
      rw [hopened, Sketch.wire?_append_of_le (Nat.not_lt.1 hold)] at hx
      exact hopens x (Sketch.mem_of_wire? hx)
    by_cases hown : c.index < (w₀.network.sketch ++ part).wires.length
    · rw [hrest, Sketch.wire?_append_of_lt hown] at hx
      have hpost := (hlinked x (Sketch.mem_of_wire? hx)).2
      rw [Sketch.kinds_append, List.length_append] at hpost
      exact iff_of_true ⟨hbehind, hpost⟩ ⟨Nat.not_lt.1 hold, hlength ▸ hown⟩
    · rw [hrest, Sketch.wire?_append_of_le (Nat.not_lt.1 hown)] at hx
      have hpost := hleads x (Sketch.mem_of_wire? hx)
      rw [hd.next] at hpost
      exact iff_of_false (fun h => absurd h.2 (Nat.not_lt.2 hpost))
        fun h => absurd (hlength ▸ h.2) hown

/-! ## Copies -/

/-- What an invocation of a layer with weights has of its own: the object of its
    output, the connection with the kernel, and what brings it biases. -/
structure Copy (α : Type) where
  output : ObjectId
  kernel : ConnectionId
  weights : Weights α
  biases : Biases α

namespace Copy

def objects (c : Copy α) : List ObjectId := c.output :: c.biases.objects

def connections (c : Copy α) : List ConnectionId := c.biases.connections ++ [c.kernel]

/-- A copy was built for an entry.  It is all that was made for the entry, and
    nothing else is wired to its objects.  The connection with the kernel reads
    the input of the invocation, and those that bring biases read objects of the
    copy.  Kernel and biases are those of the layer. -/
structure Built (settings : Settings α) (entries : List (Entry α)) (w : Workspace α) (e : Entry α)
    (p : Primitive α) (c : Copy α) : Prop where
  view : w.views.lookup e.invocation = some [.full c.output]
  made : ∀ o, maker? entries o = some e ↔ o ∈ c.objects
  wired : ∀ k, wirer? entries k = some e ↔ k ∈ c.connections
  into : ∀ k x, w.network.sketch.wire? k = some x → (x.post.object ∈ c.objects ↔ k ∈ c.connections)
  kernel : ∃ input t, w.inputView e.invocation 0 = .ok input ∧
    w.network.sketch.wire? c.kernel = some ⟨input, .full c.output, t⟩ ∧
    t.weights? = some c.weights
  biases : c.biases.Reach w.network.sketch c.output
  weights : p.weights? = some c.weights
  values : c.biases.values? = settings.biases? e.invocation.layer p

end Copy

/-- A copy that takes the places of a part is all that was made for the entry
    whose part that is. -/
theorem Stands.built {copy : Copy α} {wire : ConnectionId}
    (h : Stands entries w.network.sketch e copy.output wire part)
    (hobjects : copy.objects.map (·.index) = List.range' copy.output.index part.kinds.length)
    (hconnections : copy.connections.map (·.index) = List.range' wire.index part.wires.length)
    (hview : w.views.lookup e.invocation = some [.full copy.output])
    (hkernel : ∃ input t, w.inputView e.invocation 0 = .ok input ∧
      w.network.sketch.wire? copy.kernel = some ⟨input, .full copy.output, t⟩ ∧
      t.weights? = some copy.weights)
    (hbiases : copy.biases.Reach w.network.sketch copy.output)
    (hweights : p.weights? = some copy.weights)
    (hvalues : copy.biases.values? = settings.biases? e.invocation.layer p) :
    copy.Built settings entries w e p := by
  have hmade : ∀ o, maker? entries o = some e ↔ o ∈ copy.objects := fun o =>
    (h.made o).trans (mem_iff_of_consecutive (fun _ _ => congrArg ObjectId.mk) hobjects).symm
  have hwired : ∀ k, wirer? entries k = some e ↔ k ∈ copy.connections := fun k => (h.wired k).trans
    (mem_iff_of_consecutive (fun _ _ => congrArg ConnectionId.mk) hconnections).symm
  refine ⟨hview, hmade, hwired, fun k x hx => ?_, hkernel, hbiases, hweights, hvalues⟩
  rw [← hmade, ← hwired]
  exact h.into k x hx

/-- A dense layer is copied: its biases are held by an ensemble, or fed to another
    object. -/
theorem Turn.copied_dense {d : Dense α}
    (h : Turn g settings entries w e before w₀ w₁ (.dense d) (Rule.convertDense d) v)
    (hnodup : (converted entries).Nodup) :
    ∃ copy : Copy α, copy.Built settings entries w e (.dense d) := by
  obtain ⟨dims, input, hinput, rfl, hd⟩ := Workspace.draws_convertDense h.ran
  rw [h.run.settings_eq] at hd
  have hinput := h.opens.inputView hinput
  have hs := h.stands hnodup hd
  cases hb : d.bias with
  | none =>
    rw [hb, Workspace.biasWiring_none] at hs
    refine ⟨⟨w₀.next, ⟨w₀.network.sketch.wires.length⟩, .matrix d.kernel.transpose, .absent⟩,
      hs.built rfl rfl h.view ⟨input, _, hinput, hs.wire 0 _ rfl, rfl⟩
        (Sketch.unbiased_target (hs.kind 0 _ rfl) (.inl rfl)) rfl ?_⟩
    simp only [Settings.biases?, hb]
    split <;> rfl
  | some b =>
    rw [hb, Settings.targetKind, Option.getD_some] at hs
    cases ht : settings.target (.activation d.activation) with
    | neuron n =>
      rw [ht] at hs
      refine ⟨⟨w₀.next, ⟨w₀.network.sketch.wires.length⟩, .matrix d.kernel.transpose, .held _⟩,
        hs.built rfl rfl h.view ⟨input, _, hinput, hs.wire 0 _ rfl, rfl⟩
          ⟨_, hs.kind 0 _ rfl, rfl⟩ rfl ?_⟩
      simp only [Settings.biases?, ht, hb]
      rfl
    | activation a =>
      rw [ht] at hs
      refine ⟨⟨w₀.next, ⟨w₀.network.sketch.wires.length + 1⟩, .matrix d.kernel.transpose,
        .fed ⟨w₀.next.index + 1⟩ ⟨w₀.network.sketch.wires.length⟩ b⟩,
        hs.built rfl rfl h.view ⟨input, _, hinput, hs.wire 1 _ rfl, rfl⟩
          ⟨Sketch.unbiased_target (hs.kind 0 _ rfl) (.inr ⟨a, rfl⟩), hs.kind 1 _ rfl,
            hs.wire 0 _ rfl⟩ rfl ?_⟩
      simp only [Settings.biases?, ht, hb]
      rfl

/-- A convolution is copied: its biases are relayed. -/
theorem Turn.copied_conv {conv : Conv α}
    (h : Turn g settings entries w e before w₀ w₁ (.conv conv) (Rule.convertConv conv) v)
    (hnodup : (converted entries).Nodup) :
    ∃ copy : Copy α, copy.Built settings entries w e (.conv conv) := by
  obtain ⟨dims, input, t, hinput, hkernel, rfl, hd⟩ := Workspace.draws_convertConv h.ran
  have hinput := h.opens.inputView hinput
  have hs := h.stands hnodup hd
  have hweights : (Transform.convolution t).weights? = some (.kernel conv.kernel) :=
    congrArg (some ∘ Weights.kernel) hkernel
  have hunbiased := Sketch.unbiased_target (hs.kind 0 _ rfl) (.inl rfl)
  unfold Workspace.relayWiring at hs
  cases hb : conv.bias with
  | none =>
    rw [hb] at hs
    exact ⟨⟨w₀.next, ⟨w₀.network.sketch.wires.length⟩, .kernel conv.kernel, .absent⟩,
      hs.built rfl rfl h.view ⟨input, _, hinput, hs.wire 0 _ rfl, hweights⟩ hunbiased rfl hb.symm⟩
  | some b =>
    rw [hb] at hs
    exact ⟨⟨w₀.next, ⟨w₀.network.sketch.wires.length + 2⟩, .kernel conv.kernel,
      .relayed ⟨w₀.next.index + 1⟩ ⟨w₀.next.index + 2⟩ ⟨w₀.network.sketch.wires.length⟩
        ⟨w₀.network.sketch.wires.length + 1⟩ b⟩,
      hs.built rfl rfl h.view ⟨input, _, hinput, hs.wire 2 _ rfl, hweights⟩
        ⟨hunbiased, hs.kind 1 _ rfl, hs.wire 0 _ rfl, _, _, _, hs.kind 2 _ rfl, hs.wire 1 _ rfl⟩
        rfl hb.symm⟩

/-- **Layers with weights are copied** for each of their invocations. -/
theorem Run.exists_copy (h : Run g settings entries w) (hnodup : (converted entries).Nodup)
    (he : e ∈ entries) (hnative : e.wrapped = false)
    (hk : g.kind? e.invocation.layer = some (.primitive p)) (hp : Rule.weighs false p = true) :
    ∃ copy : Copy α, copy.Built settings entries w e p := by
  obtain ⟨before, w₀, w₁, p', c, v, turn⟩ := h.exists_turn hnodup he
  obtain rfl : p = p' := by simpa using hk.symm.trans turn.chosen.kind
  have hconversion := hnative ▸ turn.chosen.conversion
  cases hconversion with
  | dense => exact turn.copied_dense hnodup
  | conv => exact turn.copied_conv hnodup
  | _ => cases hp

/-! ## Whole conversions -/

variable {e' : Entry α} {l : LayerId} {s : Session α}

/-- The invocations of one layer are all wrapped or all native. -/
theorem Walked.wrapped_eq (hs : Walked g settings entries s) (he : e ∈ entries)
    (he' : e' ∈ entries) (hl : e.invocation.layer = e'.invocation.layer) :
    e.wrapped = e'.wrapped := by
  obtain ⟨r, -, hpicked⟩ := hs.used e he
  obtain ⟨r', -, hpicked'⟩ := hs.used e' he'
  obtain ⟨p, c, hchosen, -⟩ := hpicked.rule
  obtain ⟨layer, hlayer, -⟩ := kind?_eq_some.1 hchosen.kind
  cases hw : e.wrapped <;> cases hw' : e'.wrapped
  · rfl
  · exact absurd (hpicked.taken hw layer hlayer) (hl ▸ hpicked'.declined hw' layer (hl ▸ hlayer))
  · exact absurd (hl ▸ hpicked'.taken hw' layer (hl ▸ hlayer)) (hpicked.declined hw layer hlayer)
  · rfl

/-- **Split weights are equal, independent copies.**  If a conversion with the
    standard registry succeeds, each invocation of a native dense layer or
    convolution has a copy of its own, which is all that was made for it.  Two
    invocations of one such layer are only converted where weights are split.
    Their copies have different objects for the outputs, equal weights and equal
    biases, and no object and no connection in common. -/
theorem split_weights_copied (h : g.Reachable)
    (hc : convert g l settings Registry.standard = .ok s) :
    ∃ m order entries, g.model? l = some m ∧ g.trace (m.outputs ++ m.inputs) = .ok order ∧
      converted entries = sources order ∧ Run g settings entries s.workspace ∧
      ∀ e ∈ entries, ∀ e' ∈ entries, e.invocation ≠ e'.invocation →
        e.invocation.layer = e'.invocation.layer → e.wrapped = false →
        ∀ p, g.kind? e.invocation.layer = some (.primitive p) → Rule.weighs false p = true →
          settings.splitSharedWeights = true ∧
          ∃ c c' : Copy α, c.Built settings entries s.workspace e p ∧
            c'.Built settings entries s.workspace e' p ∧ c.output ≠ c'.output ∧
            c.weights = c'.weights ∧ c.biases.values? = c'.biases.values? ∧
            c.objects.Disjoint c'.objects ∧ c.connections.Disjoint c'.connections := by
  obtain ⟨m, hm⟩ := exists_model hc
  obtain ⟨order, entries, s₁, ho, hdone, hs, -, hends⟩ := convert_eq_ok h.sound hm hc
  have hrun := hends.run hs
  have hnodup : (converted entries).Nodup := hdone ▸ (trace_eq_ok h.sound ho).1.nodup
  refine ⟨m, order, entries, hm, ho, hdone, hrun, ?_⟩
  intro e he e' he' hne hl hnative p hk hp
  have hsplit : settings.splitSharedWeights = true := by
    obtain ⟨r, hr, hpicked⟩ := hs.used e he
    obtain ⟨p', c, hchosen, -, -, hweighs, -⟩ := hpicked.rule
    obtain rfl : p = p' := by simpa using hk.symm.trans hchosen.kind
    exact hs.shared e he e' he' hne hl r hr (by rw [hweighs, hnative, hp])
  have hnative' : e'.wrapped = false := (hs.wrapped_eq he he' hl).symm.trans hnative
  obtain ⟨c, hcopy⟩ := hrun.exists_copy hnodup he hnative hk hp
  obtain ⟨c', hcopy'⟩ := hrun.exists_copy hnodup he' hnative' (hl ▸ hk) hp
  have hentries : e ≠ e' := fun heq => hne (heq ▸ rfl)
  -- what is in both copies was made for both entries
  have hobjects : c.objects.Disjoint c'.objects := fun o ho ho' =>
    hentries (Option.some.inj (((hcopy.made o).2 ho).symm.trans ((hcopy'.made o).2 ho')))
  have hconnections : c.connections.Disjoint c'.connections := fun k hk hk' =>
    hentries (Option.some.inj (((hcopy.wired k).2 hk).symm.trans ((hcopy'.wired k).2 hk')))
  refine ⟨hsplit, c, c', hcopy, hcopy', fun heq => ?_, ?_, ?_, hobjects, hconnections⟩
  · exact hobjects (List.mem_cons_self ..) (heq ▸ List.mem_cons_self ..)
  · exact Option.some.inj (hcopy.weights.symm.trans hcopy'.weights)
  · rw [hcopy.values, hcopy'.values, hl]

/-- A rectified convolution with a window of two places, a filter and a bias. -/
def overPairs : Conv ℚ where
  kernel := ⟨[2, 1, 1], #[5, 7], rfl⟩
  bias := some [3]
  activation := .relu
  strides := [1]
  dilationRate := [1]
  padding := .valid
  layout := .channelsLast
  regularization := default
  rank_kernel := by decide
  length_bias := by rintro _ ⟨⟩; rfl

/-- The convolution is applied to samples of two and of three places. -/
def twoLengths : List (BuildStep ℚ) :=
  [.input "x" [2, 1], .input "y" [3, 1], .wire "c" (.conv overPairs) [⟨0⟩], .apply ⟨2⟩ [⟨1⟩],
    .model "m" [⟨0⟩, ⟨1⟩] [⟨2⟩, ⟨3⟩]]

/-- Weights are split, and nothing is wrapped. -/
def splitting : Settings ℚ := { Settings.standard with
  allowFallback := false
  splitSharedWeights := true }

/-- Both invocations of the convolution have the kernel and the bias of their own,
    though they have inputs of different lengths. -/
theorem split_weights_copied_twoLengths : ∃ s entries, ∃ e ∈ entries, ∃ e' ∈ entries,
    ∃ c c' : Copy ℚ, convert (build twoLengths) ⟨3⟩ splitting Registry.standard = .ok s ∧
      Run (build twoLengths) splitting entries s.workspace ∧
      e.invocation = ⟨⟨2⟩, 0⟩ ∧ e'.invocation = ⟨⟨2⟩, 1⟩ ∧
      c.Built splitting entries s.workspace e (.conv overPairs) ∧
      c'.Built splitting entries s.workspace e' (.conv overPairs) ∧ c.output ≠ c'.output ∧
      c.weights = c'.weights ∧ c.biases.values? = some [3] ∧ c'.biases.values? = some [3] ∧
      c.objects.Disjoint c'.objects ∧ c.connections.Disjoint c'.connections := by
  have hok : (do
      let _ ← convert (build twoLengths) ⟨3⟩ splitting Registry.standard
      pure () : Outcome _).toOption = some () := by decide +kernel
  have hmodel : (build twoLengths).model? ⟨3⟩ =
      some ⟨[⟨0⟩, ⟨1⟩], [⟨2⟩, ⟨3⟩], [⟨0⟩, ⟨1⟩, ⟨2⟩], false⟩ := by cbv
  have htrace : (build twoLengths).trace [⟨2⟩, ⟨3⟩, ⟨0⟩, ⟨1⟩] =
      .ok [⟨⟨0⟩, 0, 0⟩, ⟨⟨2⟩, 0, 0⟩, ⟨⟨1⟩, 0, 0⟩, ⟨⟨2⟩, 1, 0⟩] := by cbv
  have hkind : (build twoLengths).kind? ⟨2⟩ = some (.primitive (.conv overPairs)) := by cbv
  obtain ⟨s, hs, -⟩ := bind_eq_ok.1 (toOption_eq_some.1 hok)
  obtain ⟨m, order, entries, hm, ho, hdone, hrun, hcopies⟩ :=
    split_weights_copied (reachable_build twoLengths) hs
  obtain rfl := Option.some.inj (hmodel.symm.trans hm)
  obtain rfl := Except.ok.inj (htrace.symm.trans ho)
  obtain ⟨e, he, hi⟩ : ∃ e ∈ entries, e.invocation = ⟨⟨2⟩, 0⟩ :=
    List.mem_map.1 (by rw [← converted, hdone]; simp [sources, Provenance.source])
  obtain ⟨e', he', hi'⟩ : ∃ e ∈ entries, e.invocation = ⟨⟨2⟩, 1⟩ :=
    List.mem_map.1 (by rw [← converted, hdone]; simp [sources, Provenance.source])
  obtain ⟨-, c, c', hcopy, hcopy', houtputs, hweights, hvalues, hobjects, hconnections⟩ :=
    hcopies e he e' he' (by rw [hi, hi']; decide) (by rw [hi, hi']) (hrun.native rfl e he) _
      (by rw [hi]; exact hkind) rfl
  exact ⟨s, entries, e, he, e', he', c, c', hs, hrun, hi, hi', hcopy, hcopy', houtputs, hweights,
    hcopy.values, hvalues ▸ hcopy.values, hobjects, hconnections⟩

end Session
end Neuroform

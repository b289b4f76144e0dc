/-
  Neuroform — what the conversion of an invocation has to achieve.

  An invocation is staged once the objects of its inputs settle on the values
  of the inputs (`Workspace.Staged`).  Its conversion realizes the output if
  all new objects settle, and the one for the output on the value that the
  layer makes (`Workspace.Realized`).  Most rules build a target and wire
  things to it (`realized_target`).
-/
import Neuroform.Proofs.Conversion.Targets
import Neuroform.Proofs.Layer.Primitive
import Neuroform.Proofs.Network.Adds

namespace Neuroform

section
variable {α : Type} [Scalar α]

/-- An object settles on a batch. -/
def Sketch.Carries (s : Sketch α) (fed : States α) (b : Nat) (o : ObjectId) (dims : List Nat)
    (x : Grid α) : Prop :=
  ∃ t, s.Settles fed b o t ∧ t.Holds b dims x

omit [Scalar α] in
/-- Memory can hold the inputs of all objects. -/
def Sketch.Fits (s : Sketch α) (b : Nat) : Prop :=
  ∀ k ∈ s.kinds, ∃ size, k.sizeIn = .ok size ∧ requireRoom valueBytes [b, size] = .ok ()

/-- All wires lead to objects from a first one on. -/
def Sketch.LeadsFrom (part : Sketch α) (first : ObjectId) : Prop :=
  ∀ e ∈ part.wires, first.index ≤ e.post.object.index

omit [Scalar α] in
theorem Sketch.LeadsFrom.append {part part' : Sketch α} {first : ObjectId}
    (h : part.LeadsFrom first) (h' : part'.LeadsFrom first) : (part ++ part').LeadsFrom first :=
  fun e he => (List.mem_append.1 he).elim (h e) (h' e)

omit [Scalar α] in
theorem Sketch.leadsFrom_wire {e : Wire α} : Sketch.LeadsFrom ⟨[], [e]⟩ e.post.object :=
  fun _ he => (List.mem_singleton.1 he) ▸ le_refl _

namespace Workspace

/-- An invocation of a layer whose inputs have been converted: the layer makes
    `y` of the batches `xs`, on which the objects of the inputs settle. -/
structure Staged (w : Workspace α) (fed : States α) (b : Nat) (i : InvocationId) (p : Primitive α)
    (ins : List (List Nat)) (xs : List (Grid α)) (out : List Nat) (y : Grid α) : Prop where
  plain : w.settings.Plain
  checked : w.network.sketch.Checked
  unfed : ∀ o : ObjectId, w.next.index ≤ o.index → fed.lookup o = none
  batch : 0 < b
  inferred : ∃ shapes s, List.Forall₂ Shape.Samples shapes ins ∧ p.Regular b shapes ∧
    p.operation.outputShapes shapes = .ok [s] ∧ s.Samples out
  inputs : List.Forall₂ (fun dims x => Grid.Batch x b dims) ins xs
  makes : p.operation.forward xs = .ok [y]
  output : y.Batch b out
  arity : ∀ inv, w.graph.record? i = some inv → inv.inputs.length = ins.length
  views : ∀ k v, w.inputView i k = .ok v → ∃ u dims x, ins[k]? = some dims ∧ xs[k]? = some x ∧
    v = .full u ∧ w.network.sketch.Carries fed b u dims x
  inputDims : ∀ dims, w.inputDims i = .ok dims → ins = [dims]
  allInputDims : ∀ dims, w.allInputDims i = .ok dims → dims = ins
  outputDims : ∀ dims, w.outputDims i = .ok dims → dims = out

/-- What has been added settles, and the object of a view settles on a batch. -/
structure Realized (w w' : Workspace α) (fed : States α) (b : Nat) (v : View) (out : List Nat)
    (y : Grid α) : Prop where
  draws : ∃ part, w.Draws part w' ∧ part.LeadsFrom w.next
  settles : ∀ o : ObjectId, w.next.index ≤ o.index → o.index < w'.next.index →
    ∃ t, w'.network.sketch.Settles fed b o t
  view : ∃ o, v = .full o ∧ w'.network.sketch.Carries fed b o out y

section
variable {w w' : Workspace α} {part : Sketch α} {fed : States α} {b : Nat} {i : InvocationId}
  {o : ObjectId} {dims : List Nat} {x : Grid α}

theorem Framed.inputView (h : w.Framed w') (i : InvocationId) (k : Nat) :
    w'.inputView i k = w.inputView i k := by
  simp only [Workspace.inputView, h.graph, h.tensorView]

theorem Framed.inputDims (h : w.Framed w') (i : InvocationId) :
    w'.inputDims i = w.inputDims i := by
  simp only [Workspace.inputDims, h.graph]

omit [Scalar α] in
theorem Framed.allInputDims (h : w.Framed w') (i : InvocationId) :
    w'.allInputDims i = w.allInputDims i := by
  simp only [Workspace.allInputDims, h.graph]

theorem Framed.outputDims (h : w.Framed w') (i : InvocationId) :
    w'.outputDims i = w.outputDims i := by
  simp only [Workspace.outputDims, h.graph]

omit [Scalar α] in
theorem Draws.kind? (h : w.Draws part w') (j : Nat) :
    w'.network.sketch.kind? ⟨w.next.index + j⟩ = part.kinds[j]? := by
  rw [h.sketch]
  exact Sketch.kind?_added j

omit [Scalar α] in
/-- The objects that are drawn behind others. -/
theorem Draws.kind?_behind {rest : Sketch α} (h : w.Draws (part ++ rest) w') (j : Nat) :
    w'.network.sketch.kind? ⟨w.next.index + (part.kinds.length + j)⟩ = rest.kinds[j]? := by
  rw [h.kind?, Sketch.kinds_append, List.getElem?_append_right (Nat.le_add_right _ _),
    Nat.add_sub_cancel_left]

omit [Scalar α] in
theorem Draws.kind?_next (h : w.Draws part w') :
    w'.network.sketch.kind? w.next = part.kinds[0]? := h.kind? 0

omit [Scalar α] in
/-- Only what has been drawn is wired to new objects. -/
theorem Draws.into (h : w.Draws part w') (hc : w.network.sketch.Checked)
    (ho : w.next.index ≤ o.index) : w'.network.sketch.into o = part.into o := by
  rw [h.sketch, Sketch.into_append, hc.into_eq_nil ho, List.nil_append]

theorem Draws.carries (h : w.Draws part w') (hp : part.LeadsFrom w.next)
    (hx : w.network.sketch.Carries fed b o dims x) : w'.network.sketch.Carries fed b o dims x := by
  obtain ⟨t, ht, hold⟩ := hx
  rw [h.sketch]
  exact ⟨t, ht.append hp fun _ _ => rfl, hold⟩

omit [Scalar α] in
theorem next_ne (w : Workspace α) (j : Nat) : (⟨w.next.index + (j + 1)⟩ : ObjectId) ≠ w.next :=
  fun h => by simpa using congrArg ObjectId.index h

omit [Scalar α] in
theorem Draws.exists_new (h : w.Draws part w') (ho : w.next.index ≤ o.index)
    (ho' : o.index < w'.next.index) : ∃ j < part.kinds.length, o = ⟨w.next.index + j⟩ := by
  rw [h.next] at ho'
  exact ⟨o.index - w.next.index, by simp only at ho'; omega, by cases o; simp at ho ⊢; omega⟩

/-- What an object carries is read in a network that has grown. -/
theorem Draws.steady (h : w.Draws part w') (hp : part.LeadsFrom w.next)
    (hx : w.network.sketch.Carries fed b o dims x) :
    ∃ t, w'.network.sketch.steady fed b o = some t ∧ t.Holds b dims x := by
  obtain ⟨t, ht, hold⟩ := h.carries hp hx
  exact ⟨t, Sketch.steady_eq_some.2 ht, hold⟩

/-- A layer with a single input has one batch to work on. -/
theorem Staged.single {p : Primitive α} {ins : List (List Nat)} {xs : List (Grid α)}
    {out : List Nat} {y : Grid α} (hs : Staged w fed b i p ins xs out y)
    (only : ∀ shapes outs, p.operation.outputShapes shapes = .ok outs → ∃ s, shapes = [s]) :
    ∃ dims x s s', ins = [dims] ∧ xs = [x] ∧ x.Batch b dims ∧ s.Samples dims ∧
      p.operation.outputShapes [s] = .ok [s'] ∧ s'.Samples out := by
  obtain ⟨shapes, s', hshapes, -, ho, hout⟩ := hs.inferred
  obtain ⟨s, rfl⟩ := only shapes _ ho
  obtain ⟨dims, _, hdims, hnil, rfl⟩ := List.forall₂_cons_left_iff.1 hshapes
  obtain rfl := List.forall₂_nil_left_iff.1 hnil
  obtain ⟨x, _, hx, hnil, rfl⟩ := List.forall₂_cons_left_iff.1 hs.inputs
  obtain rfl := List.forall₂_nil_left_iff.1 hnil
  exact ⟨dims, x, s, s', rfl, rfl, hx, hdims, ho, hout⟩

/-- The objects of a sketch that carry batches have tables with them. -/
def Shows (w : Workspace α) (fed : States α) (b : Nat) (value : ObjectId → Option (Table α)) :
    Prop :=
  ∀ u dims x, w.network.sketch.Carries fed b u dims x → ∃ t, value u = some t ∧ t.Holds b dims x

theorem Draws.shows (h : w.Draws part w') (hp : part.LeadsFrom w.next) :
    w.Shows fed b (w'.network.sketch.steady fed b) := fun _ _ _ hx => h.steady hp hx

/-- The target of an invocation has the dimensions of its output. -/
theorem Staged.buildTarget {p : Primitive α} {ins : List (List Nat)} {xs : List (Grid α)}
    {out : List Nat} {y : Grid α} (hs : Staged w fed b i p ins xs out y)
    {biases : Option (List α)} {n : Option (Nonlinearity α)} {v : View}
    (h : (Workspace.buildTarget i biases n).exec w = (.ok v, w')) :
    (∀ bs ∈ biases, bs.length = volume out) ∧ v = .full w.next ∧
      w.Draws (targetPart w.next out biases (((n.getD (.activation .linear)).native?).getD
        (n.getD (.activation .linear)))) w' := by
  obtain ⟨dims, hdims, hbiases, hv, hd⟩ := draws_plainTarget hs.plain h
  obtain rfl := hs.outputDims _ hdims
  exact ⟨hbiases, hv, hd⟩

/-- A wire from an input comes from an object that carries it. -/
theorem Staged.wireInput {p : Primitive α} {ins : List (List Nat)} {xs : List (Grid α)}
    {out : List Nat} {y : Grid α} (hs : Staged w fed b i p ins xs out y) (h : w.Draws part w')
    {k : Nat} {post : View} {flag : Bool} {t : Transform α} {c : ConnectionId} {w'' : Workspace α}
    (hw : (Workspace.wireInput i post k flag t).exec w' = (.ok c, w'')) :
    ∃ u dims x, ins[k]? = some dims ∧ xs[k]? = some x ∧ w.network.sketch.Carries fed b u dims x ∧
      w.Draws (part ++ ⟨[], [⟨.full u, post, t⟩]⟩) w'' ∧
      w'.network.sketch.Joins ⟨.full u, post, t⟩ := by
  obtain ⟨pre, hpre, hd, hj⟩ := draws_wireInput hw
  rw [h.framed.inputView] at hpre
  obtain ⟨u, dims, x, hdims, hx, rfl, hc⟩ := hs.views k pre hpre
  exact ⟨u, dims, x, hdims, hx, hc, h.trans hd, hj⟩

end
end Workspace
end

/-! ## Nonlinearities -/

section
variable {α : Type} [Field α] [LinearOrder α] [Elementary α] [Printed α]

/-- What a nonlinearity makes of a batch. -/
def Nonlinearity.Acts : Nonlinearity α → Grid α → Grid α → Prop
  | .activation a, z, y => a.apply z = .ok y
  | .neuron n, z, y => y.shape = z.shape ∧ ∀ p ∈ positions z.shape, y.value p = n.rate (z.value p)

theorem Nonlinearity.Acts.shape {n : Nonlinearity α} {z y : Grid α} (h : n.Acts z y) :
    y.shape = z.shape := by
  cases n with
  | activation a => exact Activation.shape_apply h
  | neuron n => exact h.1

/-- The native counterpart of an activation does the same. -/
theorem Nonlinearity.acts_native {a : Activation} {z y : Grid α} (h : a.apply z = .ok y) :
    ((Nonlinearity.activation a).native?.getD (.activation a)).Acts z y := by
  have hvalues : ∀ n : Neuron α, a.isElementwise = true → (∀ x, n.rate x = a.eval x) →
      (Nonlinearity.neuron n).Acts z y := by
    intro n ha hn
    obtain ⟨y', hy', hs, hv⟩ := Activation.apply_elementwise (x := z) ha
    obtain rfl := Except.ok.inj (h.symm.trans hy')
    exact ⟨hs, fun p hp => by rw [hv p hp, hn]⟩
  cases a
  case relu => exact hvalues _ rfl fun x => one_mul _
  case sigmoid => exact hvalues _ rfl fun x => div_one _
  case tanh => exact hvalues _ rfl fun x => div_one _
  all_goals exact h

namespace Workspace
variable {w w' : Workspace α} {fed : States α} {b : Nat} {out : List Nat} {rest : Sketch α}
  {n : Nonlinearity α} {biases : Option (List α)} {f : Nat → Nat → α} {z y : Grid α}

/-- What an object for an activation makes of the sum of its wires. -/
theorem react_activationKind {a : Activation} {fed : Option (Table α)} {input : Table α}
    (hi : input.Reads b (volume out) f) (hz : z.Batch b out)
    (hzv : ∀ i < b, ∀ p ∈ positions out, z.value (i :: p) = f i (offset out p))
    (hy : a.apply z = .ok y) :
    ∃ t, (activationKind out a).react fed b input = .ok t ∧ t.Holds b out y := by
  have hin : input.Holds b out z := Table.holds_of_values hz.shape hi.rows hi.columns
    fun i hib p hp => by rw [hi.value i hib _ (offset_lt hp), hzv i hib p hp]
  unfold activationKind
  split
  case isTrue ha =>
    subst ha
    obtain rfl := Except.ok.inj hy
    exact ⟨input, react_passthrough, hin⟩
  case isFalse ha =>
    exact react_tensorNode hin (hz.shape ▸ hz.addressable) hy
      ((Activation.shape_apply hy).trans hz.shape) (Activation.shape_apply hy ▸ hz.addressable) rfl

/-- A target takes as many values as the output has. -/
theorem Draws.sizeIn_target {k : ObjectKind α} {size : Nat}
    (hd : w.Draws (targetPart w.next out biases n ++ rest) w')
    (hk : w'.network.sketch.kind? w.next = some k) (hs : k.sizeIn = .ok size) :
    size = volume out := by
  rw [hd.kind?_next] at hk
  cases n with
  | neuron n =>
    obtain rfl := Option.some.inj hk
    exact (Except.ok.inj hs).symm
  | activation a =>
    obtain rfl := Option.some.inj hk
    unfold activationKind at hs
    split at hs
    · exact (Except.ok.inj hs).symm
    · exact product_eq_ok hs

/-- Memory can hold the input of a target. -/
theorem Draws.room_target (hd : w.Draws (targetPart w.next out biases n ++ rest) w')
    (hfits : w'.network.sketch.Fits b) : requireRoom valueBytes [b, volume out] = .ok () := by
  obtain ⟨k, hk⟩ : ∃ k, w'.network.sketch.kind? w.next = some k := by
    rw [hd.kind?_next]
    cases n <;> exact ⟨_, rfl⟩
  obtain ⟨size, hs, hroom⟩ := hfits k (List.mem_of_getElem? hk)
  exact hd.sizeIn_target hk hs ▸ hroom

/-- A constant node settles on its values. -/
theorem settles_constant {s : Sketch α} {o : ObjectId} {values : List α}
    (kind : s.kind? o = some (.node (.constant values))) (hinto : s.into o = [])
    (hfed : fed.lookup o = none) :
    ∃ t, s.Settles fed b o t ∧ t.Reads b values.length fun _ j => values.getD j 0 :=
  Sketch.settles_of_adds (n := 0) kind rfl (hinto ▸ adds_nil) fun _ _ => by
    rw [hfed]
    exact react_constant values

/-- The wire of a constant node adds the biases. -/
theorem adds_bias {s : Sketch α} {first o : ObjectId} {bias : List α}
    (kind : s.kind? first = some (.node (.constant [1]))) (hinto : s.into first = [])
    (hfed : fed.lookup first = none)
    (hroom : requireRoom valueBytes [b, bias.length] = .ok ()) :
    Adds (s.steady fed b) b bias.length [⟨.full first, .full o, .dense (Table.ofColumn bias)⟩]
      fun _ j => bias.getD j 0 := by
  obtain ⟨t, ht, hread⟩ := settles_constant (b := b) kind hinto hfed
  obtain ⟨y, hy, hyread⟩ := apply_dense (Table.ofColumn bias) hread hroom
  refine adds_full (Sketch.steady_eq_some.2 ht) hy (hyread.congr fun i _ j hj => ?_)
  simp [Table.dot, Table.ofColumn, Table.value]

/-! ## Targets -/

/-- Without biases there is only one object, to which nothing is wired. -/
theorem targetPart_none {first : ObjectId} :
    (targetPart first out none n).kinds.length = 1 ∧ (targetPart first out none n).wires = [] := by
  cases n <;> exact ⟨rfl, rfl⟩

theorem post_of_targetPart {first : ObjectId} {e : Wire α}
    (he : e ∈ (targetPart first out biases n).wires) : e.post.object.index = first.index := by
  cases n with
  | neuron n => simp [targetPart] at he
  | activation a =>
    cases biases with
    | none => simp [targetPart, Sketch.append_def] at he
    | some bs =>
      obtain rfl := List.mem_singleton.1 he
      rfl

theorem leadsFrom_target {first : ObjectId} (h : rest.LeadsFrom first) :
    (targetPart first out biases n ++ rest).LeadsFrom first := by
  intro e he
  rcases List.mem_append.1 he with he | he
  · exact (post_of_targetPart he).ge
  · exact h e he

section
variable (hc : w.network.sketch.Checked)
  (hunfed : ∀ o : ObjectId, w.next.index ≤ o.index → fed.lookup o = none)
include hc hunfed

/-- A constant node that is wired to a target settles, and adds the biases. -/
theorem settles_biases {a : Activation} {bs : List α}
    (hd : w.Draws (targetPart w.next out (some bs) (.activation a) ++ rest) w')
    (hroom : requireRoom valueBytes [b, bs.length] = .ok ())
    (hpost : ∀ e ∈ rest.wires, e.post.object ≠ ⟨w.next.index + 1⟩) :
    (∃ t, w'.network.sketch.Settles fed b ⟨w.next.index + 1⟩ t) ∧
      Adds (w'.network.sketch.steady fed b) b bs.length
        ((targetPart w.next out (some bs) (.activation a)).into w.next) fun _ j => bs.getD j 0 := by
  have hkind := hd.kind? 1
  have hnone : w'.network.sketch.into ⟨w.next.index + 1⟩ = [] := by
    rw [hd.into hc (Nat.le_add_right _ _), Sketch.into_append]
    refine List.append_eq_nil_iff.2 ⟨?_, ?_⟩
    · exact List.filter_eq_nil_iff.2 fun e he => by
        obtain rfl := List.mem_singleton.1 he
        exact fun h => next_ne w 0 (of_decide_eq_true h).symm
    · exact List.filter_eq_nil_iff.2 fun e he => by simpa using hpost e he
  have hfed := hunfed ⟨w.next.index + 1⟩ (Nat.le_add_right _ _)
  obtain ⟨t, ht, -⟩ := settles_constant (b := b) hkind hnone hfed
  have hinto : (targetPart w.next out (some bs) (.activation a)).into w.next =
      [⟨.full ⟨w.next.index + 1⟩, .full w.next, .dense (Table.ofColumn bs)⟩] :=
    List.filter_eq_self.2 fun e he => by
      obtain rfl := List.mem_singleton.1 he
      exact decide_eq_true rfl
  exact ⟨⟨t, ht⟩, hinto ▸ adds_bias hkind hnone hfed hroom⟩

/-- The object of a nonlinearity settles on what it makes of its wires and
    biases, and so does a constant node for the biases. -/
theorem settles_targetPart (hd : w.Draws (targetPart w.next out biases n ++ rest) w')
    (hfits : w'.network.sketch.Fits b) (hbias : ∀ bs ∈ biases, bs.length = volume out)
    (hpost : ∀ e ∈ rest.wires, e.post.object = w.next ∨
      w.next.index + (targetPart w.next out biases n).kinds.length ≤ e.post.object.index)
    (hadds : Adds (w'.network.sketch.steady fed b) b (volume out) (rest.into w.next) f)
    (hz : z.Batch b out) (hzv : ∀ i < b, ∀ p ∈ positions out, z.value (i :: p) =
      f i (offset out p) + biases.elim 0 (·.getD (offset out p) 0))
    (hacts : n.Acts z y) : w'.network.sketch.Carries fed b w.next out y ∧
      ∀ j < (targetPart w.next out biases n).kinds.length,
        ∃ t, w'.network.sketch.Settles fed b ⟨w.next.index + j⟩ t := by
  have hinto : w'.network.sketch.into w.next =
      (targetPart w.next out biases n).into w.next ++ rest.into w.next := by
    rw [hd.into hc (le_refl _), Sketch.into_append]
  have hkind := hd.kind?_next
  have hfed := hunfed w.next (le_refl _)
  cases n with
  | neuron n =>
    have hsum : Adds (w'.network.sketch.steady fed b) b (volume out)
        (w'.network.sketch.into w.next) f := hinto.symm ▸ hadds
    obtain ⟨t, ht, hread⟩ := Sketch.settles_of_adds hkind rfl hsum fun input hi => by
        rw [hfed]
        exact react_neurons (List.length_replicate ..) (by
          cases biases with
          | none => exact List.length_replicate ..
          | some bs => exact hbias bs rfl) hi
    refine ⟨⟨t, ht, Table.holds_of_values (hacts.shape.trans hz.shape) hread.rows hread.columns
      fun i hi p hp => ?_⟩, fun j hj => ?_⟩
    · have hlt := offset_lt hp
      rw [hread.value i hi _ hlt, hacts.2 _ (by rw [hz.shape]; exact cons_mem_positions.2 ⟨hi, hp⟩),
        hzv i hi p hp]
      congr 1
      cases biases with
      | none => simp [List.getD_eq_getElem?_getD, hlt]
      | some bs => simp [List.getD_eq_getElem?_getD, hlt]
    · obtain rfl : j = 0 := by simp [targetPart] at hj; omega
      exact ⟨t, ht⟩
  | activation a =>
    obtain ⟨size, hsize, -⟩ := hfits _ (List.mem_of_getElem? hkind)
    obtain rfl := hd.sizeIn_target hkind hsize
    have hrest : ∀ bs, biases = some bs → ∀ e ∈ rest.wires, e.post.object ≠ ⟨w.next.index + 1⟩ := by
      rintro bs rfl e he heq
      rcases hpost e he with h | h
      · exact next_ne w 0 (heq.symm.trans h)
      · rw [heq] at h
        simp [targetPart, biasPart] at h
    have hroom : ∀ bs, biases = some bs → requireRoom valueBytes [b, bs.length] = .ok () :=
      fun bs h => hbias bs h ▸ hd.room_target hfits
    -- the wires of the target are that of the biases and all others
    have hsum : Adds (w'.network.sketch.steady fed b) b (volume out)
        (w'.network.sketch.into w.next) fun i j => biases.elim 0 (·.getD j 0) + f i j := by
      rw [hinto]
      refine Adds.append ?_ hadds
      cases biases with
      | none => exact adds_nil
      | some bs => exact hbias bs rfl ▸ (settles_biases hc hunfed hd (hroom bs rfl) (hrest bs rfl)).2
    obtain ⟨t, ht, hold⟩ := Sketch.settles_of_adds hkind hsize hsum fun input hi => by
      rw [hfed]
      exact react_activationKind hi hz (fun i hib p hp => by rw [hzv i hib p hp, add_comm]) hacts
    refine ⟨⟨t, ht, hold⟩, fun j hj => ?_⟩
    cases biases with
    | none =>
      obtain rfl : j = 0 := by simp [targetPart] at hj; omega
      exact ⟨t, ht⟩
    | some bs =>
      obtain rfl | rfl : j = 0 ∨ j = 1 := by simp [targetPart, biasPart] at hj; omega
      · exact ⟨t, ht⟩
      · exact (settles_biases hc hunfed hd (hroom bs rfl) (hrest bs rfl)).1

end

/-! ## Realizing an output -/

section
variable {i : InvocationId} {p : Primitive α} {ins : List (List Nat)} {xs : List (Grid α)}
  (hs : Staged w fed b i p ins xs out y) (hfits : w'.network.sketch.Fits b)
include hs hfits

/-- A target realizes what its nonlinearity makes of the sum of its wires, if all
    that comes with it settles. -/
theorem Staged.realized_target (hd : w.Draws (targetPart w.next out biases n ++ rest) w')
    (hbias : ∀ bs ∈ biases, bs.length = volume out)
    (hpost : ∀ e ∈ rest.wires, e.post.object = w.next ∨
      w.next.index + (targetPart w.next out biases n).kinds.length ≤ e.post.object.index)
    (hrest : ∀ j < rest.kinds.length, ∃ t, w'.network.sketch.Settles fed b
      ⟨w.next.index + ((targetPart w.next out biases n).kinds.length + j)⟩ t)
    (hadds : Adds (w'.network.sketch.steady fed b) b (volume out) (rest.into w.next) f)
    (hz : z.Batch b out) (hzv : ∀ i < b, ∀ p ∈ positions out, z.value (i :: p) =
      f i (offset out p) + biases.elim 0 (·.getD (offset out p) 0))
    (hacts : n.Acts z y) : Realized w w' fed b (.full w.next) out y := by
  obtain ⟨hcarries, hsettles⟩ :=
    settles_targetPart hs.checked hs.unfed hd hfits hbias hpost hadds hz hzv hacts
  refine ⟨⟨_, hd, leadsFrom_target fun e he => ?_⟩, fun o ho ho' => ?_, w.next, rfl, hcarries⟩
  · rcases hpost e he with h | h
    · rw [h]
    · omega
  · obtain ⟨j, hj, rfl⟩ := hd.exists_new ho ho'
    rw [Sketch.kinds_append, List.length_append] at hj
    by_cases hj' : j < (targetPart w.next out biases n).kinds.length
    · exact hsettles j hj'
    · obtain ⟨k, rfl⟩ := Nat.exists_eq_add_of_le (not_lt.1 hj')
      exact hrest k (by omega)

/-- A target to which only inputs are wired. -/
theorem Staged.realized_wired {wires : List (Wire α)}
    (hd : w.Draws (targetPart w.next out biases n ++ ⟨[], wires⟩) w')
    (hbias : ∀ bs ∈ biases, bs.length = volume out)
    (hpost : ∀ e ∈ wires, e.post.object = w.next)
    (hadds : Adds (w'.network.sketch.steady fed b) b (volume out) wires f)
    (hz : z.Batch b out) (hzv : ∀ i < b, ∀ p ∈ positions out, z.value (i :: p) =
      f i (offset out p) + biases.elim 0 (·.getD (offset out p) 0))
    (hacts : n.Acts z y) : Realized w w' fed b (.full w.next) out y := by
  refine hs.realized_target hfits hd hbias (fun e he => .inl (hpost e he)) (by simp) ?_ hz hzv hacts
  rwa [Sketch.into, List.filter_eq_self.2 fun e he => by simpa using hpost e he]

/-- A passthrough node to which only inputs are wired. -/
theorem Staged.realized_bare {wires : List (Wire α)}
    (hd : w.Draws (targetPart w.next out none (.activation .linear) ++ ⟨[], wires⟩) w')
    (hpost : ∀ e ∈ wires, e.post.object = w.next)
    (hadds : Adds (w'.network.sketch.steady fed b) b (volume out) wires f)
    (hyv : ∀ i < b, ∀ p ∈ positions out, y.value (i :: p) = f i (offset out p)) :
    Realized w w' fed b (.full w.next) out y :=
  hs.realized_wired hfits hd (by simp) hpost hadds hs.output
    (fun i hi p hp => (hyv i hi p hp).trans (add_zero _).symm) rfl

end
end Workspace
end
end Neuroform

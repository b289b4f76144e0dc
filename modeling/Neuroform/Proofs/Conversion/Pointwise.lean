/-
  Neuroform — conversion of inputs, nonlinearities and merges realizes them.

  What passes values on realizes its output with the object of its input.  A
  nonlinearity is the target of its input, and a merge that of all of its
  inputs, of which each adds its share.
-/
import Neuroform.Proofs.Conversion.Rules
import Neuroform.Proofs.Conversion.Stage
import Neuroform.Proofs.Layer.Pointwise

namespace Neuroform.Workspace

open Rule

section
variable {α : Type} [Scalar α] {w w' : Workspace α} {fed : States α} {b : Nat} {i : InvocationId}
  {p : Primitive α} {ins : List (List Nat)} {xs : List (Grid α)} {out : List Nat} {x y : Grid α}
  {v : View}

/-! ## Passing values on -/

/-- Only the input is there, if the shape of the output is that of the input. -/
theorem Staged.only (hs : Staged w fed b i p ins xs out y) {layer : String}
    (same : p.operation.outputShapes = sameShape layer) :
    ∃ x, ins = [out] ∧ xs = [x] ∧ x.Batch b out := by
  obtain ⟨shapes, s, hshapes, -, ho, hout⟩ := hs.inferred
  rw [same] at ho
  obtain ⟨s', hs', ho⟩ := bind_eq_ok.1 ho
  obtain rfl := onlyInput_eq_ok.1 hs'
  obtain rfl := List.singleton_inj.1 (pure_eq_ok.1 ho)
  obtain ⟨dims, _, hdims, hnil, rfl⟩ := List.forall₂_cons_left_iff.1 hshapes
  obtain rfl := List.forall₂_nil_left_iff.1 hnil
  obtain rfl := hdims.unique hout
  obtain ⟨x, _, hx, hnil, rfl⟩ := List.forall₂_cons_left_iff.1 hs.inputs
  obtain rfl := List.forall₂_nil_left_iff.1 hnil
  exact ⟨x, rfl, rfl, hx⟩

/-- The object of an input stands for an output with the same values. -/
theorem Staged.realized_passed (hs : Staged w fed b i p ins xs out y) (hv : w.inputView i 0 = .ok v)
    (hx : xs[0]? = some x) (hcells : y.cells = x.cells) : Realized w w fed b v out y := by
  obtain ⟨u, dims, x', -, hx', rfl, t, ht, hold⟩ := hs.views 0 v hv
  obtain rfl := Option.some.inj (hx.symm.trans hx')
  refine ⟨⟨_, .refl, by simp [Sketch.LeadsFrom]⟩,
    fun o ho ho' => absurd ho' (not_lt.2 ho), u, rfl, t,
    ht, hs.output.shape, hold.rows, ?_, hold.cells.trans hcells.symm⟩
  -- arrays with the same cells have samples of the same size
  have hsize : b * volume out = b * volume dims := by
    have hy := y.size_cells
    have hxs := x.size_cells
    rw [hs.output.shape, hcells, hxs, hold.shape] at hy
    exact hy.symm
  rw [hold.columns, Nat.eq_of_mul_eq_mul_left hs.batch hsize]

/-- An input of a called model is what the call was given. -/
theorem Staged.realized_convertInput {l : InputLayer}
    (hs : Staged w fed b i (.input l) ins xs out y)
    (hins : ins ≠ []) (h : (convertInput i).exec w = (.ok v, w')) :
    Realized w w' fed b v out y := by
  rw [convertInput, Step.exec_get_bind] at h
  obtain ⟨layer, _, hlayer, h⟩ := Step.exec_bind_eq_ok.1 h
  obtain ⟨hl, rfl⟩ := Step.exec_lift_eq_ok.1 hlayer
  obtain ⟨inv, _, hlooked, h⟩ := Step.exec_bind_eq_ok.1 h
  obtain ⟨hinv, rfl⟩ := Step.exec_lift_eq_ok.1 hlooked
  split at h
  case isTrue hempty =>
    have hlen := hs.arity inv ((Graph.layer_invocation hl).1 hinv)
    rw [List.isEmpty_iff.1 hempty] at hlen
    exact absurd (List.length_eq_zero_iff.1 hlen.symm) hins
  case isFalse =>
    obtain ⟨hv, rfl⟩ := Step.exec_lift_eq_ok.1 h
    obtain ⟨x, hhead, hmakes⟩ := bind_eq_ok.1 hs.makes
    obtain rfl := List.singleton_inj.1 (pure_eq_ok.1 hmakes)
    rw [orRefuse_eq_ok, List.head?_eq_getElem?] at hhead
    exact hs.realized_passed hv hhead rfl

/-- What only lays out values anew passes them on. -/
theorem Staged.realized_convertPassing (hs : Staged w fed b i p ins xs out y)
    (hx : xs[0]? = some x) (hcells : y.cells = x.cells)
    (h : (convertPassing i).exec w = (.ok v, w')) : Realized w w' fed b v out y := by
  rw [convertPassing, Step.exec_get_bind] at h
  obtain ⟨hv, rfl⟩ := Step.exec_lift_eq_ok.1 h
  exact hs.realized_passed hv hx hcells

end

/-! ## Nonlinearities -/

variable {α : Type} [Field α] [LinearOrder α] [Elementary α] [Printed α] {w w' : Workspace α}
  {fed : States α} {b : Nat} {i : InvocationId} {p : Primitive α} {ins : List (List Nat)}
  {xs : List (Grid α)} {out : List Nat} {x y : Grid α} {v : View}

/-- A nonlinearity of the values of the only input. -/
theorem Staged.realized_convertNonlinearity {n : Nonlinearity α}
    (hs : Staged w fed b i p ins xs out y) {layer : String}
    (same : p.operation.outputShapes = sameShape layer)
    (hacts : ∀ x, xs = [x] → (n.native?.getD n).Acts x y)
    (h : (convertNonlinearity n i).exec w = (.ok v, w')) (hfits : w'.network.sketch.Fits b) :
    Realized w w' fed b v out y := by
  obtain ⟨x, rfl, rfl, hx⟩ := hs.only same
  obtain ⟨output, w₁, ht, h⟩ := Step.exec_bind_eq_ok.1 h
  obtain ⟨c, w₂, hw, h⟩ := Step.exec_bind_eq_ok.1 h
  obtain ⟨rfl, rfl⟩ := Step.exec_pure_eq_ok.1 h
  obtain ⟨-, rfl, hd⟩ := hs.buildTarget ht
  obtain ⟨u, dims, x', hdims, hx', hc, hd, -⟩ := hs.wireInput hd hw
  obtain rfl := Option.some.inj hdims
  obtain rfl := Option.some.inj hx'
  obtain ⟨t, ht, hold⟩ := hd.steady (leadsFrom_target (by simp [Sketch.LeadsFrom, View.full])) hc
  refine hs.realized_wired hfits hd (by simp) (by simp [View.full])
    (adds_full ht rfl hold.reads) hx (fun i hi p hp => ?_) (hacts x rfl)
  rw [hold.value]
  exact (add_zero _).symm

theorem Staged.realized_activation {l : ActivationLayer}
    (hs : Staged w fed b i (.activation l) ins xs out y)
    (h : (convertNonlinearity (.activation l.activation) i).exec w = (.ok v, w'))
    (hfits : w'.network.sketch.Fits b) : Realized w w' fed b v out y := by
  refine hs.realized_convertNonlinearity rfl (fun x hx => Nonlinearity.acts_native ?_) h hfits
  obtain ⟨x', hx', hmakes⟩ := bind_eq_ok.1 hs.makes
  rw [hx] at hx'
  obtain rfl := Except.ok.inj hx'
  obtain ⟨y', hy', hmakes⟩ := bind_eq_ok.1 hmakes
  obtain rfl := List.singleton_inj.1 (pure_eq_ok.1 hmakes)
  exact hy'

/-- A neuron type with the curve of a function that is applied everywhere. -/
theorem acts_of_map {n : Neuron α} {φ : α → α} (h : ∀ a, n.rate a = φ a) :
    (Nonlinearity.neuron n).Acts x (x.map φ) :=
  ⟨rfl, fun q hq => by rw [Grid.value_map hq, h]⟩

theorem Staged.realized_relu {l : Relu α} (hs : Staged w fed b i (.relu l) ins xs out y)
    (hmax : l.maxValue = none) (hthreshold : l.threshold = 0)
    (h : (convertNonlinearity (rectifier l.negativeSlope) i).exec w = (.ok v, w'))
    (hfits : w'.network.sketch.Fits b) : Realized w w' fed b v out y := by
  refine hs.realized_convertNonlinearity rfl (fun x hx => ?_) h hfits
  obtain ⟨x', hx', hmakes⟩ := bind_eq_ok.1 hs.makes
  rw [hx] at hx'
  obtain rfl := Except.ok.inj hx'
  obtain rfl := List.singleton_inj.1 (pure_eq_ok.1 hmakes)
  have heval : ∀ a, l.eval a = if 0 ≤ a then a else l.negativeSlope * a := fun a => by
    simp only [Relu.eval, hmax, Relu.evalBelow, hthreshold, sub_zero]
  unfold rectifier
  split
  case isTrue hzero =>
    refine acts_of_map fun a => ?_
    rw [heval, beq_iff_eq.1 hzero]
    change 1 * larger a 0 = _
    rw [one_mul, zero_mul, larger]
    split
    case isTrue ha => rw [if_neg (not_le.2 ha)]
    case isFalse ha => rw [if_pos (beq_self_eq_true a), if_pos (not_lt.1 ha)]
  case isFalse =>
    refine acts_of_map fun a => ?_
    rw [heval]
    change 1 * (if 0 < a then a else l.negativeSlope * a) = _
    rw [one_mul]
    rcases lt_trichotomy 0 a with ha | rfl | ha
    · rw [if_pos ha, if_pos ha.le]
    · simp
    · rw [if_neg ha.not_gt, if_neg (not_le.2 ha)]

theorem Staged.realized_leakyRelu {l : LeakyRelu α}
    (hs : Staged w fed b i (.leakyRelu l) ins xs out y)
    (h : (convertNonlinearity (.neuron (.leaky l.alpha 1)) i).exec w = (.ok v, w'))
    (hfits : w'.network.sketch.Fits b) : Realized w w' fed b v out y := by
  refine hs.realized_convertNonlinearity rfl (fun x hx => ?_) h hfits
  obtain ⟨x', hx', hmakes⟩ := bind_eq_ok.1 hs.makes
  rw [hx] at hx'
  obtain rfl := Except.ok.inj hx'
  obtain rfl := List.singleton_inj.1 (pure_eq_ok.1 hmakes)
  exact acts_of_map fun a => one_mul _

/-! ## Merges -/

omit [Elementary α] [Printed α] [LinearOrder α] in
/-- Arrays of one shape are added up value by value. -/
theorem foldlM_absorb : ∀ {xs : List (Grid α)} {x sum : Grid α}, (∀ z ∈ xs, z.shape = x.shape) →
    xs.foldlM (fun acc x => acc.absorb (· + ·) x) x = .ok sum →
    ∀ q ∈ positions x.shape, sum.value q = ((x :: xs).map (·.value q)).sum
  | [], _, _, _, h => fun q _ => by
    obtain rfl := foldlM_nil_eq_ok.1 h
    simp
  | x' :: xs, x, sum, hsame, h => fun q hq => by
    obtain ⟨z, hz, h⟩ := foldlM_cons_eq_ok.1 h
    obtain ⟨hzs, hzv⟩ := Grid.absorb_same hz (hsame x' (by simp))
    have hrest := foldlM_absorb
      (fun z' hz' => (hsame z' (List.mem_cons_of_mem _ hz')).trans hzs.symm)
      h q (hzs ▸ hq)
    simpa [hzv q hq, add_assoc] using hrest

omit [Elementary α] [Printed α] in
/-- A merge adds up the shares of its inputs. -/
theorem merge_value {m : Merge} [Elementary α] [Printed α] (hf : m.forward xs = .ok [y])
    (hsame : ∀ x ∈ xs, x.shape = y.shape) : ∀ q ∈ positions y.shape,
      y.value q = (xs.map fun x => x.value q * mergeWeight m xs.length).sum := by
  intro q hq
  rcases xs with _ | ⟨x, xs⟩
  · simp [Merge.forward] at hf
  obtain ⟨sum, hsum, hadd, haverage⟩ := Merge.forward_eq_ok hf
  have hx := hsame x (by simp)
  have hvalue := foldlM_absorb
    (fun z hz => (hsame z (List.mem_cons_of_mem _ hz)).trans hx.symm) hsum q
    (hx ▸ hq)
  rw [List.sum_map_mul_right, ← hvalue]
  cases m with
  | add =>
    obtain rfl := List.singleton_inj.1 (hadd rfl)
    exact (mul_one _).symm
  | average =>
    obtain rfl := List.singleton_inj.1 (haverage rfl)
    rw [Grid.value_map (g := sum) hq, mergeWeight, mul_one_div, List.length_cons]

/-- A merge adds its inputs up in a passthrough node. -/
theorem Staged.realized_merge {m : Merge} (hs : Staged w fed b i (.merge m) ins xs out y)
    (h : (convertMerge m i).exec w = (.ok v, w')) (hfits : w'.network.sketch.Fits b) :
    Realized w w' fed b v out y := by
  -- all inputs have the dimensions of the output
  have hins : ∀ dims ∈ ins, dims = out := by
    obtain ⟨shapes, s, hshapes, -, ho, hout⟩ := hs.inferred
    obtain ⟨first, rest, rfl, hfirst, hrest⟩ := Merge.outputShapes_eq_ok ho
    obtain rfl := List.singleton_inj.1 hfirst
    intro dims hdims
    obtain ⟨s', hs', hsamples⟩ := forall₂_mem_left hshapes.flip dims hdims
    have hsamples : s'.Samples dims := hsamples
    have hsame : s'.withoutBatch = s.withoutBatch := by
      rcases List.mem_cons.1 hs' with rfl | hs'
      · rfl
      · exact hrest s' hs'
    rw [hsamples.withoutBatch, hout.withoutBatch] at hsame
    simpa [Shape.concrete?_concrete] using congrArg Shape.concrete? hsame
  have hshapes : ∀ x ∈ xs, x.shape = y.shape := fun x hx => by
    obtain ⟨dims, hdims, hbatch⟩ := forall₂_mem_left hs.inputs.flip x hx
    rw [hbatch.shape, hins dims hdims, hs.output.shape]
  rw [convertMerge, Step.exec_get_bind] at h
  obtain ⟨inv, _, hlooked, h⟩ := Step.exec_bind_eq_ok.1 h
  obtain ⟨hinv, rfl⟩ := Step.exec_lift_eq_ok.1 hlooked
  have hcount : inv.inputs.length = xs.length :=
    (hs.arity inv (Graph.invocation_eq_ok.1 hinv)).trans hs.inputs.length_eq
  obtain ⟨output, w₁, ht, h⟩ := Step.exec_bind_eq_ok.1 h
  obtain ⟨_, w₂, hloop, h⟩ := Step.exec_bind_eq_ok.1 h
  obtain ⟨rfl, rfl⟩ := Step.exec_pure_eq_ok.1 h
  obtain ⟨-, rfl, hd⟩ := hs.buildTarget ht
  -- the wires so far add the shares of the inputs so far
  obtain ⟨wires, hd, hpost, hadds⟩ := draws_forIn hd (I := fun done _ wires =>
    (∀ e ∈ wires, e.post.object = w.next) ∧ ∀ value, w.Shows fed b value →
      Adds value b (volume out) wires fun i j => ((xs.take done.length).map fun x =>
        x.cells.getD (i * volume out + j) 0 * mergeWeight m xs.length).sum)
    ⟨by simp, fun _ _ => by simpa using adds_nil⟩
    (fun done k rest _ wires w₂ r w₃ hx hI hd hround => by
      obtain ⟨_, w₄, hw, hround⟩ := Step.exec_bind_eq_ok.1 hround
      obtain ⟨rfl, rfl⟩ := Step.exec_pure_eq_ok.1 hround
      obtain ⟨u, dims, x, hdims, hxk, hc, hd, -⟩ := hs.wireInput hd hw
      obtain rfl := hins dims (List.mem_of_getElem? hdims)
      obtain rfl : k = done.length := by
        have := congrArg (·[done.length]?) hx
        rw [List.getElem?_append_right (le_refl _), Nat.sub_self, List.getElem?_cons_zero] at this
        obtain ⟨hlt, hk⟩ := List.getElem?_eq_some_iff.1 this
        rw [← hk, List.getElem_range]
      refine ⟨_, _, rfl, hd, fun e he => ?_, fun value hvalue => ?_⟩
      · rcases List.mem_append.1 he with he | he
        · exact hI.1 e he
        · rw [List.mem_singleton.1 he]
          rfl
      · obtain ⟨t, ht, hold⟩ := hvalue u _ x hc
        obtain ⟨y', hy', hread⟩ := apply_scalar hold.reads (mergeWeight m inv.inputs.length)
        refine ((hI.2 value hvalue).append (adds_full ht hy' hread)).congr fun i _ j _ => ?_
        rw [List.length_append, List.length_singleton, List.take_add_one, hxk, hold.value_cells,
          hcount]
        simp) hloop
  rw [List.length_range, hcount, List.take_length] at hadds
  have hleads : (targetPart w.next out none (.activation .linear) ++
      (⟨[], wires⟩ : Sketch α)).LeadsFrom w.next :=
    leadsFrom_target fun e he => (congrArg ObjectId.index (hpost e he)).ge
  refine hs.realized_bare hfits hd hpost (hadds _ (hd.shows hleads)) fun i hi p hp => ?_
  have hq : i :: p ∈ positions y.shape := by
    rw [hs.output.shape]
    exact cons_mem_positions.2 ⟨hi, hp⟩
  rw [merge_value hs.makes hshapes _ hq]
  refine congrArg List.sum (List.map_congr_left fun x hx => ?_)
  rw [Grid.value, hshapes x hx, hs.output.shape]
  rfl

end Neuroform.Workspace

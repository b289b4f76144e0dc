/-
  Neuroform — the values that the objects of a network settle on.

  An object settles on what its kind makes of the values of the objects that are
  wired to it (`Sketch.Settles`).  There is at most one such value, and it does
  not change when something is added behind the object.  Evaluating the objects
  in any order in which each one stands behind those wired to it finds these
  values (`Network.settle_eq_ok`).
-/
import Neuroform.Proofs.Binding
import Neuroform.Proofs.Network.Sketch

namespace Neuroform

variable {α : Type} [Scalar α]

/-! ## Inputs -/

/-- Adds what a wire carries to an input, the objects having given values. -/
def Wire.carry (value : ObjectId → Option (Table α)) (input : Table α) (w : Wire α) :
    Outcome (Table α) := do
  let x ← w.pre.select (← orFault (value w.pre.object))
  w.post.accumulate (← w.transform.apply x) input

/-- What an object of a kind makes of its input. -/
def ObjectKind.react (k : ObjectKind α) (fed : Option (Table α)) (batch : Nat) (input : Table α) :
    Outcome (Table α) :=
  Network.react ⟨"", k, none⟩ fed batch input

theorem react_eq_ok {o : Object α} {fed : Option (Table α)} {batch : Nat} {input t : Table α} :
    Network.react o fed batch input = .ok t ↔ o.kind.react fed batch input = .ok t := by
  unfold ObjectKind.react Network.react
  split
  case h_4 node h =>
    simp only [h, bind_eq_ok, within_eq_ok, require_eq_ok]
  all_goals simp only [*]

section
variable {value value' : ObjectId → Option (Table α)} {ws : List (Wire α)} {input t : Table α}

theorem Wire.carry_congr {w : Wire α} (h : value w.pre.object = value' w.pre.object) :
    w.carry value input = w.carry value' input := by
  simp only [Wire.carry, h]

theorem carries_congr (h : ∀ w ∈ ws, value w.pre.object = value' w.pre.object) :
    ws.foldlM (Wire.carry value) input = ws.foldlM (Wire.carry value') input := by
  induction ws generalizing input with
  | nil => rfl
  | cons w ws ih =>
    rw [List.foldlM_cons, List.foldlM_cons, Wire.carry_congr (h w (by simp))]
    exact congrArg _ (funext fun _ => ih fun v hv => h v (List.mem_cons_of_mem _ hv))

/-- What is carried comes from objects with values. -/
theorem exists_value_of_carries (h : ws.foldlM (Wire.carry value) input = .ok t) :
    ∀ w ∈ ws, ∃ x, value w.pre.object = some x := by
  induction ws generalizing input with
  | nil => simp
  | cons w ws ih =>
    obtain ⟨y, hw, h⟩ := foldlM_cons_eq_ok.1 h
    rintro v (_ | ⟨_, hv⟩)
    · obtain ⟨x, hx, -⟩ := bind_eq_ok.1 hw
      exact ⟨x, orFault_eq_ok.1 hx⟩
    · exact ih h v hv

end

/-! ## Steady values -/

namespace Sketch

/-- A value that an object settles on, `fed` being the data for constant
    nodes. -/
inductive Settles (s : Sketch α) (fed : States α) (batch : Nat) : ObjectId → Table α → Prop where
  | intro {o : ObjectId} {k : ObjectKind α} {size : Nat} {value : ObjectId → Option (Table α)}
      {input t : Table α} (kind : s.kind? o = some k)
      (before : ∀ u x, value u = some x → Settles s fed batch u x) (sizeIn : k.sizeIn = .ok size)
      (received : (s.into o).foldlM (Wire.carry value) (Table.zeros batch size) = .ok input)
      (reacts : k.react (fed.lookup o) batch input = .ok t) : Settles s fed batch o t

variable {s : Sketch α} {fed : States α} {batch : Nat} {o : ObjectId} {x y : Table α}

/-- An object settles on one value. -/
theorem Settles.unique (h : s.Settles fed batch o x) : ∀ {y}, s.Settles fed batch o y → x = y := by
  induction h with
  | @intro o k size value input t kind before sizeIn received reacts ih =>
    intro y h'
    obtain ⟨kind', before', sizeIn', received', reacts'⟩ := h'
    rename_i k' size' value' input'
    obtain rfl := Option.some.inj (kind.symm.trans kind')
    obtain rfl := Except.ok.inj (sizeIn.symm.trans sizeIn')
    have hvalue : ∀ w ∈ s.into o, value w.pre.object = value' w.pre.object := by
      intro w hw
      obtain ⟨x, hx⟩ := exists_value_of_carries received w hw
      obtain ⟨x', hx'⟩ := exists_value_of_carries received' w hw
      rw [hx, hx', ih _ _ hx (before' _ _ hx')]
    rw [carries_congr hvalue] at received
    obtain rfl := Except.ok.inj (received.symm.trans received')
    exact Except.ok.inj (reacts.symm.trans reacts')

theorem Settles.index_lt (h : s.Settles fed batch o x) : o.index < s.kinds.length := by
  cases h with
  | intro kind => exact Sketch.index_lt kind

/-- What is added behind some objects does not change what they settle on. -/
theorem Settles.append {part : Sketch α} {fed' : States α}
    (hpart : ∀ w ∈ part.wires, s.kinds.length ≤ w.post.object.index)
    (hfed : ∀ u : ObjectId, u.index < s.kinds.length → fed'.lookup u = fed.lookup u)
    (h : s.Settles fed batch o x) : (s ++ part).Settles fed' batch o x := by
  induction h with
  | @intro o k size value input t kind before sizeIn received reacts ih =>
    have hnone : part.into o = [] := by
      refine List.filter_eq_nil_iff.2 fun w hw heq => ?_
      have := hpart w hw
      rw [of_decide_eq_true heq] at this
      have := Sketch.index_lt kind
      omega
    refine .intro (kind?_append kind) ih sizeIn ?_ (hfed o (Sketch.index_lt kind) ▸ reacts)
    rw [into_append, hnone, List.append_nil]
    exact received

open Classical in
/-- What an object settles on, if it does. -/
noncomputable def steady (s : Sketch α) (fed : States α) (batch : Nat) (o : ObjectId) :
    Option (Table α) :=
  if h : ∃ x, s.Settles fed batch o x then some h.choose else none

theorem steady_eq_some : s.steady fed batch o = some x ↔ s.Settles fed batch o x := by
  unfold steady
  split
  case isTrue h =>
    exact ⟨fun hx => Option.some.inj hx ▸ h.choose_spec,
      fun hx => congrArg some (h.choose_spec.unique hx)⟩
  case isFalse h => exact ⟨nofun, fun hx => (h ⟨x, hx⟩).elim⟩

/-- An object settles on what it makes of the steady values before it. -/
theorem settles_iff : s.Settles fed batch o x ↔ ∃ k size input, s.kind? o = some k ∧
    k.sizeIn = .ok size ∧
    (s.into o).foldlM (Wire.carry (s.steady fed batch)) (Table.zeros batch size) = .ok input ∧
    k.react (fed.lookup o) batch input = .ok x := by
  constructor
  · intro h
    cases h with
    | @intro o k size value input t kind before sizeIn received reacts =>
      refine ⟨k, size, input, kind, sizeIn, ?_, reacts⟩
      rw [← received]
      refine carries_congr fun w hw => ?_
      obtain ⟨x, hx⟩ := exists_value_of_carries received w hw
      rw [hx, steady_eq_some.2 (before _ _ hx)]
  · rintro ⟨k, size, input, kind, sizeIn, received, reacts⟩
    exact .intro kind (fun u x hx => steady_eq_some.1 hx) sizeIn received reacts

end Sketch

/-! ## Evaluation -/

namespace Network
variable {n : Network α} {fed states : States α} {batch : Nat} {o : ObjectId}

theorem inputOf_eq_ok {size : Nat} {t : Table α} : n.inputOf states batch o size = .ok t ↔
    (n.sketch.into o).foldlM (Wire.carry (states.lookup ·)) (Table.zeros batch size) = .ok t := by
  have hstep : ∀ input t (c : ConnectionId × Connection α),
      receive states o input c = .ok t ↔ c.2.wire.carry (states.lookup ·) input = .ok t := by
    intro input t c
    simp only [receive, Wire.carry, Connection.wire, bind_eq_ok, orRefuse_eq_ok, orFault_eq_ok,
      within_eq_ok]
  have hfold : ∀ (cs : List (ConnectionId × Connection α)) (input : Table α),
      cs.foldlM (receive states o) input = .ok t ↔
        (cs.map (·.2.wire)).foldlM (Wire.carry (states.lookup ·)) input = .ok t := by
    intro cs
    induction cs with
    | nil => exact fun _ => .rfl
    | cons c cs ih =>
      intro input
      simp only [List.map_cons, foldlM_cons_eq_ok, hstep, ih]
  rw [inputOf, hfold, map_wire_connectionsInto]

theorem evaluate_eq_ok {states' : States α} : n.evaluate fed batch states o = .ok states' ↔
    ∃ k size input t, n.sketch.kind? o = some k ∧ k.sizeIn = .ok size ∧
      (n.sketch.into o).foldlM (Wire.carry (states.lookup ·)) (Table.zeros batch size) = .ok input ∧
      k.react (fed.lookup o) batch input = .ok t ∧ (o, t) :: states = states' := by
  simp only [evaluate, bind_eq_ok, inputOf_eq_ok, react_eq_ok, pure_eq_ok, kind?_sketch]
  constructor
  · rintro ⟨x, hx, size, hs, input, hi, t, ht, h⟩
    exact ⟨_, size, input, t, ⟨x, hx, rfl⟩, hs, hi, ht, h⟩
  · rintro ⟨_, size, input, t, ⟨x, hx, rfl⟩, hs, hi, ht, h⟩
    exact ⟨x, hx, size, hs, input, hi, t, ht, h⟩

/-- Objects that settle are evaluated to what they settle on. -/
theorem settle_eq_ok {order : List ObjectId} (ht : n.sketch.Topological order)
    (hs : ∀ o ∈ order, ∃ x, n.sketch.Settles fed batch o x) :
    ∃ states, n.settle order fed batch = .ok states ∧
      ∀ o ∈ order, states.lookup o = n.sketch.steady fed batch o := by
  suffices hrun : ∀ rest done states, order = done ++ rest →
      (∀ o ∈ done, states.lookup o = n.sketch.steady fed batch o) →
      ∃ states', rest.foldlM (n.evaluate fed batch) states = .ok states' ∧
        ∀ o ∈ order, states'.lookup o = n.sketch.steady fed batch o from
    hrun order [] [] rfl (by simp)
  intro rest
  induction rest with
  | nil =>
    intro done states ho h
    rw [List.append_nil] at ho
    exact ⟨states, rfl, ho ▸ h⟩
  | cons o rest ih =>
    intro done states ho h
    obtain ⟨x, hx⟩ := hs o (by simp [ho])
    obtain ⟨k, size, input, hkind, hsize, hinput, hreact⟩ := Sketch.settles_iff.1 hx
    have hvalues : ∀ w ∈ n.sketch.into o,
        states.lookup w.pre.object = n.sketch.steady fed batch w.pre.object :=
      fun w hw => h _ (ht done o rest ho w hw)
    have hcarried : (n.sketch.into o).foldlM (Wire.carry (states.lookup ·))
        (Table.zeros batch size) = .ok input := (carries_congr hvalues).trans hinput
    have hstep : n.evaluate fed batch states o = .ok ((o, x) :: states) :=
      evaluate_eq_ok.2 ⟨k, size, input, x, hkind, hsize, hcarried, hreact, rfl⟩
    obtain ⟨states', hrest, hall⟩ := ih (done ++ [o]) ((o, x) :: states) (by simp [ho])
      fun u hu => by
      rw [List.lookup_cons]
      split
      case h_1 heq => rw [beq_iff_eq.1 heq, Sketch.steady_eq_some.2 hx]
      case h_2 hne =>
        refine h u ((List.mem_append.1 hu).resolve_right fun hu => ?_)
        rw [List.mem_singleton.1 hu, beq_self_eq_true] at hne
        exact absurd hne (by simp)
    exact ⟨states', foldlM_cons_eq_ok.2 ⟨_, hstep, hrest⟩, hall⟩

end Network
end Neuroform

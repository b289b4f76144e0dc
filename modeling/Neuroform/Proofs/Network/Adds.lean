/-
  Neuroform — wires as summands.

  In exact arithmetic the order in which wires add to an input does not matter,
  and what a list of wires adds is the sum of what each of them does
  (`Adds`).  An object settles on what it makes of the sum of its wires.
-/
import Neuroform.Proofs.Network.React

namespace Neuroform

variable {α : Type} [Field α] [LinearOrder α] [Elementary α] [Printed α]

/-- Wires add values to an input of a size, whatever it is. -/
def Adds (value : ObjectId → Option (Table α)) (b n : Nat) (ws : List (Wire α))
    (f : Nat → Nat → α) : Prop :=
  ∀ g (input : Table α), input.Reads b n g → ∃ t,
    ws.foldlM (Wire.carry value) input = .ok t ∧ t.Reads b n fun i j => g i j + f i j

section
variable {value : ObjectId → Option (Table α)} {b n : Nat} {ws ws' : List (Wire α)}
  {f g : Nat → Nat → α} {o u : ObjectId} {x y : Table α} {φ : Transform α}

theorem adds_nil : Adds value b n [] fun _ _ => 0 :=
  fun g input h => ⟨input, rfl, h.congr fun i _ j _ => (add_zero (g i j)).symm⟩

theorem Adds.append (h : Adds value b n ws f) (h' : Adds value b n ws' g) :
    Adds value b n (ws ++ ws') fun i j => f i j + g i j := by
  intro e input hi
  obtain ⟨t, ht, hr⟩ := h e input hi
  obtain ⟨t', ht', hr'⟩ := h' _ t hr
  exact ⟨t', foldlM_append_eq_ok.2 ⟨t, ht, ht'⟩, hr'.congr fun i _ j _ => add_assoc _ _ _⟩

theorem Adds.congr (h : Adds value b n ws f) (hfg : ∀ i < b, ∀ j < n, f i j = g i j) :
    Adds value b n ws g := by
  intro e input hi
  obtain ⟨t, ht, hr⟩ := h e input hi
  exact ⟨t, ht, hr.congr fun i hi j hj => by rw [hfg i hi j hj]⟩

/-- A wire between whole objects. -/
theorem adds_full (hx : value u = some x) (hy : φ.apply x = .ok y) (hf : y.Reads b n f) :
    Adds value b n [⟨.full u, .full o, φ⟩] f := by
  intro g input hi
  obtain ⟨t, ht, hr⟩ := accumulate_full (o := o) hf hi
  exact ⟨t, foldlM_cons_eq_ok.2 ⟨t, carry_eq_ok hx rfl hy ht, rfl⟩, hr⟩

/-- A wire from some positions of an object. -/
theorem adds_from (indices : List Nat) {m : Nat} (hx : value u = some x) (hf : x.Reads b m f)
    (hi : ∀ j ∈ indices, j < m) :
    Adds value b indices.length [⟨⟨u, some indices⟩, .full o, .identity⟩]
      fun i k => f i (indices.getD k 0) := by
  intro g input hin
  obtain ⟨y, hy, hread⟩ := select_at (o := u) hf hi
  obtain ⟨t, ht, hr⟩ := accumulate_full (o := o) hread hin
  exact ⟨t, foldlM_cons_eq_ok.2 ⟨t, carry_eq_ok hx hy rfl ht, rfl⟩, hr⟩

/-- A wire to different positions of an object. -/
theorem adds_at {indices : List Nat} (hx : value u = some x) (hf : x.Reads b indices.length f)
    (hd : indices.Nodup) (hg : ∀ i < b, ∀ j < n,
      (∀ k, indices[k]? = some j → g i j = f i k) ∧ (j ∉ indices → g i j = 0)) :
    Adds value b n [⟨.full u, ⟨o, some indices⟩, .identity⟩] g := by
  intro e input hin
  obtain ⟨t, ht, hrows, hcols, hv⟩ := accumulate_at (o := o) hd hf hin
  refine ⟨t, foldlM_cons_eq_ok.2 ⟨t, carry_eq_ok hx rfl rfl ht, rfl⟩, hrows, hcols,
    fun i hi j hj => ?_⟩
  obtain ⟨hhit, hmiss⟩ := hv i hi j hj
  obtain ⟨ghit, gmiss⟩ := hg i hi j hj
  by_cases hj' : j ∈ indices
  · obtain ⟨k, hk⟩ := List.mem_iff_getElem?.1 hj'
    rw [hhit k hk, ghit k hk]
  · rw [hmiss hj', gmiss hj', add_zero]

end

namespace Sketch
variable {s : Sketch α} {fed : States α} {b n : Nat} {o : ObjectId} {k : ObjectKind α}
  {f : Nat → Nat → α}

/-- An object settles on what it makes of what its wires add up to. -/
theorem settles_of_adds {P : Table α → Prop} (kind : s.kind? o = some k) (sizeIn : k.sizeIn = .ok n)
    (adds : Adds (s.steady fed b) b n (s.into o) f)
    (react : ∀ input : Table α, input.Reads b n f →
      ∃ t, k.react (fed.lookup o) b input = .ok t ∧ P t) :
    ∃ t, s.Settles fed b o t ∧ P t := by
  obtain ⟨input, hinput, hread⟩ := adds _ _ Table.reads_zeros
  obtain ⟨t, ht, hP⟩ := react input (hread.congr fun i _ j _ => zero_add _)
  exact ⟨t, settles_iff.2 ⟨k, n, input, kind, sizeIn, hinput, ht⟩, hP⟩

end Sketch
end Neuroform

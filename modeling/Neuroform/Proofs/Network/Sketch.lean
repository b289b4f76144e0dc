/-
  Neuroform — what the values of a network depend on.

  The sketch of a network has the kinds of its objects and what its connections
  carry.  Labels, filters and trainability do not show in it.  Building adds to
  the end of a sketch, and what is added is checked (`Sketch.Checked`).
-/
import Neuroform.Network.Simulate
import Neuroform.Proofs.Outcome

namespace Neuroform

variable {α : Type} {β : Type}

/-! ## Sketches -/

/-- A connection, without its filter and trainability. -/
structure Wire (α : Type) where
  pre : View
  post : View
  transform : Transform α

/-- The objects of a network and how they are wired. -/
structure Sketch (α : Type) where
  kinds : List (ObjectKind α)
  wires : List (Wire α)

/-- What a connection carries. -/
def Connection.wire (c : Connection α) : Wire α := ⟨c.pre, c.post, c.transform⟩

/-- The sketch of a network. -/
def Network.sketch (n : Network α) : Sketch α :=
  ⟨n.objects.toList.map (·.kind), n.connections.toList.map Connection.wire⟩

/-- A view gives `count` of the values of an object that has `size` ones. -/
def View.Shows (v : View) (size count : Nat) : Prop :=
  match v.indices with
  | none => count = size
  | some indices => count = indices.length ∧ ∀ i ∈ indices, i < size

@[simp] theorem View.shows_full {o : ObjectId} {size count : Nat} :
    (View.full o).Shows size count ↔ count = size := .rfl

namespace Sketch

instance : Append (Sketch α) := ⟨fun s t => ⟨s.kinds ++ t.kinds, s.wires ++ t.wires⟩⟩

theorem append_def (s t : Sketch α) : s ++ t = ⟨s.kinds ++ t.kinds, s.wires ++ t.wires⟩ := rfl

@[simp] theorem kinds_append (s t : Sketch α) : (s ++ t).kinds = s.kinds ++ t.kinds := rfl

@[simp] theorem wires_append (s t : Sketch α) : (s ++ t).wires = s.wires ++ t.wires := rfl

@[simp] theorem append_nil (s : Sketch α) : s ++ ⟨[], []⟩ = s := by simp [append_def]

theorem append_assoc (s t u : Sketch α) : s ++ t ++ u = s ++ (t ++ u) :=
  congrArg₂ mk (List.append_assoc _ _ _) (List.append_assoc _ _ _)

/-- The kind of an object. -/
def kind? (s : Sketch α) (o : ObjectId) : Option (ObjectKind α) := s.kinds[o.index]?

/-- The wires that add to an object. -/
def into (s : Sketch α) (o : ObjectId) : List (Wire α) := s.wires.filter (·.post.object = o)

/-- Objects stand behind those that are wired to them. -/
def Topological (s : Sketch α) (order : List ObjectId) : Prop :=
  ∀ before o after, order = before ++ o :: after → ∀ w ∈ s.into o, w.pre.object ∈ before

/-- A wire joins views of objects of a sketch, and its transform fits them. -/
def Joins (s : Sketch α) (w : Wire α) : Prop :=
  ∃ kin kout size a b, s.kind? w.pre.object = some kin ∧ w.pre.Shows kin.sizeOut a ∧
    s.kind? w.post.object = some kout ∧ kout.sizeIn = .ok size ∧ w.post.Shows size b ∧
    w.transform.check a b = .ok ()

/-- All wires join objects that there are. -/
def Checked (s : Sketch α) : Prop := ∀ w ∈ s.wires, s.Joins w

section
variable {s t : Sketch α} {o : ObjectId} {k : ObjectKind α} {w : Wire α}

theorem index_lt (h : s.kind? o = some k) : o.index < s.kinds.length :=
  (List.getElem?_eq_some_iff.1 h).1

theorem kind?_append (h : s.kind? o = some k) : (s ++ t).kind? o = some k := by
  unfold kind? at h ⊢
  rw [kinds_append, List.getElem?_append_left (index_lt h), h]

/-- The object that is added behind those of a sketch. -/
theorem kind?_added (j : Nat) : (s ++ t).kind? ⟨s.kinds.length + j⟩ = t.kinds[j]? := by
  rw [kind?, kinds_append, List.getElem?_append_right (by simp)]
  simp

theorem Joins.append (h : s.Joins w) : (s ++ t).Joins w := by
  obtain ⟨kin, kout, size, a, b, hin, ha, hout, hrest⟩ := h
  exact ⟨kin, kout, size, a, b, kind?_append hin, ha, kind?_append hout, hrest⟩

theorem Checked.append (h : s.Checked) (ht : ∀ w ∈ t.wires, (s ++ t).Joins w) :
    (s ++ t).Checked := by
  intro w hw
  rcases List.mem_append.1 hw with hw | hw
  · exact (h w hw).append
  · exact ht w hw

/-- Nothing is wired to an object that is not there yet. -/
theorem Checked.into_eq_nil (h : s.Checked) (ho : s.kinds.length ≤ o.index) : s.into o = [] := by
  refine List.filter_eq_nil_iff.2 fun w hw heq => ?_
  obtain ⟨kin, kout, size, a, b, -, -, hout, -⟩ := h w hw
  have := index_lt hout
  rw [of_decide_eq_true heq] at this
  omega

theorem mem_into : w ∈ s.into o ↔ w ∈ s.wires ∧ w.post.object = o := by simp [into]

theorem into_append : (s ++ t).into o = s.into o ++ t.into o := List.filter_append _ _

end
end Sketch

/-! ## Sketches of networks -/

namespace Network
variable {n n' : Network α}

theorem object_eq_ok {o : ObjectId} {x : Object α} :
    n.object o = .ok x ↔ n.objects[o.index]? = some x := orRefuse_eq_ok

theorem kind?_sketch {o : ObjectId} {k : ObjectKind α} :
    n.sketch.kind? o = some k ↔ ∃ x, n.object o = .ok x ∧ x.kind = k := by
  simp only [Sketch.kind?, sketch, List.getElem?_map, Array.getElem?_toList, Option.map_eq_some_iff,
    object_eq_ok]

theorem length_kinds : n.sketch.kinds.length = n.objects.size := by simp [sketch]

theorem map_wire_allConnections : n.allConnections.map (·.2.wire) = n.sketch.wires := by
  calc n.allConnections.map (·.2.wire)
      = n.connections.toList.zipIdx.map (Connection.wire ∘ Prod.fst) := List.map_map
    _ = n.sketch.wires := by rw [← List.map_map, List.zipIdx_map_fst]; rfl

theorem map_wire_connectionsInto (o : ObjectId) :
    (n.connectionsInto o).map (·.2.wire) = n.sketch.into o := by
  rw [Sketch.into, ← map_wire_allConnections, List.filter_map, connectionsInto]
  rfl

theorem viewSize_eq_ok {v : View} {size count : Nat} :
    n.viewSize v size = .ok count ↔ v.Shows size count := by
  obtain ⟨o, indices | indices⟩ := v
  · exact pure_eq_ok.trans eq_comm
  · simp only [viewSize, View.Shows]
    split
    case h_1 i hi =>
      have hi' := List.find?_some hi
      have hmem := List.mem_of_find?_eq_some hi
      constructor
      · intro h
        obtain ⟨x, -, h⟩ := bind_eq_ok.1 h
        simp at h
      · rintro ⟨-, h⟩
        have := h i hmem
        simp only [decide_eq_true_eq] at hi'
        omega
    case h_2 hi =>
      rw [List.find?_eq_none] at hi
      refine (pure_eq_ok.trans eq_comm).trans (iff_self_and.2 fun _ i hmem => ?_)
      simpa using hi i hmem

theorem viewSizeOut_eq_ok {v : View} {count : Nat} : n.viewSizeOut v = .ok count ↔
    ∃ k, n.sketch.kind? v.object = some k ∧ v.Shows k.sizeOut count := by
  simp only [viewSizeOut, bind_eq_ok, viewSize_eq_ok, kind?_sketch]
  constructor
  · rintro ⟨x, hx, h⟩; exact ⟨_, ⟨x, hx, rfl⟩, h⟩
  · rintro ⟨_, ⟨x, hx, rfl⟩, h⟩; exact ⟨x, hx, h⟩

theorem viewSizeIn_eq_ok {v : View} {count : Nat} : n.viewSizeIn v = .ok count ↔
    ∃ k size, n.sketch.kind? v.object = some k ∧ k.sizeIn = .ok size ∧ v.Shows size count := by
  simp only [viewSizeIn, bind_eq_ok, viewSize_eq_ok, kind?_sketch]
  constructor
  · rintro ⟨x, hx, size, hs, h⟩; exact ⟨_, size, ⟨x, hx, rfl⟩, hs, h⟩
  · rintro ⟨_, size, ⟨x, hx, rfl⟩, hs, h⟩; exact ⟨x, hx, size, hs, h⟩

end Network
end Neuroform

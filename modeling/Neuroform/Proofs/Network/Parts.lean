/-
  Neuroform — what is added to a network, and its trained parameters.

  A network is extended by objects and connections behind those that it has
  (`Network.extend`).  Its trained parameters are those of all that it has been
  extended by (`trainableParameterCount_extend`).
-/
import Neuroform.Proofs.Network.Calls
import Neuroform.Proofs.Position

namespace Neuroform

variable {α : Type}

theorem totalSize_eq_sum (sizes : List Nat) : totalSize sizes = sizes.sum := rfl

/-- Objects and connections that a network is extended by, in their order. -/
@[ext]
structure Part (α : Type) where
  objects : List (Object α)
  connections : List (Connection α)

namespace Part

instance : Append (Part α) := ⟨fun p q => ⟨p.objects ++ q.objects, p.connections ++ q.connections⟩⟩

@[simp] theorem objects_append (p q : Part α) : (p ++ q).objects = p.objects ++ q.objects := rfl

@[simp] theorem connections_append (p q : Part α) :
    (p ++ q).connections = p.connections ++ q.connections := rfl

/-- Nothing. -/
def empty : Part α := ⟨[], []⟩

/-- A single object. -/
def object (o : Object α) : Part α := ⟨[o], []⟩

/-- A single connection. -/
def connection (c : Connection α) : Part α := ⟨[], [c]⟩

/-- Parts, one behind the other. -/
def join (parts : List (Part α)) : Part α := parts.foldr (· ++ ·) empty

theorem join_snoc (parts : List (Part α)) (p : Part α) : join (parts ++ [p]) = join parts ++ p := by
  induction parts with
  | nil => ext <;> simp [join, empty]
  | cons q parts ih =>
    simp only [join, List.cons_append, List.foldr_cons] at ih ⊢
    rw [ih]
    ext <;> simp

section
variable [Scalar α]

/-- The number of parameters of what is trained in a network for training. -/
def trained (p : Part α) : Nat :=
  totalSize ((p.objects.filter (·.trainable.getD true)).map (·.kind.parameterCount)) +
    totalSize ((p.connections.filter (·.trainable.getD true)).map (·.transform.parameterCount))

@[simp] theorem trained_empty : (empty : Part α).trained = 0 := rfl

theorem trained_append (p q : Part α) : (p ++ q).trained = p.trained + q.trained := by
  simp only [trained, objects_append, connections_append, List.filter_append, List.map_append,
    totalSize_eq_sum, List.sum_append]
  omega

theorem trained_object (o : Object α) :
    (object o).trained = if o.trainable.getD true then o.kind.parameterCount else 0 := by
  cases h : o.trainable.getD true <;> simp [trained, object, h]

theorem trained_connection (c : Connection α) :
    (connection c).trained = if c.trainable.getD true then c.transform.parameterCount else 0 := by
  cases h : c.trainable.getD true <;> simp [trained, connection, h]

theorem trained_join (parts : List (Part α)) :
    (join parts).trained = totalSize (parts.map trained) := by
  induction parts with
  | nil => rfl
  | cons p parts ih =>
    rw [List.map_cons, totalSize_cons, ← ih, ← trained_append]
    rfl

end
end Part

/-! ## Extended networks -/

namespace Network
variable {n : Network α}

/-- The network with a part behind what it has. -/
def extend (n : Network α) (p : Part α) : Network α :=
  { n with
    objects := n.objects ++ p.objects.toArray
    connections := n.connections ++ p.connections.toArray }

@[simp] theorem extend_empty (n : Network α) : n.extend .empty = n := by
  simp [extend, Part.empty]

theorem extend_extend (n : Network α) (p q : Part α) : (n.extend p).extend q = n.extend (p ++ q) := by
  simp [extend, Array.append_assoc]

theorem extend_inj {p q : Part α} : n.extend p = n.extend q ↔ p = q := by
  refine ⟨fun h => ?_, congrArg _⟩
  have ho := congrArg (·.objects.toList) h
  have hc := congrArg (·.connections.toList) h
  simp only [extend, Array.toList_append, List.append_cancel_left_eq] at ho hc
  exact Part.ext ho hc

/-- The trained parameters of a network that is made of a part. -/
theorem trainableParameterCount_extend [Scalar α] (label : String) (inferenceOnly : Bool)
    (p : Part α) : ((empty label inferenceOnly).extend p).trainableParameterCount =
      Word.ofNat (if inferenceOnly then 0 else p.trained) := by
  cases inferenceOnly with
  | true => simp [trainableParameterCount, extend, empty, trains, Word.sum]
  | false =>
    simp [trainableParameterCount, extend, empty, trains, Word.sum, Part.trained, totalSize_eq_sum]

/-! ### Operations -/

theorem exec_addObject (kind : ObjectKind α) (label : String) : (addObject kind label).exec n =
    (.ok ⟨n.objects.size⟩, n.extend (.object ⟨label, kind, none⟩)) := by
  refine (Step.exec_get_bind _ _).trans (Prod.ext rfl ?_)
  change { n with objects := n.objects.push ⟨label, kind, none⟩ } = _
  simp [extend, Part.object]

theorem getElem?_extend_object (x : Object α) :
    (n.extend (.object x)).objects[n.objects.size]? = some x := by
  simp [extend, Part.object]

/-- Flagging the object that has been added last. -/
theorem exec_flagObject_extend (x : Object α) (flag : Option Bool) :
    (setTrainable (.object ⟨n.objects.size⟩) flag).exec (n.extend (.object x)) =
      (.ok ⟨⟩, n.extend (.object { x with trainable := flag })) := by
  have hx : (n.extend (.object x)).object ⟨n.objects.size⟩ = .ok x :=
    object_eq_ok.2 (getElem?_extend_object x)
  refine (Step.exec_get_bind _ _).trans ((Step.exec_bind_ok (by rw [hx]; rfl)).trans ?_)
  refine Prod.ext rfl ?_
  simp [extend, Part.object, modify_push]

/-- Flagging the connection that has been added last. -/
theorem exec_flagConnection_extend (c : Connection α) (flag : Option Bool) :
    (setTrainable (.connection ⟨n.connections.size⟩) flag).exec (n.extend (.connection c)) =
      (.ok ⟨⟩, n.extend (.connection { c with trainable := flag })) := by
  have hc : (n.extend (.connection c)).connection ⟨n.connections.size⟩ = .ok c :=
    orRefuse_eq_ok.2 (by simp [extend, Part.connection])
  refine (Step.exec_get_bind _ _).trans ((Step.exec_bind_ok (by rw [hc]; rfl)).trans ?_)
  refine Prod.ext rfl ?_
  simp [extend, Part.connection, modify_push]

end Network
end Neuroform

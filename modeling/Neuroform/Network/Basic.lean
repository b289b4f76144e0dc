/-
  Neuroform — networks: objects, connections and probes.

  A network only grows; its parts are named by their place.  A connection reads
  a view of one object and adds to a view of another; it is checked when it is
  made.  A step that fails changes nothing.
-/
import Neuroform.Network.Object
import Neuroform.Network.Synapse
import Neuroform.Network.Transform

namespace Neuroform

/-! ## Views -/

/-- An object, or some positions of it, in order. -/
structure View where
  object : ObjectId
  indices : Option (List Nat)
  deriving DecidableEq, Inhabited

namespace View

/-- All positions of an object. -/
def full (o : ObjectId) : View := ⟨o, none⟩

def isFull (v : View) : Bool := v.indices.isNone

/-- The view of some positions of a view. -/
def slice (v : View) (positions : List Nat) : Outcome View := do
  match v.indices with
  | none => return ⟨v.object, some positions⟩
  | some mine =>
    let chosen ← positions.mapM fun i =>
      orRefuse mine[i]? (NetworkCause.indexOutOfView i mine.length)
    return ⟨v.object, some chosen⟩

/-- The text of a view. -/
def text (v : View) : String :=
  match v.indices with
  | none => v.object.text
  | some indices => s!"{v.object.text}[{indices.length} indices]"

end View

/-! ## Networks -/

/-- A linear map from a view to a view. -/
structure Connection (α : Type) where
  pre : View
  post : View
  transform : Transform α
  synapse : Option (Synapse α)
  trainable : Option Bool

/-- A view that is recorded. -/
structure Probe (α : Type) where
  target : View
  synapse : Option (Synapse α)

/-- What a trainability flag belongs to. -/
inductive TrainableKey where
  | object (o : ObjectId)
  | connection (c : ConnectionId)

/-- Objects, connections and probes.  In a network for inference only nothing
    is trained. -/
structure Network (α : Type) where
  label : String
  inferenceOnly : Bool
  objects : Array (Object α)
  connections : Array (Connection α)
  probes : Array (Probe α)

namespace Network
variable {α : Type}

/-- A network without parts. -/
def empty (label : String) (inferenceOnly : Bool) : Network α :=
  ⟨label, inferenceOnly, #[], #[], #[]⟩

/-! ### Reading -/

def object (n : Network α) (o : ObjectId) : Outcome (Object α) :=
  orRefuse n.objects[o.index]? (NetworkCause.noObject o n.label)

def connection (n : Network α) (c : ConnectionId) : Outcome (Connection α) :=
  orRefuse n.connections[c.index]? (NetworkCause.noConnection c n.label)

def probe (n : Network α) (p : ProbeId) : Outcome (Probe α) :=
  orRefuse n.probes[p.index]? (NetworkCause.noProbe p n.label)

/-- The connections in the order in which they were made. -/
def allConnections (n : Network α) : List (ConnectionId × Connection α) :=
  n.connections.toList.zipIdx.map fun (c, i) => (⟨i⟩, c)

/-- The connections that add to an object. -/
def connectionsInto (n : Network α) (o : ObjectId) : List (ConnectionId × Connection α) :=
  n.allConnections.filter (·.2.post.object = o)

/-- The connections that read an object. -/
def connectionsFrom (n : Network α) (o : ObjectId) : List (ConnectionId × Connection α) :=
  n.allConnections.filter (·.2.pre.object = o)

/-- The number of positions of a view of an object that has `size` ones. -/
def viewSize (n : Network α) (v : View) (size : Nat) : Outcome Nat := do
  match v.indices with
  | none => return size
  | some indices =>
    match indices.find? (size ≤ ·) with
    | some i => refuse (NetworkCause.indexOutOfObject i (← n.object v.object).text size)
    | none => return indices.length

/-- The number of values that a view gives. -/
def viewSizeOut (n : Network α) (v : View) : Outcome Nat := do
  n.viewSize v (← n.object v.object).kind.sizeOut

/-- The number of values that a view takes. -/
def viewSizeIn (n : Network α) (v : View) : Outcome Nat := do
  n.viewSize v (← (← n.object v.object).kind.sizeIn)

/-! ### Growing -/

/-- Adds an object. -/
def addObject (kind : ObjectKind α) (label : String) : Step (Network α) ObjectId := do
  let n ← get
  set { n with objects := n.objects.push ⟨label, kind, none⟩ }
  return ⟨n.objects.size⟩

/-- Adds a connection, after a check of its views, transform and synapse. -/
def connect [Scalar α] (pre post : View) (transform : Transform α)
    (synapse : Option (Synapse α)) : Step (Network α) ConnectionId := do
  let n ← get
  let sizeIn ← n.viewSizeOut pre
  let sizeOut ← n.viewSizeIn post
  let context := Context.connecting (← n.object pre.object).text (← n.object post.object).text
  (transform.check sizeIn sizeOut).within context
  if let some s := synapse then s.validate
  set { n with connections := n.connections.push ⟨pre, post, transform, synapse, none⟩ }
  return ⟨n.connections.size⟩

/-- Adds a probe of a view. -/
def addProbe (target : View) (synapse : Option (Synapse α)) : Step (Network α) ProbeId := do
  let n ← get
  let _ ← n.viewSizeOut target
  set { n with probes := n.probes.push ⟨target, synapse⟩ }
  return ⟨n.probes.size⟩

/-! ### Training -/

/-- Sets or removes a trainability flag. -/
def setTrainable (key : TrainableKey) (trainable : Option Bool) : Step (Network α) Unit := do
  let n ← get
  match key with
  | .object o =>
    let _ ← n.object o
    set { n with objects := n.objects.modify o.index ({ · with trainable }) }
  | .connection c =>
    let _ ← n.connection c
    set { n with connections := n.connections.modify c.index ({ · with trainable }) }

/-- The trainability flag of an object or connection. -/
def trainableFlag (n : Network α) : TrainableKey → Outcome (Option Bool)
  | .object o => do return (← n.object o).trainable
  | .connection c => do return (← n.connection c).trainable

/-- Whether a part with a flag is trained. -/
def trains (n : Network α) (flag : Option Bool) : Bool := !n.inferenceOnly && flag.getD true

/-- Whether an object or connection is trained.  In a network for inference
    only nothing is, whatever is asked for. -/
def isTrainable (n : Network α) (key : TrainableKey) : Outcome Bool := do
  if n.inferenceOnly then return false
  return (← n.trainableFlag key).getD true

/-- The number of trained parameters: biases of ensembles, weights of
    transforms and of tensor nodes. -/
def trainableParameterCount [Scalar α] (n : Network α) : Outcome Nat :=
  let objects := n.objects.toList.filter fun o => n.trains o.trainable
  let connections := n.connections.toList.filter fun c => n.trains c.trainable
  Word.sum (objects.map (·.kind.parameterCount) ++
    connections.map (·.transform.parameterCount))

/-! ### Text -/

/-- A line of the summary for an object. -/
def objectLine (o : Object α) (i : Nat) : String :=
  s!"{(ObjectId.mk i).text} {o.text} (size {o.kind.sizeOut})"

/-- A line of the summary for a connection. -/
def connectionLine (c : Connection α) (i : Nat) : String :=
  s!"{(ConnectionId.mk i).text} {c.pre.text} -> {c.post.text}"

/-- One line per object and connection. -/
def summary (n : Network α) : String :=
  "\n".intercalate (n.objects.toList.zipIdx.map (fun (o, i) => objectLine o i) ++
    n.connections.toList.zipIdx.map fun (c, i) => connectionLine c i)

end Network
end Neuroform

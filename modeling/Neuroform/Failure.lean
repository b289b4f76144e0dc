/-
  Neuroform — failures and the computations that may end in one.

  A computation either has no answer at all (`fault`: an index out of range, a
  division by zero, arrays that do not stretch to each other) or is refused for
  a cause, seen through the contexts that it passed on its way out.  `Outcome`
  is a computation without state; `Step σ` has a state, which keeps what was
  done to it before a failure.
-/
import Neuroform.Failure.Cause

namespace Neuroform

/-- A reason for which an operation is refused. -/
inductive Cause where
  | grid (cause : GridCause)
  | layer (cause : LayerCause)
  | graph (cause : GraphCause)
  | network (cause : NetworkCause)
  | conversion (cause : ConversionCause)
  | session (cause : SessionCause)
  | runner (cause : RunnerCause)
  /-- An array cannot be laid out as asked; this cause has no text. -/
  | arrangement
  /-- A refusal of a part that the caller supplied. -/
  | custom (text : String)

/-- The text of a cause, if it has one. -/
def Cause.text? : Cause → Option String
  | grid c => some c.text
  | layer c => some c.text
  | graph c => some c.text
  | network c => some c.text
  | conversion c => some c.text
  | session c => some c.text
  | runner c => some c.text
  | arrangement => none
  | custom text => some text

/-- What was being done when an operation was refused. -/
inductive Context where
  | applying (layer : String)
  | evaluating (what : String)
  | evaluatingWrapped (name : String)
  | connecting (pre post : String)
  | applyingConnection (connection : ConnectionId)
  | converting (layer : String) (invocation : Nat)
  | trainingSource
  | trainingTarget

def Context.text : Context → String
  | applying layer => s!"Applying {layer}"
  | evaluating what => s!"Evaluating {what}"
  | evaluatingWrapped name => s!"Evaluating {name} in a tensor node"
  | connecting pre post => s!"Connecting {pre} to {post}"
  | applyingConnection connection => s!"Applying {connection.text}"
  | converting layer invocation => s!"Converting {layer} node {invocation}"
  | trainingSource => "Training source model"
  | trainingTarget => "Training converted network"

/-- How a computation ends without an answer. -/
inductive Failure where
  | fault
  | refused (contexts : List Context) (cause : Cause)

namespace Failure

/-- Adds a context around a refusal; a fault has none. -/
def within (c : Context) : Failure → Failure
  | fault => fault
  | refused contexts cause => refused (c :: contexts) cause

/-- The text of a failure: its contexts from the outside in, then its cause. -/
def text : Failure → String
  | fault => ""
  | refused contexts cause => ": ".intercalate (contexts.map Context.text ++ cause.text?.toList)

end Failure

/-- Types of causes. -/
class IsCause (γ : Type) where
  cause : γ → Cause

instance : IsCause Cause := ⟨id⟩
instance : IsCause GridCause := ⟨.grid⟩
instance : IsCause LayerCause := ⟨.layer⟩
instance : IsCause GraphCause := ⟨.graph⟩
instance : IsCause NetworkCause := ⟨.network⟩
instance : IsCause ConversionCause := ⟨.conversion⟩
instance : IsCause SessionCause := ⟨.session⟩
instance : IsCause RunnerCause := ⟨.runner⟩

/-- A computation that may fail. -/
abbrev Outcome (β : Type) := Except Failure β

/-- A computation on a state that may fail; the state outlives a failure. -/
abbrev Step (σ β : Type) := ExceptT Failure (StateM σ) β

section
variable {γ β σ : Type} [IsCause γ]

/-- Refuses for a cause. -/
def refuse (c : γ) : Outcome β := .error (.refused [] (IsCause.cause c))

/-- Has no answer. -/
def fault : Outcome β := .error .fault

/-- Refuses for a cause unless a condition holds. -/
def require (p : Prop) [Decidable p] (c : γ) : Outcome Unit := if p then .ok () else refuse c

/-- The value of an option; its absence is refused for a cause. -/
def orRefuse (x : Option β) (c : γ) : Outcome β := x.elim (refuse c) .ok

/-- The value of an option; its absence is a fault. -/
def orFault (x : Option β) : Outcome β := x.elim fault .ok

/-- Runs a computation inside a context. -/
def Outcome.within (c : Context) (o : Outcome β) : Outcome β := o.mapError (Failure.within c)

/-- Runs a step inside a context. -/
def Step.within (c : Context) (s : Step σ β) : Step σ β :=
  fun state =>
    let (result, after) := s.run state
    (result.mapError (Failure.within c), after)

end

/-- Runs a step on a part of a state. -/
def Step.on {σ τ β : Type} (part : τ → σ) (replace : τ → σ → τ) (s : Step σ β) : Step τ β :=
  fun state =>
    let (result, after) := s.run (part state)
    (result, replace state after)

/-- What a step gives that needs no state. -/
def Step.result {β : Type} (s : Step Unit β) : Outcome β := (s.run ()).1

end Neuroform

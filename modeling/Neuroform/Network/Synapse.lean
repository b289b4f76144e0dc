/-
  Neuroform — synapses: linear filters on connections and probes.

  A filter moves its output towards its input at every time step.  A constant
  input is what it settles on, so synapses do not show at steady state.
-/
import Neuroform.Failure
import Neuroform.Scalar

namespace Neuroform

/-- A filter with a time constant: one low-pass stage, or two. -/
inductive Synapse (α : Type) where
  | lowpass (tau : α)
  | alpha (tau : α)

namespace Synapse
variable {α : Type}

/-- The time constant of a filter. -/
def tau : Synapse α → α
  | lowpass tau | alpha tau => tau

/-- The text of a filter. -/
def text [Printed α] : Synapse α → String
  | lowpass tau => s!"Lowpass(tau={Printed.plain tau})"
  | alpha tau => s!"Alpha(tau={Printed.plain tau})"

variable [Scalar α]

/-- Time constants are finite and not negative. -/
def validate (s : Synapse α) : Outcome Unit :=
  require (isFinite s.tau ∧ 0 ≤ s.tau) (NetworkCause.timeConstant (Printed.plain s.tau))

/-- What is left of a difference after a time step. -/
def decay (dt tau : α) : α := Elementary.exp (-dt / tau)

/-- One time step of one stage, from `y` towards `x`. -/
def approach (d x y : α) : α := d * y + (1 - d) * x

/-- One time step towards input `x`: the new state, which is the first stage of
    two, and the new output. -/
def step (s : Synapse α) (dt x state y : α) : α × α :=
  if s.tau ≤ 0 then (state, x) else
    let d := decay dt s.tau
    match s with
    | lowpass _ => (state, approach d x y)
    | alpha _ =>
      let first := approach d x state
      (first, approach d first y)

end Synapse
end Neuroform

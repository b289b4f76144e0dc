/-
  Neuroform — what filters settle on.

  A stage leaves a fixed share of the difference to its input at every time
  step (`Synapse.approach_sub`).  The second stage of an alpha filter reads the
  first one after its step, so its own difference also takes in what is left of
  the first: after `n` steps `n` such shares have come together.  Both kinds of
  filter reach a constant input without ever leaving the range between it and
  the numbers they started from (`Synapse.settles_on_input`).
-/
import Neuroform.Network.Synapse
import Neuroform.Proofs.Rational

namespace Neuroform.Synapse

variable {α : Type} [Field α] [LinearOrder α] [Elementary α] [Printed α]
variable {dt tau d x state y lo hi : α}

/-! ## One step -/

/-- A stage keeps the share `d` of its difference to the input. -/
theorem approach_sub (d x y : α) : approach d x y - x = d * (y - x) := by
  unfold approach
  ring

theorem lowpass_step (ht : 0 < tau) :
    (lowpass tau).step dt x state y = (state, approach (decay dt tau) x y) :=
  if_neg (not_le_of_gt ht)

theorem alpha_step (ht : 0 < tau) :
    (alpha tau).step dt x state y = (approach (decay dt tau) x state,
      approach (decay dt tau) (approach (decay dt tau) x state) y) :=
  if_neg (not_le_of_gt ht)

/-! ## Any number of steps -/

/-- The state and the output after `n` time steps under a constant input, from
    those at the start. -/
def run (s : Synapse α) (dt x : α) (n : ℕ) (start : α × α) : α × α :=
  (fun now => s.step dt x now.1 now.2)^[n] start

theorem run_succ (s : Synapse α) (n : ℕ) (start : α × α) :
    s.run dt x (n + 1) start = s.step dt x (s.run dt x n start).1 (s.run dt x n start).2 :=
  Function.iterate_succ_apply' _ n start

theorem lowpass_run (ht : 0 < tau) (s₀ y₀ : α) (n : ℕ) :
    ((lowpass tau).run dt x n (s₀, y₀)).1 = s₀ ∧
      ((lowpass tau).run dt x n (s₀, y₀)).2 - x = decay dt tau ^ n * (y₀ - x) := by
  induction n with
  | zero => exact ⟨rfl, by rw [pow_zero, one_mul]; rfl⟩
  | succ n ih =>
    obtain ⟨hstate, hout⟩ := ih
    rw [run_succ, lowpass_step ht]
    exact ⟨hstate, by rw [approach_sub, hout, pow_succ']; ring⟩

/-- The first stage of an alpha filter is a lowpass of its own. -/
theorem alpha_run_state (ht : 0 < tau) (s₀ y₀ : α) (n : ℕ) :
    ((alpha tau).run dt x n (s₀, y₀)).1 - x = decay dt tau ^ n * (s₀ - x) := by
  induction n with
  | zero => rw [pow_zero, one_mul]; rfl
  | succ n ih =>
    rw [run_succ, alpha_step ht, approach_sub, ih, pow_succ']
    ring

theorem alpha_run_output (ht : 0 < tau) (s₀ y₀ : α) (n : ℕ) :
    ((alpha tau).run dt x n (s₀, y₀)).2 - x = decay dt tau ^ n * (y₀ - x) +
      n * (1 - decay dt tau) * decay dt tau ^ n * (s₀ - x) := by
  induction n with
  | zero => simp [run]
  | succ n ih =>
    rw [run_succ, alpha_step ht]
    set d := decay dt tau
    set now := (alpha tau).run dt x n (s₀, y₀)
    -- the second stage moves towards the first one after its step
    have hfirst : approach d x now.1 - x = d ^ (n + 1) * (s₀ - x) := by
      rw [approach_sub, alpha_run_state ht, pow_succ']
      ring
    calc approach d (approach d x now.1) now.2 - x
        = d * (now.2 - x) + (1 - d) * (approach d x now.1 - x) := by unfold approach; ring
      _ = d * (d ^ n * (y₀ - x) + n * (1 - d) * d ^ n * (s₀ - x)) +
            (1 - d) * (d ^ (n + 1) * (s₀ - x)) := by rw [ih, hfirst]
      _ = _ := by push_cast; ring

/-! ## The range of a filter -/

variable [IsStrictOrderedRing α]

/-- A stage moves to a number between its own and the input. -/
theorem approach_mem (h0 : 0 < d) (h1 : d < 1) (hx : x ∈ Set.Icc lo hi) (hy : y ∈ Set.Icc lo hi) :
    approach d x y ∈ Set.Icc lo hi :=
  convex_Icc lo hi hy hx h0.le (sub_nonneg.2 h1.le) (add_sub_cancel d 1)

/-- A step stays in every range that has the input, the state and the output. -/
theorem step_mem (s : Synapse α) (h0 : 0 < decay dt s.tau) (h1 : decay dt s.tau < 1)
    (ht : 0 < s.tau) (hx : x ∈ Set.Icc lo hi) (hs : state ∈ Set.Icc lo hi)
    (hy : y ∈ Set.Icc lo hi) :
    (s.step dt x state y).1 ∈ Set.Icc lo hi ∧ (s.step dt x state y).2 ∈ Set.Icc lo hi := by
  cases s with
  | lowpass tau =>
    change 0 < tau at ht
    rw [lowpass_step ht]
    exact ⟨hs, approach_mem h0 h1 hx hy⟩
  | alpha tau =>
    change 0 < tau at ht
    have hfirst := approach_mem h0 h1 hx hs
    rw [alpha_step ht]
    exact ⟨hfirst, approach_mem h0 h1 hfirst hy⟩

/-- A filter stays in every range that has its input and what it starts from. -/
theorem run_mem (s : Synapse α) (h0 : 0 < decay dt s.tau) (h1 : decay dt s.tau < 1)
    (ht : 0 < s.tau) (hx : x ∈ Set.Icc lo hi) {s₀ y₀ : α} (hs : s₀ ∈ Set.Icc lo hi)
    (hy : y₀ ∈ Set.Icc lo hi) (n : ℕ) :
    (s.run dt x n (s₀, y₀)).1 ∈ Set.Icc lo hi ∧ (s.run dt x n (s₀, y₀)).2 ∈ Set.Icc lo hi := by
  induction n with
  | zero => exact ⟨hs, hy⟩
  | succ n ih =>
    rw [run_succ]
    exact s.step_mem h0 h1 ht hx ih.1 ih.2

/-- **Under a constant input `x` a filter closes in on `x`**: with the decay `d`
    of a step, `n` steps leave `d ^ n` of the difference of a lowpass and of the
    first stage of an alpha filter, the state of a lowpass is untouched, and the
    second stage of an alpha filter adds `n * (1 - d) * d ^ n` of the difference
    of the first.  The output never leaves the range between the input and both
    start values. -/
theorem settles_on_input (ht : 0 < tau) (hd : decay dt tau = d) (h0 : 0 < d) (h1 : d < 1)
    (x s₀ y₀ : α) (n : ℕ) :
    ((lowpass tau).run dt x n (s₀, y₀)).1 = s₀ ∧
    ((lowpass tau).run dt x n (s₀, y₀)).2 - x = d ^ n * (y₀ - x) ∧
    ((alpha tau).run dt x n (s₀, y₀)).1 - x = d ^ n * (s₀ - x) ∧
    ((alpha tau).run dt x n (s₀, y₀)).2 - x =
      d ^ n * (y₀ - x) + n * (1 - d) * d ^ n * (s₀ - x) ∧
    ∀ s ∈ [lowpass tau, alpha tau], min x (min y₀ s₀) ≤ (s.run dt x n (s₀, y₀)).2 ∧
      (s.run dt x n (s₀, y₀)).2 ≤ max x (max y₀ s₀) := by
  subst hd
  refine ⟨(lowpass_run ht s₀ y₀ n).1, (lowpass_run ht s₀ y₀ n).2, alpha_run_state ht s₀ y₀ n,
    alpha_run_output ht s₀ y₀ n, fun s hs => ?_⟩
  have htau : s.tau = tau := by
    rcases List.mem_pair.1 hs with rfl | rfl <;> rfl
  rw [← htau] at ht h0 h1
  have hx : x ∈ Set.Icc (min x (min y₀ s₀)) (max x (max y₀ s₀)) := by simp
  have hs : s₀ ∈ Set.Icc (min x (min y₀ s₀)) (max x (max y₀ s₀)) := by simp
  have hy : y₀ ∈ Set.Icc (min x (min y₀ s₀)) (max x (max y₀ s₀)) := by simp
  exact (s.run_mem h0 h1 ht hx hs hy n).2

/-- A step of one half time constant, for three steps from different start
    values. -/
theorem settles_on_input_thrice : (0 : ℚ) < 2 ∧ decay (1 : ℚ) 2 = 1 / 2 ∧
    (0 : ℚ) < 1 / 2 ∧ (1 / 2 : ℚ) < 1 ∧
    ((lowpass 2).run 1 4 3 ((3 : ℚ), 0)) = (3, 7 / 2) ∧
    ((alpha 2).run 1 4 3 ((3 : ℚ), 0)) = (31 / 8, 53 / 16) := by
  have hd : decay (1 : ℚ) 2 = 1 / 2 := by decide +kernel
  have ht : (0 : ℚ) < 2 := by norm_num
  have h0 : (0 : ℚ) < 1 / 2 := by norm_num
  have h1 : (1 / 2 : ℚ) < 1 := by norm_num
  obtain ⟨hstate, hlow, hfirst, hsecond, -⟩ := settles_on_input ht hd h0 h1 4 3 0 3
  refine ⟨ht, hd, h0, h1, Prod.ext hstate ?_, Prod.ext ?_ ?_⟩
  · exact (sub_left_inj (a := 4)).1 (hlow.trans (by norm_num))
  · exact (sub_left_inj (a := 4)).1 (hfirst.trans (by norm_num))
  · exact (sub_left_inj (a := 4)).1 (hsecond.trans (by norm_num))

end Neuroform.Synapse

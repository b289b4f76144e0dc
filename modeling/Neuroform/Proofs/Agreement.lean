/-
  Neuroform — steps from related states.

  Two steps agree at two states if they have the same outcome there and come to
  related states (`Step.Agrees`).  A step respects a relation if it agrees with
  itself at all related states (`Step.Respects`): it does not tell them apart.
-/
import Neuroform.Proofs.Outcome

namespace Neuroform.Step

variable {σ τ β γ δ : Type} {R : σ → σ → Prop} {x x' : σ}

/-- Two steps have the same outcome, a result with a property, and come to
    related states. -/
structure Agrees (R : σ → σ → Prop) (Q : β → Prop) (s s' : Step σ β) (x x' : σ) : Prop where
  outcome : (s'.exec x').1 = (s.exec x).1
  related : R (s.exec x).2 (s'.exec x').2
  result : ∀ b, (s.exec x).1 = .ok b → Q b

namespace Agrees
variable {P Q : β → Prop} {Q' : γ → Prop} {s s' : Step σ β}

theorem of_exec {o : Outcome β} {y y' : σ} (he : s.exec x = (o, y)) (he' : s'.exec x' = (o, y'))
    (h : R y y') (ho : ∀ b, o = .ok b → Q b) : Agrees R Q s s' x x' := by
  refine ⟨by rw [he, he'], by rwa [he, he'], fun b hb => ho b ?_⟩
  rwa [he] at hb

/-- Agreement is about what steps do. -/
theorem of_eq {t t' : Step σ β} {y y' : σ} (he : s.exec x = t.exec y)
    (he' : s'.exec x' = t'.exec y') (h : Agrees R Q t t' y y') : Agrees R Q s s' x x' :=
  ⟨by rw [he, he', h.outcome], by rw [he, he']; exact h.related,
    fun b hb => h.result b (he ▸ hb)⟩

theorem pure {b : β} (h : R x x') (hb : Q b) : Agrees R Q (Pure.pure b) (Pure.pure b) x x' :=
  .of_exec rfl rfl h fun _ he => Except.ok.inj he ▸ hb

theorem lift {o : Outcome β} (h : R x x') (ho : ∀ b, o = .ok b → Q b) :
    Agrees R Q (liftM o) (liftM o) x x' := .of_exec rfl rfl h ho

theorem bind {f f' : β → Step σ γ} (hs : Agrees R P s s' x x')
    (hf : ∀ b y y', P b → R y y' → Agrees R Q' (f b) (f' b) y y') :
    Agrees R Q' (s >>= f) (s' >>= f') x x' := by
  obtain ⟨ho, hr, hp⟩ := hs
  rcases he : s.exec x with ⟨e | b, y⟩ <;> rcases he' : s'.exec x' with ⟨e' | b', y'⟩ <;>
    simp only [he, he', Except.error.injEq, Except.ok.injEq, reduceCtorEq] at ho hr hp
  case error.error =>
    subst ho
    exact .of_exec (exec_bind_error he) (exec_bind_error he') hr nofun
  case ok.ok =>
    subst ho
    exact .of_eq (exec_bind_ok he) (exec_bind_ok he') (hf _ y y' (hp _ rfl) hr)

theorem get_bind {f f' : σ → Step σ γ} (h : Agrees R Q' (f x) (f' x') x x') :
    Agrees R Q' (get >>= f) (get >>= f') x x' := .of_eq (exec_get_bind f x) (exec_get_bind f' x') h

theorem lift_bind {o : Outcome β} {f f' : β → Step σ γ} (h : R x x')
    (hf : ∀ b, o = .ok b → Agrees R Q' (f b) (f' b) x x') :
    Agrees R Q' (liftM o >>= f) (liftM o >>= f') x x' := by
  cases o with
  | error e => exact .of_exec (exec_lift_bind _ f x) (exec_lift_bind _ f' x') h nofun
  | ok b => exact .of_eq (exec_lift_bind _ f x) (exec_lift_bind _ f' x') (hf b rfl)

/-- What is read may differ, if what follows does not tell it apart. -/
theorem lift_bind₂ {T : β → β → Prop} {o o' : Outcome β} {f f' : β → Step σ γ} (h : R x x')
    (ho : (∃ e, o = .error e ∧ o' = .error e) ∨ ∃ b b', o = .ok b ∧ o' = .ok b' ∧ T b b')
    (hf : ∀ b b', T b b' → Agrees R Q' (f b) (f' b') x x') :
    Agrees R Q' (liftM o >>= f) (liftM o' >>= f') x x' := by
  obtain ⟨e, rfl, rfl⟩ | ⟨b, b', rfl, rfl, hT⟩ := ho
  · exact .of_exec (exec_lift_bind _ f x) (exec_lift_bind _ f' x') h nofun
  · exact .of_eq (exec_lift_bind _ f x) (exec_lift_bind _ f' x') (hf b b' hT)

theorem within {c : Context} (h : Agrees R Q s s' x x') :
    Agrees R Q (s.within c) (s'.within c) x x' := by
  obtain ⟨ho, hr, hq⟩ := h
  refine ⟨congrArg (Except.mapError (Failure.within c)) ho, hr, fun b hb => hq b ?_⟩
  change (s.exec x).1.mapError (Failure.within c) = .ok b at hb
  cases h : (s.exec x).1 with
  | error e => simp [h, Except.mapError] at hb
  | ok b' => simpa [h, Except.mapError] using hb

/-- Steps on parts of states, which are related if their parts are. -/
theorem on {part : τ → σ} {replace : τ → σ → τ} {T : τ → τ → Prop} {z z' : τ}
    (h : Agrees R Q s s' (part z) (part z'))
    (ht : ∀ y y', R y y' → T (replace z y) (replace z' y')) :
    Agrees T Q (s.on part replace) (s'.on part replace) z z' :=
  ⟨h.outcome, ht _ _ h.related, h.result⟩

end Agrees

/-- A step does not tell related states apart. -/
def Respects (R : σ → σ → Prop) (s : Step σ β) : Prop :=
  ∀ x x', R x x' → Agrees R (fun _ => True) s s x x'

namespace Respects
variable {s : Step σ β}

theorem pure {b : β} : Respects R (Pure.pure b : Step σ β) := fun _ _ h => .pure h trivial

theorem lift {o : Outcome β} : Respects R (liftM o : Step σ β) :=
  fun _ _ h => .lift h fun _ _ => trivial

theorem bind {f : β → Step σ γ} (hs : Respects R s) (hf : ∀ b, Respects R (f b)) :
    Respects R (s >>= f) := fun x x' h => (hs x x' h).bind fun b y y' _ => hf b y y'

theorem map {f : β → γ} (hs : Respects R s) : Respects R (f <$> s) := by
  rw [← bind_pure_comp]
  exact hs.bind fun _ => .pure

theorem within {c : Context} (hs : Respects R s) : Respects R (s.within c) :=
  fun x x' h => (hs x x' h).within

/-- A step may read what related states have in common. -/
theorem read {f : σ → Step σ γ} (he : ∀ x x', R x x' → f x' = f x) (hf : ∀ x, Respects R (f x)) :
    Respects R (get >>= f) := fun x x' h => .get_bind (he x x' h ▸ hf x x x' h)

theorem lift_bind {o : Outcome β} {f : β → Step σ γ} (hf : ∀ b, Respects R (f b)) :
    Respects R (liftM o >>= f) := lift.bind hf

theorem forIn {f : δ → γ → Step σ (ForInStep γ)} (hf : ∀ d c, Respects R (f d c)) :
    ∀ {xs : List δ} {c : γ}, Respects R (forIn xs c f)
  | [], _ => .pure
  | d :: xs, c => by
    rw [List.forIn_cons]
    refine (hf d c).bind fun r => ?_
    cases r with
    | done c => exact .pure
    | yield c => exact forIn hf

theorem forM {f : δ → Step σ PUnit} (hf : ∀ d, Respects R (f d)) :
    ∀ {xs : List δ}, Respects R (xs.forM f)
  | [] => .pure
  | d :: _ => (hf d).bind fun _ => forM hf

end Respects
end Neuroform.Step

/-
  Neuroform — taking outcomes and steps apart.

  A computation that succeeds did so in all of its parts: `bind_eq_ok`,
  `mapM_forall₂`, `foldlM_append_eq_ok`.  A step is known by its outcome and the
  state behind it, `Step.exec`; a failed part hands its state on.
-/
import Mathlib
import Neuroform.Failure

namespace Neuroform

/-! ## Lists that are related entry by entry -/

section
variable {β γ δ : Type} {R : β → γ → Prop} {bs : List β} {cs : List γ}

theorem forall₂_mem_left (h : List.Forall₂ R bs cs) : ∀ b ∈ bs, ∃ c ∈ cs, R b c := by
  induction h with
  | nil => simp
  | cons h _ ih =>
    rintro b (_ | ⟨_, hb⟩)
    · exact ⟨_, by simp, h⟩
    · obtain ⟨c, hc, hr⟩ := ih b hb
      exact ⟨c, List.mem_cons_of_mem _ hc, hr⟩

theorem forall₂_getElem? (h : List.Forall₂ R bs cs) {k : Nat} {b : β} (hb : bs[k]? = some b) :
    ∃ c, cs[k]? = some c ∧ R b c := by
  obtain ⟨hk, rfl⟩ := List.getElem?_eq_some_iff.1 hb
  have hk' : k < cs.length := h.length_eq ▸ hk
  exact ⟨_, List.getElem?_eq_getElem hk', h.get hk hk'⟩

theorem forall₂_of_getElem? (hl : bs.length = cs.length)
    (h : ∀ (k : Nat) b c, bs[k]? = some b → cs[k]? = some c → R b c) : List.Forall₂ R bs cs :=
  List.forall₂_iff_get.2 ⟨hl, fun _ hk hk' =>
    h _ _ _ (List.getElem?_eq_getElem hk) (List.getElem?_eq_getElem hk')⟩

theorem exists_forall₂ : ∀ {l : List β}, (∀ b ∈ l, ∃ c, R b c) → ∃ cs, List.Forall₂ R l cs
  | [], _ => ⟨[], .nil⟩
  | b :: bs, h => by
    obtain ⟨c, hc⟩ := h b (by simp)
    obtain ⟨cs, hcs⟩ := exists_forall₂ fun b hb => h b (List.mem_cons_of_mem _ hb)
    exact ⟨c :: cs, .cons hc hcs⟩

/-- Relations between the entries of lists, one behind the other. -/
theorem forall₂_comp {S : γ → δ → Prop} {T : β → δ → Prop}
    (h : ∀ b c d, R b c → S c d → T b d) : ∀ {bs : List β} {cs : List γ} {ds : List δ},
      List.Forall₂ R bs cs → List.Forall₂ S cs ds → List.Forall₂ T bs ds
  | _, _, _, .nil, .nil => .nil
  | _, _, _, .cons hr hrs, .cons hs hss => .cons (h _ _ _ hr hs) (forall₂_comp h hrs hss)

end

/-- Changing the entry that has been added last. -/
theorem modify_push {β : Type} (xs : Array β) (x : β) (f : β → β) :
    (xs.push x).modify xs.size f = xs.push (f x) := by
  refine Array.ext_getElem? fun k => ?_
  simp only [Array.getElem?_modify, Array.getElem?_push]
  split
  case isTrue h => simp [h]
  case isFalse h => rw [if_neg fun hk => h hk.symm, if_neg fun hk => h hk.symm]

/-! ## Outcomes -/

section
variable {β γ δ : Type}

theorem bind_eq_ok {x : Outcome β} {f : β → Outcome γ} {c : γ} :
    (x >>= f) = .ok c ↔ ∃ b, x = .ok b ∧ f b = .ok c := by
  cases x with
  | error e => simp [bind, Except.bind]
  | ok b => simp [bind, Except.bind]

theorem bind_eq_error {x : Outcome β} {f : β → Outcome γ} {e : Failure} :
    (x >>= f) = .error e ↔ x = .error e ∨ ∃ b, x = .ok b ∧ f b = .error e := by
  cases x with
  | error e => simp [bind, Except.bind]
  | ok b => simp [bind, Except.bind]

theorem map_eq_ok {x : Outcome β} {f : β → γ} {c : γ} :
    (f <$> x) = .ok c ↔ ∃ b, x = .ok b ∧ f b = c := by
  cases x with
  | error e => simp [Functor.map, Except.map]
  | ok b => simp [Functor.map, Except.map]

@[simp] theorem pure_eq_ok {b c : β} : (pure b : Outcome β) = .ok c ↔ b = c := by
  simp [pure, Except.pure]

theorem toOption_eq_some {x : Outcome β} {b : β} : x.toOption = some b ↔ x = .ok b := by
  cases x <;> simp [Except.toOption]

variable {κ : Type} [IsCause κ] {cause : κ}

@[simp] theorem refuse_ne_ok {b : β} : ¬ (refuse cause : Outcome β) = .ok b := by simp [refuse]

@[simp] theorem fault_ne_ok {b : β} : ¬ (fault : Outcome β) = .ok b := by simp [fault]

@[simp] theorem orRefuse_eq_ok {x : Option β} {b : β} : orRefuse x cause = .ok b ↔ x = some b := by
  cases x <;> simp [orRefuse]

@[simp] theorem orFault_eq_ok {x : Option β} {b : β} : orFault x = .ok b ↔ x = some b := by
  cases x <;> simp [orFault]

@[simp] theorem require_eq_ok {p : Prop} [Decidable p] {u : Unit} :
    require p cause = .ok u ↔ p := by
  by_cases h : p <;> simp [require, h]

@[simp] theorem within_eq_ok {o : Outcome β} {c : Context} {b : β} :
    o.within c = .ok b ↔ o = .ok b := by
  cases o <;> simp [Outcome.within, Except.mapError]

/-! ### Lists of outcomes -/

theorem mapM_forall₂ {f : δ → Outcome β} : ∀ {xs : List δ} {ys : List β},
    xs.mapM f = .ok ys ↔ List.Forall₂ (fun x y => f x = .ok y) xs ys
  | [], ys => by cases ys <;> simp
  | x :: xs, ys => by
    rw [List.mapM_cons, bind_eq_ok]
    constructor
    · rintro ⟨y, hy, h⟩
      obtain ⟨zs, hzs, h⟩ := bind_eq_ok.1 h
      obtain rfl := pure_eq_ok.1 h
      exact .cons hy (mapM_forall₂.1 hzs)
    · rintro (_ | ⟨hy, h⟩)
      exact ⟨_, hy, bind_eq_ok.2 ⟨_, mapM_forall₂.2 h, rfl⟩⟩

theorem forM_eq_ok {f : δ → Outcome Unit} : ∀ {xs : List δ},
    xs.forM f = .ok () ↔ ∀ x ∈ xs, f x = .ok ()
  | [] => by simp [List.forM, pure, Except.pure]
  | x :: xs => by
    change (f x >>= fun _ => xs.forM f) = .ok () ↔ _
    rw [bind_eq_ok]
    simp only [List.mem_cons, forall_eq_or_imp, ← @forM_eq_ok f xs]
    exact ⟨fun ⟨_, h, h'⟩ => ⟨h, h'⟩, fun ⟨h, h'⟩ => ⟨(), h, h'⟩⟩

theorem foldlM_append_eq_ok {f : γ → δ → Outcome γ} {xs ys : List δ} {c d : γ} :
    (xs ++ ys).foldlM f c = .ok d ↔ ∃ b, xs.foldlM f c = .ok b ∧ ys.foldlM f b = .ok d := by
  rw [List.foldlM_append, bind_eq_ok]

theorem foldlM_cons_eq_ok {f : γ → δ → Outcome γ} {x : δ} {xs : List δ} {c d : γ} :
    (x :: xs).foldlM f c = .ok d ↔ ∃ b, f c x = .ok b ∧ xs.foldlM f b = .ok d := by
  rw [List.foldlM_cons, bind_eq_ok]

@[simp] theorem foldlM_nil_eq_ok {f : γ → δ → Outcome γ} {c d : γ} :
    ([] : List δ).foldlM f c = .ok d ↔ c = d := by
  simp [List.foldlM_nil]

/-- What every step of a loop keeps, and what it leads to, once steps have
    happened, holds behind the loop. -/
theorem foldlM_keeps {f : γ → δ → Outcome γ} {P : γ → Prop} {R : γ → γ → Prop}
    {Q : δ → γ → Prop} (refl : ∀ c, R c c) (trans : ∀ {a b c}, R a b → R b c → R a c)
    (keeps : ∀ {x c d}, Q x c → R c d → Q x d) :
    ∀ {xs : List δ} {c d : γ},
      (∀ x ∈ xs, ∀ {c d}, P c → f c x = .ok d → P d ∧ R c d ∧ Q x d) →
      xs.foldlM f c = .ok d → P c → P d ∧ R c d ∧ ∀ x ∈ xs, Q x d
  | [], c, d, _, h, hc => by
    obtain rfl := foldlM_nil_eq_ok.1 h
    exact ⟨hc, refl c, by simp⟩
  | x :: xs, c, d, step, h, hc => by
    obtain ⟨b, hb, h⟩ := foldlM_cons_eq_ok.1 h
    obtain ⟨hPb, hcb, hQ⟩ := step x (by simp) hc hb
    obtain ⟨hPd, hbd, hQs⟩ := foldlM_keeps (Q := Q) refl trans keeps
      (fun y hy => step y (List.mem_cons_of_mem _ hy)) h hPb
    refine ⟨hPd, trans hcb hbd, ?_⟩
    rintro y (_ | ⟨_, hy⟩)
    · exact keeps hQ hbd
    · exact hQs y hy

/-- A loop whose steps succeed wherever those of another one do gives the same
    as that one. -/
theorem foldlM_imp {f f' : γ → δ → Outcome γ} : ∀ {xs : List δ} {c d : γ},
    (∀ x ∈ xs, ∀ {c d}, f c x = .ok d → f' c x = .ok d) →
    xs.foldlM f c = .ok d → xs.foldlM f' c = .ok d
  | [], _, _, _, h => h
  | x :: xs, c, d, step, h => by
    obtain ⟨b, hb, h⟩ := foldlM_cons_eq_ok.1 h
    exact foldlM_cons_eq_ok.2 ⟨b, step x (by simp) hb,
      foldlM_imp (fun y hy => step y (List.mem_cons_of_mem _ hy)) h⟩

/-- A loop depends on its steps at the entries of its list. -/
theorem foldlM_congr {f f' : γ → δ → Outcome γ} : ∀ {xs : List δ} {c : γ},
    (∀ x ∈ xs, ∀ c, f c x = f' c x) → xs.foldlM f c = xs.foldlM f' c
  | [], _, _ => rfl
  | x :: xs, c, h => by
    rw [List.foldlM_cons, List.foldlM_cons, h x (by simp)]
    exact congrArg _ (funext fun _ => foldlM_congr fun y hy => h y (List.mem_cons_of_mem _ hy))

/-! ### Outcomes that are no fault -/

theorem bind_ne_fault {x : Outcome β} {f : β → Outcome γ} (hx : x ≠ fault)
    (hf : ∀ b, x = .ok b → f b ≠ fault) : (x >>= f) ≠ fault := by
  intro h
  rcases bind_eq_error.1 h with h | ⟨b, hb, h⟩
  · exact hx h
  · exact hf b hb h

theorem orRefuse_ne_fault {x : Option β} : orRefuse x cause ≠ fault := by
  cases x <;> simp [orRefuse, refuse, fault]

theorem mapM_ne_fault {f : δ → Outcome β} : ∀ {xs : List δ}, (∀ x ∈ xs, f x ≠ fault) →
    xs.mapM f ≠ fault
  | [], _ => by simp [fault, pure, Except.pure]
  | x :: xs, h => by
    rw [List.mapM_cons]
    refine bind_ne_fault (h x (by simp)) fun b _ => bind_ne_fault
      (mapM_ne_fault fun y hy => h y (List.mem_cons_of_mem _ hy)) fun _ _ => ?_
    simp [fault, pure, Except.pure]

/-- A loop fails in one of its steps. -/
theorem foldlM_eq_error {f : γ → δ → Outcome γ} {e : Failure} : ∀ {xs : List δ} {c : γ},
    xs.foldlM f c = .error e → ∃ x ∈ xs, ∃ d, f d x = .error e
  | [], _, h => by simp [pure, Except.pure] at h
  | x :: xs, c, h => by
    rw [List.foldlM_cons] at h
    rcases bind_eq_error.1 h with h | ⟨b, -, h⟩
    · exact ⟨x, by simp, c, h⟩
    · obtain ⟨y, hy, hd⟩ := foldlM_eq_error h
      exact ⟨y, List.mem_cons_of_mem _ hy, hd⟩

end

/-! ### Specifications of outcomes -/

namespace Outcome
variable {β γ δ : Type}

/-- What holds of a failure, or of a result. -/
def Ensures (x : Outcome β) (E : Failure → Prop) (Q : β → Prop) : Prop :=
  match x with
  | .ok b => Q b
  | .error e => E e

section
variable {x : Outcome β} {f : β → Outcome γ} {E : Failure → Prop} {P : β → Prop} {Q : γ → Prop}

theorem ensures_of_ok {b : β} (h : x = .ok b) (hb : P b) : x.Ensures E P := h ▸ hb

theorem Ensures.of_error (h : x.Ensures E P) {e : Failure} (he : x = .error e) : E e := by
  rwa [he] at h

/-- What holds of a result wherever there is one. -/
theorem Ensures.of_eq_ok {P' : β → Prop} (h : x.Ensures E P) (hp : ∀ b, x = .ok b → P b → P' b) :
    x.Ensures E P' := by
  cases x with
  | ok b => exact hp b rfl h
  | error e => exact h

theorem Ensures.bind (h : x.Ensures E P) (hf : ∀ b, x = .ok b → P b → (f b).Ensures E Q) :
    Ensures (x >>= f) E Q := by
  cases x with
  | ok b => exact hf b rfl h
  | error e => exact h

/-- A loop goes from what holds of the entries before one to what holds of those
    up to it. -/
theorem ensures_foldlM {f : γ → δ → Outcome γ} {I : List δ → γ → Prop} {xs : List δ} {c : γ}
    (hi : I [] c) (round : ∀ done d rest c, xs = done ++ d :: rest → I done c →
      (f c d).Ensures E (I (done ++ [d]))) : Ensures (xs.foldlM f c) E (I xs) := by
  suffices h : ∀ rest done c, xs = done ++ rest → I done c →
      Ensures (rest.foldlM f c) E (I xs) from h xs [] c rfl hi
  intro rest
  induction rest with
  | nil =>
    intro done c hx hi
    rw [List.append_nil] at hx
    exact hx ▸ hi
  | cons d rest ih =>
    intro done c hx hi
    rw [List.foldlM_cons]
    exact (round done d rest c hx hi).bind fun c' _ hi' => ih (done ++ [d]) c' (by simp [hx]) hi'

end
end Outcome

/-- A loop whose steps all succeed and keep a property succeeds with it. -/
theorem exists_foldlM {γ δ : Type} {f : γ → δ → Outcome γ} {P : γ → Prop} {xs : List δ} {c : γ}
    (h : ∀ x ∈ xs, ∀ c, P c → ∃ d, f c x = .ok d ∧ P d) (hc : P c) :
    ∃ d, xs.foldlM f c = .ok d ∧ P d := by
  induction xs generalizing c with
  | nil => exact ⟨c, rfl, hc⟩
  | cons x xs ih =>
    obtain ⟨b, hb, hP⟩ := h x (by simp) c hc
    obtain ⟨d, hd, hQ⟩ := ih (fun y hy => h y (List.mem_cons_of_mem _ hy)) hP
    exact ⟨d, foldlM_cons_eq_ok.2 ⟨b, hb, hd⟩, hQ⟩

/-! ## Steps -/

namespace Step
variable {σ τ β γ δ : Type}

/-- The outcome of a step, and the state behind it. -/
def exec (s : Step σ β) (x : σ) : Outcome β × σ := s.run x

@[simp] theorem exec_pure (b : β) (x : σ) : exec (pure b) x = (.ok b, x) := rfl

@[simp] theorem exec_lift (o : Outcome β) (x : σ) : exec (liftM o : Step σ β) x = (o, x) := rfl

@[simp] theorem exec_get (x : σ) : exec (get : Step σ σ) x = (.ok x, x) := rfl

@[simp] theorem exec_set (x y : σ) : exec (set y : Step σ PUnit) x = (.ok ⟨⟩, y) := rfl

@[simp] theorem exec_modify (f : σ → σ) (x : σ) :
    exec (modify f : Step σ PUnit) x = (.ok ⟨⟩, f x) := rfl

theorem exec_bind (s : Step σ β) (f : β → Step σ γ) (x : σ) :
    (s >>= f).exec x = match s.exec x with
      | (.ok b, y) => (f b).exec y
      | (.error e, y) => (.error e, y) := by
  unfold exec
  change ((s >>= f) : Step σ γ) x = _
  simp only [bind, ExceptT.bind, ExceptT.mk, StateT.bind, ExceptT.run]
  rcases s x with ⟨_ | _, _⟩ <;> rfl

/-- A part that succeeds hands its result and its state on. -/
theorem exec_bind_ok {s : Step σ β} {f : β → Step σ γ} {x y : σ} {b : β}
    (h : s.exec x = (.ok b, y)) : (s >>= f).exec x = (f b).exec y := by rw [exec_bind, h]

/-- A part that fails ends the whole. -/
theorem exec_bind_error {s : Step σ β} {f : β → Step σ γ} {x y : σ} {e : Failure}
    (h : s.exec x = (.error e, y)) : (s >>= f).exec x = (.error e, y) := by rw [exec_bind, h]

@[simp] theorem exec_get_bind (f : σ → Step σ γ) (x : σ) : (get >>= f).exec x = (f x).exec x :=
  exec_bind_ok rfl

@[simp] theorem exec_lift_bind (o : Outcome β) (f : β → Step σ γ) (x : σ) :
    ((liftM o : Step σ β) >>= f).exec x = match o with
      | .ok b => (f b).exec x
      | .error e => (.error e, x) := by
  rw [exec_bind]; cases o <;> rfl

theorem exec_bind_eq_ok {s : Step σ β} {f : β → Step σ γ} {x z : σ} {c : γ} :
    (s >>= f).exec x = (.ok c, z) ↔ ∃ b y, s.exec x = (.ok b, y) ∧ (f b).exec y = (.ok c, z) := by
  rw [exec_bind]
  rcases s.exec x with ⟨_ | _, _⟩ <;> simp

theorem exec_lift_bind_eq_ok {o : Outcome β} {f : β → Step σ γ} {x z : σ} {c : γ} :
    ((liftM o : Step σ β) >>= f).exec x = (.ok c, z) ↔
      ∃ b, o = .ok b ∧ (f b).exec x = (.ok c, z) := by
  rw [exec_lift_bind]
  cases o <;> simp

theorem exec_lift_eq_ok {o : Outcome β} {x y : σ} {b : β} :
    exec (liftM o : Step σ β) x = (.ok b, y) ↔ o = .ok b ∧ x = y := by
  rw [exec_lift, Prod.mk.injEq]

theorem exec_pure_eq_ok {b c : β} {x y : σ} :
    exec (pure b : Step σ β) x = (.ok c, y) ↔ b = c ∧ x = y := by
  rw [exec_pure, Prod.mk.injEq, Except.ok.injEq]

theorem exec_map_eq_ok {s : Step σ β} {f : β → γ} {x y : σ} {c : γ} :
    (f <$> s).exec x = (.ok c, y) ↔ ∃ b, s.exec x = (.ok b, y) ∧ f b = c := by
  rw [← bind_pure_comp, exec_bind_eq_ok]
  simp

theorem exec_within_eq_ok {s : Step σ β} {c : Context} {x y : σ} {b : β} :
    (s.within c).exec x = (.ok b, y) ↔ s.exec x = (.ok b, y) := by
  have hexec : (s.within c).exec x =
      ((s.exec x).1.mapError (Failure.within c), (s.exec x).2) := rfl
  rw [hexec]
  rcases s.exec x with ⟨_ | _, _⟩ <;> simp [Except.mapError]

theorem exec_on_eq_ok {s : Step σ β} {part : τ → σ} {replace : τ → σ → τ} {z z' : τ} {b : β} :
    (s.on part replace).exec z = (.ok b, z') ↔
      ∃ y, s.exec (part z) = (.ok b, y) ∧ z' = replace z y := by
  have hexec : (s.on part replace).exec z =
      ((s.exec (part z)).1, replace z (s.exec (part z)).2) := rfl
  rw [hexec]
  rcases s.exec (part z) with ⟨_ | _, _⟩ <;> simp [eq_comm]

/-! ### Specifications -/

/-- What holds of the failure of a step, or of its result and the state behind
    it. -/
def Ensures (s : Step σ β) (x : σ) (E : Failure → Prop) (Q : β → σ → Prop) : Prop :=
  match s.exec x with
  | (.ok b, y) => Q b y
  | (.error e, _) => E e

section
variable {s : Step σ β} {f : β → Step σ γ} {x y : σ} {E : Failure → Prop} {P Q : β → σ → Prop}
  {R : γ → σ → Prop}

theorem Ensures.of_ok (h : s.Ensures x E Q) {b : β} (he : s.exec x = (.ok b, y)) : Q b y := by
  rwa [Ensures, he] at h

theorem Ensures.of_error (h : s.Ensures x E Q) {e : Failure} (he : s.exec x = (.error e, y)) :
    E e := by
  rwa [Ensures, he] at h

/-- What holds of a step wherever it succeeds. -/
theorem ensures_of_eq_ok (h : ∀ b y, s.exec x = (.ok b, y) → Q b y) :
    s.Ensures x (fun _ => True) Q := by
  rcases he : s.exec x with ⟨_ | b, y⟩
  · rw [Ensures, he]
    trivial
  · rw [Ensures, he]
    exact h b y he

theorem ensures_pure {b : β} (h : Q b x) : (pure b : Step σ β).Ensures x E Q := h

theorem ensures_lift {o : Outcome β} (he : ∀ e, o = .error e → E e) (hq : ∀ b, o = .ok b → Q b x) :
    (liftM o : Step σ β).Ensures x E Q := by
  cases o with
  | ok b => exact hq b rfl
  | error e => exact he e rfl

theorem ensures_of_exec {b : β} (h : s.exec x = (.ok b, y)) (hq : Q b y) : s.Ensures x E Q := by
  rwa [Ensures, h]

theorem Ensures.mono {E' : Failure → Prop} (h : s.Ensures x E P) (he : ∀ e, E e → E' e)
    (hq : ∀ b y, P b y → Q b y) : s.Ensures x E' Q := by
  unfold Ensures at h ⊢
  split at h
  · exact hq _ _ h
  · exact he _ h

theorem Ensures.imp (h : s.Ensures x E P) (hq : ∀ b y, P b y → Q b y) : s.Ensures x E Q :=
  h.mono (fun _ he => he) hq

/-- A step on a part of the state. -/
theorem ensures_on {part : τ → σ} {replace : τ → σ → τ} {z : τ} {R : β → τ → Prop}
    (h : s.Ensures (part z) E fun b y => R b (replace z y)) :
    (s.on part replace).Ensures z E R := by
  have hexec : (s.on part replace).exec z =
      ((s.exec (part z)).1, replace z (s.exec (part z)).2) := rfl
  rw [Ensures, hexec]
  rcases hs : s.exec (part z) with ⟨e | b, y⟩
  · exact h.of_error hs
  · exact h.of_ok hs

theorem Ensures.bind (h : s.Ensures x E P) (hf : ∀ b y, P b y → (f b).Ensures y E R) :
    (s >>= f).Ensures x E R := by
  unfold Ensures at h
  split at h
  case h_1 b y he => rw [Ensures, exec_bind_ok he]; exact hf b y h
  case h_2 e y he => rw [Ensures, exec_bind_error he]; exact h

/-- A part whose outcome is known. -/
theorem ensures_exec_bind {b : β} (h : s.exec x = (.ok b, y)) (hf : (f b).Ensures y E R) :
    (s >>= f).Ensures x E R := by
  rwa [Ensures, exec_bind_ok h]

theorem ensures_get_bind {f : σ → Step σ γ} (h : (f x).Ensures x E R) :
    (get >>= f).Ensures x E R := by
  rwa [Ensures, exec_get_bind]

theorem ensures_lift_bind {o : Outcome β} (he : ∀ e, o = .error e → E e)
    (hf : ∀ b, o = .ok b → (f b).Ensures x E R) : (liftM o >>= f).Ensures x E R := by
  cases o with
  | ok b => rw [Ensures, exec_lift_bind]; exact hf b rfl
  | error e => rw [Ensures, exec_lift_bind]; exact he e rfl

theorem Ensures.within {c : Context} (h : s.Ensures x E Q) (he : ∀ e, E e → E (e.within c)) :
    (s.within c).Ensures x E Q := by
  have hexec : (s.within c).exec x =
      ((s.exec x).1.mapError (Failure.within c), (s.exec x).2) := rfl
  rw [Ensures, hexec]
  rcases hs : s.exec x with ⟨e | b, y⟩
  · exact he e (h.of_error hs)
  · exact h.of_ok hs

/-- A loop without exits keeps what each of its rounds takes from the entries
    before it to those up to it. -/
theorem ensures_forIn {f : δ → γ → Step σ (ForInStep γ)} {I : List δ → γ → σ → Prop} {xs : List δ}
    {c : γ} (hi : I [] c x)
    (round : ∀ done d rest c y, xs = done ++ d :: rest → I done c y →
      (f d c).Ensures y E fun r y' => ∃ c', r = .yield c' ∧ I (done ++ [d]) c' y') :
    (forIn xs c f).Ensures x E (I xs) := by
  suffices h : ∀ rest done c y, xs = done ++ rest → I done c y →
      (forIn rest c f).Ensures y E (I xs) from h xs [] c x rfl hi
  intro rest
  induction rest with
  | nil =>
    intro done c y hx hi
    rw [List.append_nil] at hx
    exact ensures_pure (hx ▸ hi)
  | cons d rest ih =>
    intro done c y hx hi
    rw [List.forIn_cons]
    refine (round done d rest c y hx hi).bind ?_
    rintro _ y' ⟨c', rfl, hi'⟩
    exact ih (done ++ [d]) c' y' (by simp [hx]) hi'

/-- A loop over a list without a result. -/
theorem ensures_forM {f : δ → Step σ PUnit} {I : List δ → σ → Prop} {xs : List δ} (hi : I [] x)
    (round : ∀ done d rest y, xs = done ++ d :: rest → I done y →
      (f d).Ensures y E fun _ y' => I (done ++ [d]) y') :
    (xs.forM f).Ensures x E fun _ => I xs := by
  suffices h : ∀ rest done y, xs = done ++ rest → I done y →
      (rest.forM f).Ensures y E fun _ => I xs from h xs [] x rfl hi
  intro rest
  induction rest with
  | nil =>
    intro done y hx hi
    rw [List.append_nil] at hx
    exact ensures_pure (hx ▸ hi)
  | cons d rest ih =>
    intro done y hx hi
    change (f d >>= fun _ => rest.forM f).Ensures y E _
    exact (round done d rest y hx hi).bind fun _ y' hi' => ih (done ++ [d]) y' (by simp [hx]) hi'

/-- What every round of a loop takes on, if it succeeds, holds behind the
    loop. -/
theorem forIn_keeps {f : δ → γ → Step σ (ForInStep γ)} {I : List δ → γ → σ → Prop} {xs : List δ}
    {c c' : γ} (h : (forIn xs c f).exec x = (.ok c', y)) (hi : I [] c x)
    (round : ∀ done d rest c z r z', xs = done ++ d :: rest → I done c z →
      (f d c).exec z = (.ok r, z') → ∃ c', r = .yield c' ∧ I (done ++ [d]) c' z') :
    I xs c' y :=
  (ensures_forIn hi fun done d rest c z hx hz =>
    ensures_of_eq_ok fun r z' hr => round done d rest c z r z' hx hz hr).of_ok h

theorem forM_keeps {f : δ → Step σ PUnit} {I : List δ → σ → Prop} {xs : List δ} {u : PUnit}
    (h : (xs.forM f).exec x = (.ok u, y)) (hi : I [] x)
    (round : ∀ done d rest z z', xs = done ++ d :: rest → I done z →
      (f d).exec z = (.ok ⟨⟩, z') → I (done ++ [d]) z') : I xs y :=
  (ensures_forM hi fun done d rest z hx hz =>
    ensures_of_eq_ok fun _ z' hr => round done d rest z z' hx hz hr).of_ok h

end

end Step

end Neuroform

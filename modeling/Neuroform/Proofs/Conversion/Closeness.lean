/-
  Neuroform — what a comparison of outputs decides.

  On comparable numbers a network is accepted if and only if all its outputs
  agree with those of the model, value by value.  Otherwise the refusal is about
  the first output that does not agree; if its values are as many as expected,
  it names the largest of the differences that are not within the tolerance, and
  of no others (`Graph.verify_decides_closeness`).
-/
import Neuroform.Conversion.Verify
import Neuroform.Proofs.Extended
import Neuroform.Proofs.Graph.Reachable

namespace Neuroform

/-! ## Loops that stop at an error -/

/-- A loop succeeds at all entries, or stops at the first one that fails. -/
theorem forM_stops {ε β : Type} {f : β → Except ε Unit} : ∀ xs : List β,
    (xs.forM f = .ok () ∧ ∀ x ∈ xs, f x = .ok ()) ∨
      ∃ (i : Nat) (x : β) (e : ε), xs[i]? = some x ∧
        (∀ j < i, ∀ y, xs[j]? = some y → f y = .ok ()) ∧ f x = .error e ∧ xs.forM f = .error e
  | [] => .inl ⟨rfl, by simp⟩
  | x :: xs => by
    have hcons : (x :: xs).forM f = (do f x; xs.forM f) := rfl
    rw [hcons]
    cases hx : f x with
    | error e => exact .inr ⟨0, x, e, rfl, by simp, hx, rfl⟩
    | ok =>
      rcases forM_stops xs with ⟨hall, hok⟩ | ⟨i, y, e, hy, hbefore, he, hfails⟩
      · exact .inl ⟨hall, by simpa [hx] using hok⟩
      · refine .inr ⟨i + 1, y, e, hy, fun j hj z hz => ?_, he, hfails⟩
        cases j with
        | zero =>
          obtain rfl := Option.some.inj hz
          exact hx
        | succ j => exact hbefore j (Nat.lt_of_succ_lt_succ hj) z hz

variable {α : Type} [Scalar α]

/-! ## Values -/

namespace Tolerance

variable {t : Tolerance α} {xs ys : List α} {d : α}

/-- A value is close to another one. -/
def Close (t : Tolerance α) (x y : α) : Prop :=
  magnitude (x - y) ≤ t.absolute + t.relative * magnitude y

/-- The difference of two values that stand at one place and are not close. -/
def Fails (t : Tolerance α) (xs ys : List α) (d : α) : Prop :=
  ∃ (k : Nat) (x y : α), xs[k]? = some x ∧ ys[k]? = some y ∧ ¬t.Close x y ∧ d = magnitude (x - y)

/-- The largest of the differences of values that are not close: no number if
    one of them is none. -/
structure Largest (t : Tolerance α) (xs ys : List α) (d : α) : Prop where
  nan : ∀ f, t.Fails xs ys f → isNaN f = true → isNaN d = true
  attained : (∀ f, t.Fails xs ys f → isNaN f = false) → ∃ f, t.Fails xs ys f ∧ (d == f) = true
  greatest : (∀ f, t.Fails xs ys f → isNaN f = false) → ∀ f, t.Fails xs ys f → f ≤ d

/-- What is no number is close to nothing, and nothing is close to it. -/
theorem not_close_of_nan (h : Comparable α) {x y : α}
    (hnan : (isNaN x || isNaN y || isNaN t.absolute || isNaN t.relative) = true) :
    ¬t.Close x y := by
  refine h.not_le_of_nan ?_
  rw [Bool.or_eq_true]
  simp only [Bool.or_eq_true] at hnan
  obtain ((hx | hy) | ha) | hr := hnan
  · exact .inl (h.nan_magnitude (h.nan_sub _ _ (by simp [hx])))
  · exact .inl (h.nan_magnitude (h.nan_sub _ _ (by simp [hy])))
  · exact .inr (h.nan_add _ _ (by simp [ha]))
  · refine .inr (h.nan_add _ _ ?_)
    simp [h.nan_mul t.relative (magnitude y) (by simp [hr])]

theorem mem_failing : d ∈ t.failing xs ys ↔ t.Fails xs ys d := by
  simp only [failing, List.mem_map, List.mem_filter, Prod.exists]
  constructor
  · rintro ⟨x, y, ⟨hmem, hfar⟩, rfl⟩
    obtain ⟨k, hk⟩ := List.mem_iff_getElem?.1 hmem
    obtain ⟨hx, hy⟩ := List.getElem?_zip_eq_some.1 hk
    exact ⟨k, x, y, hx, hy, by simpa [close, Close] using hfar, rfl⟩
  · rintro ⟨k, x, y, hx, hy, hfar, rfl⟩
    have hmem : (x, y) ∈ xs.zip ys :=
      List.mem_of_getElem? (List.getElem?_zip_eq_some.2 ⟨hx, hy⟩)
    exact ⟨x, y, ⟨hmem, by simpa [close, Close] using hfar⟩, rfl⟩

theorem failing_eq_nil (hl : xs.length = ys.length) :
    t.failing xs ys = [] ↔ List.Forall₂ t.Close xs ys := by
  rw [List.eq_nil_iff_forall_not_mem]
  constructor
  · intro hnone
    refine forall₂_of_getElem? hl fun k x y hx hy => ?_
    by_contra hfar
    exact hnone _ (mem_failing.2 ⟨k, x, y, hx, hy, hfar, rfl⟩)
  · intro hclose d hd
    obtain ⟨k, x, y, hx, hy, hfar, -⟩ := mem_failing.1 hd
    obtain ⟨y', hy', hxy⟩ := forall₂_getElem? hclose hx
    obtain rfl := Option.some.inj (hy.symm.trans hy')
    exact hfar hxy

end Tolerance

/-! ## The largest difference -/

/-- What one more difference makes of the largest one. -/
def worse (largest d : α) : α :=
  if isNaN largest then largest else if isNaN d then d else larger largest d

/-- What is no number stays, from wherever it comes. -/
theorem nan_foldl_worse {ds : List α} {start : α}
    (hnan : isNaN start = true ∨ ∃ d ∈ ds, isNaN d = true) :
    isNaN (ds.foldl worse start) = true := by
  induction ds generalizing start with
  | nil => simpa using hnan
  | cons d ds ih =>
    rw [List.foldl_cons]
    refine ih ?_
    by_cases hstart : isNaN start = true
    · simp [worse, hstart]
    · by_cases hd : isNaN d = true
      · simp [worse, hstart, hd]
      · refine .inr ?_
        simpa [hstart, hd] using hnan

/-- Among numbers the largest one is found. -/
theorem foldl_worse (h : Comparable α) {ds : List α} {start : α} (hstart : isNaN start = false)
    (hds : ∀ d ∈ ds, isNaN d = false) :
    (ds.foldl worse start = start ∨ ds.foldl worse start ∈ ds) ∧ start ≤ ds.foldl worse start ∧
      ∀ d ∈ ds, d ≤ ds.foldl worse start := by
  induction ds generalizing start with
  | nil => exact ⟨.inl rfl, h.le_refl hstart, by simp⟩
  | cons d ds ih =>
    obtain ⟨hd, hds⟩ := List.forall_mem_cons.1 hds
    have hstep : worse start d = larger start d := by simp [worse, hstart, hd]
    obtain ⟨hone, hfirst, hsecond⟩ := h.larger_spec hstart hd
    obtain ⟨-, hnumber⟩ := h.number_of_le _ _ hfirst
    obtain ⟨hfound, habove, hall⟩ := ih hnumber hds
    rw [List.foldl_cons, hstep]
    refine ⟨?_, h.le_trans _ _ _ hfirst habove, List.forall_mem_cons.2
      ⟨h.le_trans _ _ _ hsecond habove, hall⟩⟩
    rcases hfound with hfound | hfound
    · rw [hfound]
      exact hone.imp id fun heq => by simp [heq]
    · exact .inr (List.mem_cons_of_mem _ hfound)

/-- **The largest difference** is one of those that are not within the
    tolerance, though the search starts at zero. -/
theorem Tolerance.largest_failing (h : Comparable α) {t : Tolerance α} {xs ys : List α}
    (hsome : t.failing xs ys ≠ []) : t.Largest xs ys (largestDifference (t.failing xs ys)) := by
  have hfold : largestDifference (t.failing xs ys) = (t.failing xs ys).foldl worse 0 := rfl
  rw [hfold]
  have hnumbers : (∀ f, t.Fails xs ys f → isNaN f = false) →
      ∀ d ∈ t.failing xs ys, isNaN d = false := fun hf d hd => hf d (mem_failing.1 hd)
  refine ⟨fun f hf hnan => ?_, fun hf => ?_, fun hf f hfails => ?_⟩
  · exact nan_foldl_worse (.inr ⟨f, mem_failing.2 hf, hnan⟩)
  · obtain ⟨hfound, -, hall⟩ := foldl_worse h h.number_zero (hnumbers hf)
    obtain ⟨d, hd⟩ := List.exists_mem_of_ne_nil _ hsome
    obtain ⟨k, x, y, -, -, -, rfl⟩ := mem_failing.1 hd
    rcases hfound with hzero | hmem
    · -- nothing is above zero, and no difference is below
      refine ⟨_, mem_failing.1 hd, (h.beq_iff _ _).2 ⟨?_, hall _ hd⟩⟩
      rw [hzero]
      exact h.magnitude_nonneg (hnumbers hf _ hd)
    · have hrefl := h.le_refl (hnumbers hf _ hmem)
      exact ⟨_, mem_failing.1 hmem, (h.beq_iff _ _).2 ⟨hrefl, hrefl⟩⟩
  · obtain ⟨-, -, hall⟩ := foldl_worse h h.number_zero (hnumbers hf)
    exact hall f (mem_failing.2 hfails)

/-! ## Outputs -/

namespace Tolerance

variable {t : Tolerance α} {xs ys : List α} {i : Nat} {expected actual : List (Grid α)}

/-- Two outputs have equally many values, and each is close to its
    counterpart. -/
def Agree (t : Tolerance α) (e a : Grid α) : Prop := List.Forall₂ t.Close e.toList a.toList

/-- The first of some outputs that does not agree with its counterpart. -/
structure Offends (t : Tolerance α) (expected actual : List (Grid α)) (i : Nat) (e a : Grid α) :
    Prop where
  source : expected[i]? = some e
  target : actual[i]? = some a
  disagree : ¬t.Agree e a
  least : ∀ j < i, ∀ e' a', expected[j]? = some e' → actual[j]? = some a' → t.Agree e' a'

theorem compareValues_eq_ok :
    t.compareValues i xs ys = .ok () ↔ List.Forall₂ t.Close xs ys := by
  unfold compareValues
  by_cases hl : xs.length = ys.length
  · rw [if_neg (not_not_intro hl), ← failing_eq_nil hl]
    cases t.failing xs ys <;> simp
  · rw [if_pos hl]
    exact iff_of_false nofun fun hclose => hl hclose.length_eq

theorem compareValues_eq_error (hl : xs.length ≠ ys.length) :
    t.compareValues i xs ys = .error (.valueCount i xs.length ys.length) := if_pos hl

theorem compareValues_eq_largest (h : Comparable α) (hl : xs.length = ys.length)
    (hfar : ¬List.Forall₂ t.Close xs ys) :
    ∃ d, t.compareValues i xs ys = .error (.values i d) ∧ t.Largest xs ys d := by
  rw [← failing_eq_nil hl] at hfar
  refine ⟨_, ?_, largest_failing h hfar⟩
  unfold compareValues
  rw [if_neg (not_not_intro hl)]
  cases hfailing : t.failing xs ys with
  | nil => exact absurd hfailing hfar
  | cons d ds => rfl

omit [Scalar α] in
theorem getElem?_outputs {e a : Grid α} {j k : Nat} :
    (expected.zip actual).zipIdx[j]? = some ((e, a), k) ↔
      expected[j]? = some e ∧ actual[j]? = some a ∧ k = j := by
  rw [List.getElem?_zipIdx, Option.map_eq_some_iff]
  constructor
  · rintro ⟨p, hp, heq⟩
    cases heq
    obtain ⟨he, ha⟩ := List.getElem?_zip_eq_some.1 hp
    exact ⟨he, ha, by simp⟩
  · rintro ⟨he, ha, rfl⟩
    exact ⟨(e, a), List.getElem?_zip_eq_some.2 ⟨he, ha⟩, by simp⟩

/-- **Comparing outputs** either finds all of them agreeing, or stops at the
    first one that does not. -/
theorem compare_cases (hl : expected.length = actual.length) :
    (t.compare expected actual = .ok () ∧ List.Forall₂ t.Agree expected actual) ∨
      ∃ i e a, t.Offends expected actual i e a ∧
        t.compare expected actual = t.compareValues i e.toList a.toList := by
  have hloop : t.compare expected actual = (expected.zip actual).zipIdx.forM fun p =>
      t.compareValues p.2 p.1.1.toList p.1.2.toList := if_neg (not_not_intro hl)
  rw [hloop]
  obtain ⟨hok, hall⟩ | ⟨i, ⟨⟨e, a⟩, k⟩, m, hi, hbefore, hm, herror⟩ := forM_stops
    (f := fun p : (Grid α × Grid α) × Nat => t.compareValues p.2 p.1.1.toList p.1.2.toList)
    (expected.zip actual).zipIdx
  · refine .inl ⟨hok, forall₂_of_getElem? hl fun j e a he ha => ?_⟩
    exact compareValues_eq_ok.1
      (hall _ (List.mem_of_getElem? (getElem?_outputs.2 ⟨he, ha, rfl⟩)))
  · obtain ⟨he, ha, rfl⟩ := getElem?_outputs.1 hi
    refine .inr ⟨k, e, a, ⟨he, ha, fun hagree => ?_, fun j hj e' a' he' ha' => ?_⟩,
      herror.trans hm.symm⟩
    · cases hm.symm.trans (compareValues_eq_ok.2 hagree)
    · exact compareValues_eq_ok.1 (hbefore j hj _ (getElem?_outputs.2 ⟨he', ha', rfl⟩))

end Tolerance

/-! ## Verification -/

/-- Inputs that are given with a batch axis are taken as they are. -/
theorem VerifyOptions.batch_of_inputs {o : VerifyOptions α} {inputs : List (Grid α)}
    (h : o.inputs = some inputs) (hrank : ∀ x ∈ inputs, 0 < x.rank) (g : Graph α) (m : ModelDef) :
    ∃ batch, o.batch g m = .ok (inputs, batch) := by
  have hall : inputs.all (0 < ·.rank) = true := by simpa using hrank
  refine ⟨(inputs.head?.bind (·.shape.head?)).getD o.batchSize, ?_⟩
  simp [batch, h, require, hall, bind, Except.bind, pure, Except.pure]

/-- **Closeness is decided exactly.**  On comparable numbers, and without
    training, the outputs that both sides predict for inputs with a batch axis
    are accepted if and only if they agree.  Otherwise the verdict is about the
    number of outputs or about the first output that does not agree: that it has
    too few or too many values, or the largest of its differences that are not
    within the tolerance. -/
theorem Graph.verify_decides_closeness (h : Comparable α) {σ : Type} {g : Graph α} {l : LayerId}
    {m : ModelDef} {source target : Runner σ α} {o : VerifyOptions α}
    {inputs expected actual : List (Grid α)} {batch : Nat} {st st₁ st₂ : σ}
    (hm : g.modelDef l = .ok m) (ht : o.training = false) (hi : o.batch g m = .ok (inputs, batch))
    (hs : (source.predict inputs).exec st = (.ok expected, st₁))
    (hn : (target.predict inputs).exec st₁ = (.ok actual, st₂)) :
    ∃ verdict : Except (Mismatch α) Unit,
      (g.verify l source target o).exec st =
        (verdict.mapError fun m => .refused [] m.cause, st₂) ∧
      (verdict = .ok () ↔ List.Forall₂ o.tolerance.Agree expected actual) ∧
      (expected.length ≠ actual.length →
        verdict = .error (.outputCount expected.length actual.length)) ∧
      (expected.length = actual.length → verdict ≠ .ok () →
        ∃ i e a, o.tolerance.Offends expected actual i e a ∧
          (e.toList.length ≠ a.toList.length →
            verdict = .error (.valueCount i e.toList.length a.toList.length)) ∧
          (e.toList.length = a.toList.length → ∃ d, verdict = .error (.values i d) ∧
            o.tolerance.Largest e.toList a.toList d)) ∧
      ∀ x y : α, (isNaN x || isNaN y || isNaN o.tolerance.absolute ||
        isNaN o.tolerance.relative) = true → ¬o.tolerance.Close x y := by
  refine ⟨o.tolerance.compare expected actual, ?_, ?_, fun hl => if_pos hl, fun hl hne => ?_,
    fun x y => Tolerance.not_close_of_nan h⟩
  · rw [Graph.verify, Step.exec_lift_bind, hm]
    dsimp only
    rw [Step.exec_lift_bind, hi]
    dsimp only
    rw [ht, if_neg Bool.false_ne_true]
    exact (Step.exec_bind_ok hs).trans ((Step.exec_bind_ok hn).trans rfl)
  · by_cases hl : expected.length = actual.length
    · obtain ⟨hok, hagree⟩ | ⟨i, e, a, hoffends, hcompare⟩ := Tolerance.compare_cases hl
      · exact iff_of_true hok hagree
      · rw [hcompare, Tolerance.compareValues_eq_ok]
        refine iff_of_false hoffends.disagree fun hagree => hoffends.disagree ?_
        obtain ⟨a', ha', hclose⟩ := forall₂_getElem? hagree hoffends.source
        obtain rfl := Option.some.inj (hoffends.target.symm.trans ha')
        exact hclose
    · refine iff_of_false ?_ fun hagree => hl hagree.length_eq
      rw [Tolerance.compare, if_pos hl]
      exact nofun
  · obtain ⟨hok, -⟩ | ⟨i, e, a, hoffends, hcompare⟩ := Tolerance.compare_cases hl
    · exact absurd hok hne
    · refine ⟨i, e, a, hoffends, fun hvalues => ?_, fun hvalues => ?_⟩
      · exact hcompare.trans (Tolerance.compareValues_eq_error hvalues)
      · rw [hcompare]
        exact Tolerance.compareValues_eq_largest h hvalues hoffends.disagree

/-- A side of a comparison that always predicts the same. -/
def Runner.always (outputs : List (Grid α)) : Runner Unit α :=
  ⟨fun _ => pure outputs, cannotTrain, pure 0⟩

namespace Graph

/-- A model that hands on its input, twice. -/
def handsOn : List (BuildStep Extended) := [.input "x" [1], .model "m" [⟨0⟩] [⟨0⟩, ⟨0⟩]]

/-- A comparison that tolerates a tenth of the second value. -/
def loosely : VerifyOptions Extended :=
  ⟨false, some [⟨[1, 1], #[1], rfl⟩], ⟨.finite (1 / 100), .finite (1 / 10)⟩, 1, 1⟩

/-- Two outputs of a model, and those of a network.  In the second one the first
    value is within the tolerance, although it differs most. -/
def wanted : List (Grid Extended) := [⟨[1, 1], #[1], rfl⟩, ⟨[1, 2], #[.finite 100, 0], rfl⟩]

@[inherit_doc wanted]
def found : List (Grid Extended) :=
  [⟨[1, 1], #[1], rfl⟩, ⟨[1, 2], #[.finite 109, .finite (1 / 2)], rfl⟩]

/-- The second value of the second output is reported. -/
theorem verify_decides_closeness_loosely :
    ((build handsOn).verify ⟨1⟩ (.always wanted) (.always found) loosely).exec () =
      (.error (.refused [] (.conversion (.verificationMismatch 1 "1/2"))), ()) ∧
    ∃ i e a d, loosely.tolerance.Offends wanted found i e a ∧
      loosely.tolerance.Largest e.toList a.toList d ∧
      ((build handsOn).verify ⟨1⟩ (.always wanted) (.always found) loosely).exec () =
        (.error (.refused [] (Mismatch.values i d).cause), ()) := by
  have hrun : ((build handsOn).verify ⟨1⟩ (.always wanted) (.always found) loosely).exec () =
      (.error (.refused [] (.conversion (.verificationMismatch 1 "1/2"))), ()) := by cbv
  have hm : (build handsOn).modelDef ⟨1⟩ = .ok ⟨[⟨0⟩], [⟨0⟩, ⟨0⟩], [⟨0⟩], false⟩ := by cbv
  have hs : ((Runner.always wanted).predict [⟨[1, 1], #[1], rfl⟩]).exec () = (.ok wanted, ()) := rfl
  have hn : ((Runner.always found).predict [⟨[1, 1], #[1], rfl⟩]).exec () = (.ok found, ()) := rfl
  have hsizes : ∀ (i : Nat) (e a : Grid Extended), wanted[i]? = some e → found[i]? = some a →
      e.toList.length = a.toList.length := by
    rintro (_ | _ | i) e a he ha
    · cases he
      cases ha
      rfl
    · cases he
      cases ha
      rfl
    · cases he
  obtain ⟨batch, hi⟩ := VerifyOptions.batch_of_inputs (o := loosely) rfl (by decide)
    (build handsOn) ⟨[⟨0⟩], [⟨0⟩, ⟨0⟩], [⟨0⟩], false⟩
  obtain ⟨verdict, hverdict, -, -, herror, -⟩ :=
    verify_decides_closeness Extended.comparable hm rfl hi hs hn
  have hne : verdict ≠ .ok () := by
    rintro rfl
    cases hrun.symm.trans hverdict
  obtain ⟨i, e, a, hoffends, -, hvalues⟩ := herror rfl hne
  obtain ⟨d, rfl, hlargest⟩ := hvalues (hsizes i e a hoffends.source hoffends.target)
  exact ⟨hrun, i, e, a, d, hoffends, hlargest, hverdict⟩

end Graph
end Neuroform

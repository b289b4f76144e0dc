/-
  Neuroform — names bound to values in turn.

  Names are bound by putting `(names.zip values).reverse` in front of a list,
  where the last binding of a name is found first.
-/
import Mathlib

namespace Neuroform

variable {κ ν : Type} [DecidableEq κ] {names : List κ} {values : List ν} {k : κ} {v : ν}
  {l rest : List (κ × ν)}

theorem mem_of_lookup (h : l.lookup k = some v) : (k, v) ∈ l := by
  obtain ⟨l₁, l₂, rfl, -⟩ := List.lookup_eq_some_iff.1 h
  simp

theorem exists_lookup_of_mem (h : (k, v) ∈ l) : ∃ w, l.lookup k = some w :=
  Option.isSome_iff_exists.1 (List.lookup_isSome_iff.2 ⟨_, h, by simp⟩)

theorem lookup_eq_none_of_fst (h : ∀ e ∈ l, e.1 ≠ k) : l.lookup k = none :=
  List.lookup_eq_none_iff.2 fun e he => by simpa using (h e he).symm

/-- A list in which no other value goes with a name has that value of it. -/
theorem lookup_of_mem (h : (k, v) ∈ l) (only : ∀ w, (k, w) ∈ l → w = v) : l.lookup k = some v := by
  obtain ⟨w, hw⟩ := exists_lookup_of_mem h
  rw [hw, only w (mem_of_lookup hw)]

/-- Values that are changed, each by itself. -/
theorem lookup_map_snd {ν' : Type} (f : ν → ν') :
    (l.map fun e => (e.1, f e.2)).lookup k = (l.lookup k).map f := by
  induction l with
  | nil => rfl
  | cons e l ih =>
    rw [List.map_cons, List.lookup_cons, List.lookup_cons, ih]
    split <;> rfl

omit [DecidableEq κ] in
theorem mem_zip_reverse : (k, v) ∈ (names.zip values).reverse ↔
    ∃ n : Nat, names[n]? = some k ∧ values[n]? = some v := by
  rw [List.mem_reverse, List.mem_iff_getElem?]
  simp [List.getElem?_zip_eq_some]

theorem getElem?_of_lookup_zip (h : (names.zip values).reverse.lookup k = some v) :
    ∃ n : Nat, names[n]? = some k ∧ values[n]? = some v := mem_zip_reverse.1 (mem_of_lookup h)

theorem lookup_zip_of_notMem (h : k ∉ names) : (names.zip values).reverse.lookup k = none := by
  refine lookup_eq_none_of_fst ?_
  rintro ⟨k', v⟩ he rfl
  exact h (List.of_mem_zip (List.mem_reverse.1 he)).1

theorem exists_lookup_zip (hl : names.length = values.length) (h : k ∈ names) :
    ∃ v, (names.zip values).reverse.lookup k = some v := by
  obtain ⟨n, hn⟩ := List.mem_iff_getElem?.1 h
  have hlt := (List.getElem?_eq_some_iff.1 hn).1
  exact exists_lookup_of_mem
    (mem_zip_reverse.2 ⟨n, hn, List.getElem?_eq_getElem (by omega : n < values.length)⟩)

/-- Different names are each bound to their own value. -/
theorem lookup_zip_of_nodup (hd : names.Nodup) {n : Nat} (hk : names[n]? = some k)
    (hv : values[n]? = some v) : (names.zip values).reverse.lookup k = some v := by
  refine lookup_of_mem (mem_zip_reverse.2 ⟨n, hk, hv⟩) fun w hw => ?_
  obtain ⟨n', hk', hw⟩ := mem_zip_reverse.1 hw
  have hlt := (List.getElem?_eq_some_iff.1 hk').1
  obtain rfl : n' = n := (List.getElem?_inj hlt hd).1 (hk'.trans hk.symm)
  exact Option.some.inj (hw.symm.trans hv)

theorem lookup_bind_of_notMem (h : k ∉ names) :
    ((names.zip values).reverse ++ rest).lookup k = rest.lookup k := by
  simp [List.lookup_append, lookup_zip_of_notMem h]

/-- Once different names are bound, each of them has its value. -/
theorem forall₂_lookup_bind (hd : names.Nodup) (hl : names.length = values.length) :
    List.Forall₂ (fun k v => ((names.zip values).reverse ++ rest).lookup k = some v)
      names values := by
  rw [List.forall₂_iff_get]
  refine ⟨hl, fun n hn hn' => ?_⟩
  have hk : names[n]? = some (names.get ⟨n, hn⟩) := List.getElem?_eq_getElem hn
  have hv : values[n]? = some (values.get ⟨n, hn'⟩) := List.getElem?_eq_getElem hn'
  rw [List.lookup_append, lookup_zip_of_nodup hd hk hv]
  rfl

theorem lookup_bind_eq_some
    (h : ((names.zip values).reverse ++ rest).lookup k = some v) :
    (∃ n : Nat, names[n]? = some k ∧ values[n]? = some v) ∨ rest.lookup k = some v := by
  rw [List.lookup_append] at h
  cases hk : (names.zip values).reverse.lookup k with
  | none => rw [hk] at h; exact .inr h
  | some w =>
    rw [hk] at h
    obtain rfl := Option.some.inj h
    exact .inl (getElem?_of_lookup_zip hk)

/-- Names bound to changed values. -/
theorem lookup_zip_map {ν' : Type} (f : ν → ν') :
    (names.zip (values.map f)).reverse.lookup k =
      ((names.zip values).reverse.lookup k).map f := by
  rw [List.zip_map_right, ← List.map_reverse]
  exact lookup_map_snd f

/-- One name bound to values that are related. -/
theorem lookup_zip_of_forall₂ {ν' : Type} {values' : List ν'} {R : ν → ν' → Prop}
    (h : List.Forall₂ R values values') {v : ν} {v' : ν'}
    (hv : (names.zip values).reverse.lookup k = some v)
    (hv' : (names.zip values').reverse.lookup k = some v') : R v v' := by
  have hfst : (values.zip values').map Prod.fst = values := List.map_fst_zip h.length_eq.le
  have hsnd : (values.zip values').map Prod.snd = values' := List.map_snd_zip h.length_eq.ge
  rw [← hfst, lookup_zip_map, Option.map_eq_some_iff] at hv
  rw [← hsnd, lookup_zip_map, Option.map_eq_some_iff] at hv'
  obtain ⟨e, he, rfl⟩ := hv
  obtain ⟨e', he', rfl⟩ := hv'
  obtain rfl := Option.some.inj (he.symm.trans he')
  obtain ⟨n, -, hn⟩ := getElem?_of_lookup_zip he
  exact (List.forall₂_iff_zip.1 h).2 (List.mem_of_getElem? hn)

/-- Different names stand for different ones. -/
theorem lookup_map_zip {κ' : Type} [DecidableEq κ'] (f : κ → κ')
    (hf : ∀ k' ∈ names, f k' = f k → k' = k) :
    ((names.map f).zip values).reverse.lookup (f k) = (names.zip values).reverse.lookup k := by
  have hmap : ∀ l : List (κ × ν), (∀ e ∈ l, f e.1 = f k → e.1 = k) →
      (l.map (Prod.map f id)).lookup (f k) = l.lookup k := by
    intro l h
    induction l with
    | nil => rfl
    | cons e l ih =>
      have hbeq : (f k == f e.1) = (k == e.1) := by
        rw [Bool.eq_iff_iff, beq_iff_eq, beq_iff_eq]
        exact ⟨fun heq => (h e (by simp) heq.symm).symm, congrArg f⟩
      rw [List.map_cons, List.lookup_cons, List.lookup_cons, ih fun e' he' => h e' (by simp [he'])]
      simp only [Prod.map_fst, id_eq, Prod.map_snd, hbeq]
  rw [List.zip_map_left, ← List.map_reverse]
  refine hmap _ ?_
  rintro ⟨k', v⟩ he heq
  exact hf k' (List.of_mem_zip (List.mem_reverse.1 he)).1 heq

/-! ## Names bound again -/

theorem lookup_filter_self : (l.filter (·.1 ≠ k)).lookup k = none :=
  lookup_eq_none_of_fst fun _ he => by simpa using (List.mem_filter.1 he).2

theorem lookup_filter_ne {k' : κ} (hne : k ≠ k') :
    (l.filter (·.1 ≠ k')).lookup k = l.lookup k := by
  induction l with
  | nil => rfl
  | cons e l ih =>
    obtain ⟨k'', v⟩ := e
    by_cases h : k'' = k'
    · have hk : (k == k'') = false := beq_false_of_ne (h ▸ hne)
      rw [List.filter_cons_of_neg (by simpa using h), ih, List.lookup_cons, hk]
    · rw [List.filter_cons_of_pos (by simpa using h), List.lookup_cons, List.lookup_cons, ih]

/-- Binding a name at the end, in the place of what it was bound to before. -/
theorem lookup_filter_append {k' : κ} :
    (l.filter (·.1 ≠ k') ++ [(k', v)]).lookup k = ((k', v) :: l).lookup k := by
  rw [List.lookup_append, List.lookup_cons, List.lookup_cons]
  by_cases h : k = k'
  · rw [h, lookup_filter_self]
    simp
  · rw [lookup_filter_ne h, beq_false_of_ne h]
    simp

end Neuroform

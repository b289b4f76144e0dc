/-
  Neuroform — feeding the inputs of a converted model.

  An input of a model that nothing feeds becomes a constant node of its own, so
  every such input takes its data (`inputs_fed_of_rooted`).  An input that a
  call has fed is none: it stands for the tensor that the call was given.
-/
import Neuroform.Proofs.Conversion.Holding
import Neuroform.Proofs.Conversion.Reading
import Neuroform.Proofs.Graph.Inlining

namespace Neuroform

open Neuroform.Graph

variable {α : Type}

/-! ## Data -/

namespace Network

variable {batch : Nat}

/-- An array with a row for each sample of a batch. -/
def Rows (batch : Nat) (a : Grid α) (t : Table α) : Prop :=
  t.rows = batch ∧ a.shape = batch :: a.shape.tail ∧ t.columns = volume a.shape.tail ∧
    t.cells = a.cells

theorem exists_rows {a : Grid α} {dims : List Nat} (ha : a.shape = batch :: dims) :
    ∃ t, Rows batch a t := by
  have hcells : a.cells.size = batch * volume dims := by rw [a.size_cells, ha, volume_cons]
  exact ⟨⟨batch, volume dims, a.cells, hcells⟩, rfl, by simp [ha], by simp [ha], rfl⟩

/-- Adding the rows of an array for an object. -/
theorem addFed_eq_ok (hb : 0 < batch) {a : Grid α} {t : Table α} (h : Rows batch a t)
    (o : ObjectId) (fed : States α) :
    addFed batch fed (o, a) = .ok (fed.filter (·.1 ≠ o) ++ [(o, t)]) := by
  obtain ⟨rfl, hshape, hcolumns, hcells⟩ := h
  have hsize : a.size / max t.rows 1 = t.columns := by
    rw [Grid.size, a.size_cells, hshape, volume_cons, max_eq_left hb, hcolumns]
    exact Nat.mul_div_cancel_left _ hb
  have hgrid : Table.ofGrid t.rows (a.size / max t.rows 1) a = .ok t := by
    obtain ⟨rows, columns, cells, hc⟩ := t
    dsimp only at hsize hcells
    subst hcells
    rw [hsize, Table.ofGrid, dif_pos hc]
  have hbatch : a.shape.head? = some t.rows := by rw [hshape]; rfl
  exact bind_eq_ok.2 ⟨(), require_eq_ok.2 hbatch, bind_eq_ok.2 ⟨t, hgrid, rfl⟩⟩

/-- Arrays are fed as their rows; the last one of an object counts. -/
theorem foldlM_addFed (hb : 0 < batch) (objects : List ObjectId) {arrays : List (Grid α)}
    {tables : List (Table α)} (h : List.Forall₂ (Rows batch) arrays tables)
    (fed : States α) : ∃ fed', (objects.zip arrays).foldlM (addFed batch) fed = .ok fed' ∧
      (∀ o, fed'.lookup o = ((objects.zip tables).reverse ++ fed).lookup o) ∧
      ∀ e ∈ fed', e ∈ objects.zip tables ∨ e ∈ fed := by
  induction h generalizing objects fed with
  | nil => exact ⟨fed, by simp, by simp, by simp⟩
  | @cons a t arrays tables ha _ ih =>
    cases objects with
    | nil => exact ⟨fed, by simp, by simp, by simp⟩
    | cons o objects =>
      obtain ⟨fed', hfold, hlookup, hmem⟩ :=
        ih objects (fed.filter (·.1 ≠ o) ++ [(o, t)])
      have hadd := addFed_eq_ok hb ha o fed
      refine ⟨fed', foldlM_cons_eq_ok.2 ⟨_, hadd, hfold⟩, ?_, ?_⟩
      · intro u
        rw [hlookup, List.zip_cons_cons, List.reverse_cons, List.append_assoc, List.lookup_append,
          lookup_filter_append, List.lookup_append]
        rfl
      · intro e he
        rcases hmem e he with he | he
        · exact .inl (List.mem_cons_of_mem _ he)
        · rcases List.mem_append.1 he with he | he
          · exact .inr (List.mem_filter.1 he).1
          · exact .inl (List.mem_singleton.1 he ▸ by simp)

/-- A constant node takes data with a row of its size for each sample. -/
theorem checkFed_constant {n : Network α} {o : ObjectId} {x : Object α} {values : List α}
    (hx : n.objects[o.index]? = some x) (hk : x.kind = .node (.constant values)) {t : Table α}
    (hrows : t.rows = batch) (hcolumns : t.columns = values.length) :
    n.checkFed batch (o, t) = .ok () := by
  refine bind_eq_ok.2 ⟨x, object_eq_ok.2 hx, bind_eq_ok.2 ⟨(), require_eq_ok.2 ?_, ?_⟩⟩
  · rw [hk]
    rfl
  · refine require_eq_ok.2 ⟨hrows, ?_⟩
    rw [hk, hcolumns]
    rfl

end Network

/-! ## Inputs -/

variable [Scalar α]

namespace Graph
variable {g : Graph α} {l : LayerId} {m : ModelDef} {x : TensorId}

/-- Nothing feeds the entry that a tensor comes from. -/
def IsRoot (g : Graph α) (x : TensorId) : Prop :=
  ∃ p inv, g.producer? x = some p ∧ g.record? p.source = some inv ∧ inv.inputs = []

/-- An input of a model is the only output of an invocation of an entry. -/
theorem input_of_entry (hg : g.Sound) (hm : g.model? l = some m) (hx : x ∈ m.inputs) :
    ∃ p inv, g.producer? x = some p ∧ p.output = 0 ∧ g.IsEntry p.layer ∧
      g.record? p.source = some inv ∧ inv.outputs = [x] ∧ g.Resolves x p := by
  obtain ⟨p, hp, d, hd⟩ := (hg.model hm).entry x hx
  obtain ⟨inv, hr, hout, -⟩ := hg.made hp
  obtain ⟨-, -, t, ht, -⟩ := hg.entry hd hr
  have h0 : p.output = 0 := by
    have hlt := (List.getElem?_eq_some_iff.1 hout).1
    simpa [ht] using hlt
  obtain rfl : t = x := by simpa [ht, h0] using hout
  have hprimitive : g.model? p.layer = none := by simp [model?, hd, LayerKind.model?]
  exact ⟨p, inv, hp, h0, ⟨d, hd⟩, hr, ht, .here hp hprimitive⟩

end Graph

namespace Session

variable {g : Graph α} {settings : Settings α} {entries : List (Entry α)} {w : Workspace α}
  {s : Session α} {l : LayerId} {m : ModelDef} {x y : TensorId} {v v' : View}

/-- A view is all of a constant node with a zero for every place of a tensor. -/
def IsConstant (g : Graph α) (n : Network α) (x : TensorId) (v : View) : Prop :=
  ∃ o dims object, v = .full o ∧ g.Dims x dims ∧ n.objects[o.index]? = some object ∧
    object.kind = .node (.constant (List.replicate (volume dims) 0))

section
variable (hg : g.Sound) (hd : Completed g settings entries w) (hm : g.model? l = some m)
include hg hd hm

/-- An input that nothing feeds comes from an entry with a constant node. -/
theorem constant_of_root (hx : x ∈ m.inputs) (hroot : g.IsRoot x) (hv : w.tensorView x = .ok v) :
    IsConstant g w.network x v ∧ ∃ e ∈ entries, ¬e.HandsOn g ∧
      w.views.lookup e.invocation = some [v] ∧
      ∃ inv, g.record? e.invocation = some inv ∧ inv.outputs = [x] := by
  obtain ⟨p, inv, hp, h0, ⟨d, hk⟩, hr, hout, hresolves⟩ := input_of_entry hg hm hx
  obtain ⟨p', inv', hp', hr', hempty⟩ := hroot
  obtain rfl := Option.some.inj (hp.symm.trans hp')
  obtain rfl := Option.some.inj (hr.symm.trans hr')
  obtain ⟨q, e, he, hq, -, hep, hlook, hheld⟩ := hd.entry_of_view hg hv
  obtain rfl := hresolves.unique hq
  have hkind : g.kind? e.invocation.layer = some (.primitive (.input d)) := by rw [hep]; exact hk
  have hrecord : g.record? e.invocation = some inv := by rw [hep]; exact hr
  have hown := not_handsOn_of_entry ⟨d, hkind⟩ hrecord hempty
  refine ⟨?_, e, he, hown, hlook, inv, hrecord, hout⟩
  cases hheld with
  | @made p' dims o object kind _ known hobject fills =>
    obtain rfl : .input d = p' := by simpa using hkind.symm.trans kind
    obtain ⟨inv', t, hr', hout', hdims⟩ := known
    obtain rfl := Option.some.inj (hrecord.symm.trans hr')
    obtain rfl : x = t := by simpa using hout.symm.trans hout'
    exact ⟨o, dims, object, rfl, hdims, hobject, fills.2 (hd.native e he ⟨d, hkind⟩) d rfl⟩
  | handed hands _ => exact absurd hands hown

/-- An input that a call has fed is held by the view of the tensor that was
    given. -/
theorem view_of_fed_input (hx : x ∈ m.inputs) (hv : w.tensorView x = .ok v) {p : Provenance}
    {inv : Invocation} {u : TensorId} (hp : g.producer? x = some p)
    (hr : g.record? p.source = some inv) (hin : inv.inputs = [u]) : w.tensorView u = .ok v := by
  obtain ⟨p', inv', hp', -, hentry, -, -, hresolves⟩ := input_of_entry hg hm hx
  obtain rfl := Option.some.inj (hp.symm.trans hp')
  obtain ⟨q, e, he, hq, -, hep, hlook, -⟩ := hd.entry_of_view hg hv
  obtain rfl := hresolves.unique hq
  have hentry' : g.IsEntry e.invocation.layer := by rw [hep]; exact hentry
  have hrecord : g.record? e.invocation = some inv := by rw [hep]; exact hr
  obtain ⟨v', hv', hview⟩ := hd.view_of_called he hentry' hrecord hin
  obtain rfl : v = v' := by simpa using hlook.symm.trans hv'
  exact hview

/-- Data for different inputs that nothing feeds is for different objects. -/
theorem object_ne_of_roots (hx : x ∈ m.inputs) (hy : y ∈ m.inputs) (hrx : g.IsRoot x)
    (hry : g.IsRoot y) (hne : x ≠ y) (hv : w.tensorView x = .ok v)
    (hv' : w.tensorView y = .ok v') : v.object ≠ v'.object := by
  obtain ⟨⟨o, _, _, rfl, -⟩, e, he, hown, hlook, inv, hr, hout⟩ :=
    constant_of_root hg hd hm hx hrx hv
  obtain ⟨⟨o', _, _, rfl, -⟩, e', he', hown', hlook', inv', hr', hout'⟩ :=
    constant_of_root hg hd hm hy hry hv'
  have hsource : e.invocation ≠ e'.invocation := by
    intro heq
    rw [heq, hr'] at hr
    obtain rfl := Option.some.inj hr
    exact hne (by simpa using hout.symm.trans hout')
  intro heq
  have hsame := hd.holds.distinct e he e' he' hsource hown hown'
  rw [hlook, hlook'] at hsame
  obtain rfl : o = o' := heq
  exact hsame rfl

end

/-- Different constant nodes for the inputs of a model take arrays for each of
    them: no data gets into the place of other data. -/
theorem feeds_of_constants (hin : ∀ x ∈ m.inputs, ∃ v, s.inputs.lookup x = some v ∧
      IsConstant g s.network x v)
    (hdistinct : ∀ x ∈ m.inputs, ∀ y ∈ m.inputs, x ≠ y → ∀ v v', s.inputs.lookup x = some v →
      s.inputs.lookup y = some v' → v.object ≠ v'.object)
    {arrays : List (Grid α)} {batch : Nat} (hb : 0 < batch)
    (hbatch : batch = (arrays.head?.bind (·.shape.head?)).getD 1)
    (hshapes : List.Forall₂ (fun x a => ∃ dims, g.Dims x dims ∧ a.shape = batch :: dims)
      m.inputs arrays) :
    ∃ fed, s.Feeds m arrays batch fed ∧ fed.forM (s.network.checkFed batch) = .ok () ∧
      ∀ x a, (m.inputs.zip arrays).reverse.lookup x = some a →
        ∃ v t, s.inputs.lookup x = some v ∧ fed.lookup v.object = some t ∧
          Network.Rows batch a t := by
  obtain ⟨f, hf⟩ : ∃ f : TensorId → ObjectId, ∀ x v, s.inputs.lookup x = some v → f x = v.object :=
    ⟨fun x => ((s.inputs.lookup x).map (·.object)).getD ⟨0⟩, fun x v hv => by simp [hv]⟩
  have hinj : ∀ x ∈ m.inputs, ∀ y ∈ m.inputs, f y = f x → y = x := by
    intro x hx y hy heq
    obtain ⟨v, hv, -⟩ := hin x hx
    obtain ⟨v', hv', -⟩ := hin y hy
    rw [hf x v hv, hf y v' hv'] at heq
    by_contra hne
    exact hdistinct y hy x hx hne v' v hv' hv heq
  obtain ⟨tables, hrows⟩ := exists_forall₂ (R := Network.Rows batch) (l := arrays) fun a ha => by
    obtain ⟨x, -, dims, -, hshape⟩ := forall₂_mem_left hshapes.flip a ha
    exact Network.exists_rows hshape
  obtain ⟨fed, hfold, hlookup, hmem⟩ :=
    Network.foldlM_addFed hb (m.inputs.map f) hrows []
  refine ⟨fed, ⟨hshapes.length_eq.symm, hbatch, m.inputs.map f, ?_, hfold⟩, ?_, ?_⟩
  · rw [List.forall₂_map_right_iff, List.forall₂_same]
    intro x hx
    obtain ⟨v, hv, -⟩ := hin x hx
    exact ⟨v, hv, (hf x v hv).symm⟩
  · have hsizes : List.Forall₂ (fun x (t : Table α) => t.rows = batch ∧
        ∃ dims, g.Dims x dims ∧ t.columns = volume dims) m.inputs tables := by
      refine forall₂_comp ?_ hshapes hrows
      rintro x a t ⟨dims, hdims, hshape⟩ ⟨hr, -, hcolumns, -⟩
      rw [hshape] at hcolumns
      exact ⟨hr, dims, hdims, hcolumns⟩
    refine forM_eq_ok.2 ?_
    intro e he
    have he := (hmem e he).resolve_right (by simp)
    rw [List.zip_map_left] at he
    obtain ⟨⟨x, t⟩, hxt, rfl⟩ := List.mem_map.1 he
    have hx := (List.of_mem_zip hxt).1
    obtain ⟨v, hv, o, dims, object, rfl, hdims, hobject, hk⟩ := hin x hx
    obtain ⟨hr, dims', hdims', hcolumns⟩ := (List.forall₂_iff_zip.1 hsizes).2 hxt
    obtain rfl := hdims.unique hdims'
    refine Network.checkFed_constant ?_ hk hr (by simpa using hcolumns)
    rw [hf x _ hv]
    exact hobject
  · intro x a ha
    obtain ⟨k, hk, -⟩ := getElem?_of_lookup_zip ha
    have hx := List.mem_of_getElem? hk
    obtain ⟨v, hv, -⟩ := hin x hx
    have hlength : m.inputs.length = tables.length := hshapes.length_eq.trans hrows.length_eq
    obtain ⟨t, ht⟩ := exists_lookup_zip hlength hx
    refine ⟨v, t, hv, ?_, lookup_zip_of_forall₂ hrows ha ht⟩
    rw [← hf x v hv, hlookup, List.append_nil, lookup_map_zip f (hinj x hx), ht]

/-- **Inputs that nothing feeds are fed independently**: if a conversion
    succeeds, every such input of its model is a constant node of its own with a
    zero for every place.  An input that a call has fed is the view of the tensor
    that was given.  If nothing feeds any input of the model, batches of the
    right shapes are accepted, and each of the inputs gets its own. -/
theorem inputs_fed_of_rooted (h : g.Reachable) (hm : g.model? l = some m)
    (hc : convert g l settings Registry.standard = .ok s) :
    (∀ x ∈ m.inputs, ∃ v, s.inputs.lookup x = some v ∧ s.workspace.tensorView x = .ok v ∧
      (g.IsRoot x → IsConstant g s.network x v) ∧
      ∀ p inv u, g.producer? x = some p → g.record? p.source = some inv → inv.inputs = [u] →
        s.workspace.tensorView u = .ok v) ∧
    (∀ x ∈ m.inputs, ∀ y ∈ m.inputs, g.IsRoot x → g.IsRoot y → x ≠ y → ∀ v v',
      s.inputs.lookup x = some v → s.inputs.lookup y = some v' → v.object ≠ v'.object) ∧
    (g.Rooted m → ∀ arrays batch, 0 < batch →
      batch = (arrays.head?.bind (·.shape.head?)).getD 1 →
      List.Forall₂ (fun x a => ∃ dims, g.Dims x dims ∧ a.shape = batch :: dims) m.inputs arrays →
      ∃ fed, s.Feeds m arrays batch fed ∧ fed.forM (s.network.checkFed batch) = .ok () ∧
        ∀ x a, (m.inputs.zip arrays).reverse.lookup x = some a →
          ∃ v t, s.inputs.lookup x = some v ∧ fed.lookup v.object = some t ∧
            Network.Rows batch a t) := by
  obtain ⟨-, entries, s₁, -, -, hd, hends⟩ := convert_completed h.sound hm hc
  have hconstant : ∀ x ∈ m.inputs, g.IsRoot x → ∃ v, s.inputs.lookup x = some v ∧
      IsConstant g s.network x v := by
    intro x hx hroot
    obtain ⟨v, hlook, hv⟩ := hends.view_of_input hx
    exact ⟨v, hlook, (constant_of_root h.sound hd hm hx hroot hv).1⟩
  have hdistinct : ∀ x ∈ m.inputs, ∀ y ∈ m.inputs, g.IsRoot x → g.IsRoot y → x ≠ y → ∀ v v',
      s.inputs.lookup x = some v → s.inputs.lookup y = some v' → v.object ≠ v'.object := by
    intro x hx y hy hrx hry hne v v' hv hv'
    obtain ⟨v₀, hlook, hview⟩ := hends.view_of_input hx
    obtain ⟨v₁, hlook', hview'⟩ := hends.view_of_input hy
    obtain rfl := Option.some.inj (hv.symm.trans hlook)
    obtain rfl := Option.some.inj (hv'.symm.trans hlook')
    exact object_ne_of_roots h.sound hd hm hx hy hrx hry hne hview hview'
  refine ⟨?_, hdistinct, ?_⟩
  · intro x hx
    obtain ⟨v, hlook, hv⟩ := hends.view_of_input hx
    refine ⟨v, hlook, hv, ?_, ?_⟩
    · intro hroot
      exact (constant_of_root h.sound hd hm hx hroot hv).1
    · intro p inv u hp hr hin
      exact view_of_fed_input h.sound hd hm hx hv hp hr hin
  · intro hroots arrays batch hb hbatch hshapes
    exact feeds_of_constants (fun x hx => hconstant x hx (hroots x hx))
      (fun x hx y hy => hdistinct x hx y hy (hroots x hx) (hroots y hy)) hb hbatch hshapes

/-- Two models around a call: one has an input inside of it, the other one the
    input of the called model. -/
def besides : List (BuildStep ℚ) := entered ++ [.model "besides" [⟨0⟩, ⟨1⟩] [⟨3⟩]]

/-- The input inside of the call shares the constant node of the tensor that
    the call was given; the inputs of the other model have a node each, and take
    data. -/
theorem inputs_fed_of_rooted_besides :
    (∃ s v, convert (build besides) ⟨3⟩ Settings.standard Registry.standard = .ok s ∧
      s.inputs.lookup (⟨2⟩ : TensorId) = some v ∧ s.inputs.lookup (⟨1⟩ : TensorId) = some v ∧
      IsConstant (build besides) s.network ⟨1⟩ v) ∧
    ∃ s v v' fed, convert (build besides) ⟨4⟩ Settings.standard Registry.standard = .ok s ∧
      s.inputs.lookup (⟨0⟩ : TensorId) = some v ∧ s.inputs.lookup (⟨1⟩ : TensorId) = some v' ∧
      v.object ≠ v'.object ∧
      s.Feeds ⟨[⟨0⟩, ⟨1⟩], [⟨3⟩], [⟨0⟩, ⟨2⟩, ⟨1⟩], false⟩ [three, three] 1 fed ∧
      fed.forM (s.network.checkFed 1) = .ok () := by
  have hshared : (build besides).model? ⟨3⟩ =
      some ⟨[⟨2⟩, ⟨1⟩], [⟨3⟩], [⟨0⟩, ⟨2⟩, ⟨1⟩], false⟩ := by cbv
  have hrooted : (build besides).model? ⟨4⟩ =
      some ⟨[⟨0⟩, ⟨1⟩], [⟨3⟩], [⟨0⟩, ⟨2⟩, ⟨1⟩], false⟩ := by cbv
  have hx : (build besides).IsRoot ⟨0⟩ := ⟨⟨⟨0⟩, 0, 0⟩, ⟨[], [⟨0⟩]⟩, by cbv, by cbv, rfl⟩
  have hu : (build besides).IsRoot ⟨1⟩ := ⟨⟨⟨2⟩, 0, 0⟩, ⟨[], [⟨1⟩]⟩, by cbv, by cbv, rfl⟩
  have hok : ∀ l ∈ [⟨3⟩, ⟨4⟩], (convert (build besides) l Settings.standard
      Registry.standard).toOption.isSome := by decide +kernel
  constructor
  · obtain ⟨s, hs⟩ := Option.isSome_iff_exists.1 (hok ⟨3⟩ (by simp))
    obtain ⟨hinputs, -, -⟩ :=
      inputs_fed_of_rooted (reachable_build besides) hshared (toOption_eq_some.1 hs)
    obtain ⟨v, hlook, -, -, hview⟩ := hinputs ⟨2⟩ (by simp)
    obtain ⟨v', hlook', hview', hconstant, -⟩ := hinputs ⟨1⟩ (by simp)
    have hgiven := hview ⟨⟨0⟩, 1, 0⟩ ⟨[⟨1⟩], [⟨2⟩]⟩ ⟨1⟩ (by cbv) (by cbv) rfl
    obtain rfl := Except.ok.inj (hgiven.symm.trans hview')
    exact ⟨s, v, toOption_eq_some.1 hs, hlook, hlook', hconstant hu⟩
  · obtain ⟨s, hs⟩ := Option.isSome_iff_exists.1 (hok ⟨4⟩ (by simp))
    obtain ⟨hinputs, hdistinct, hfeeds⟩ :=
      inputs_fed_of_rooted (reachable_build besides) hrooted (toOption_eq_some.1 hs)
    obtain ⟨v, hlook, -⟩ := hinputs ⟨0⟩ (by simp)
    obtain ⟨v', hlook', -⟩ := hinputs ⟨1⟩ (by simp)
    have hroots : (build besides).Rooted ⟨[⟨0⟩, ⟨1⟩], [⟨3⟩], [⟨0⟩, ⟨2⟩, ⟨1⟩], false⟩ := by
      intro x hmem
      rcases List.mem_pair.1 hmem with rfl | rfl
      · exact hx
      · exact hu
    have hdims : ∀ x ∈ [(⟨0⟩ : TensorId), ⟨1⟩], (build besides).Dims x [1] := by
      intro x hmem
      rcases List.mem_pair.1 hmem with rfl | rfl
      · exact ⟨.batched [1], by cbv, rfl⟩
      · exact ⟨.batched [1], by cbv, rfl⟩
    obtain ⟨fed, hfed, hcheck, -⟩ := hfeeds hroots [three, three] 1 (by decide) rfl
      (.cons ⟨[1], hdims _ (by simp), rfl⟩ (.cons ⟨[1], hdims _ (by simp), rfl⟩ .nil))
    exact ⟨s, v, v', fed, toOption_eq_some.1 hs, hlook, hlook',
      hdistinct ⟨0⟩ (by simp) ⟨1⟩ (by simp) hx hu (by decide) v v' hlook hlook', hfed, hcheck⟩

end Session
end Neuroform

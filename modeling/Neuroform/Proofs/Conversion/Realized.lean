/-
  Neuroform — every conversion of an invocation realizes it.

  Wrapping realizes any layer; a native rule does so for the layers that it is
  meant for (`Primitive.Native`).  What the rules check of a layer before they
  convert it says just that (`Rule.Supports.native`).
-/
import Neuroform.Proofs.Conversion.Affine
import Neuroform.Proofs.Conversion.Convolving
import Neuroform.Proofs.Conversion.Moving
import Neuroform.Proofs.Conversion.Pooling
import Neuroform.Proofs.Conversion.Wrapped

namespace Neuroform

variable {α : Type} [Field α] [LinearOrder α] [Elementary α] [Printed α]

/-- What a native rule takes for granted of a layer that is applied to samples
    of some dimensions. -/
def Primitive.Native (ins : List (List Nat)) : Primitive α → Prop
  | .input _ => ins ≠ []
  | .dense _ => ∀ dims ∈ ins, dims.length = 1
  | .conv c => c.dilationRate.map Word.signed = List.replicate c.rank 1
  | .pool p => p.Averages
  | .relu r => r.maxValue = none ∧ r.threshold = 0
  | .upSampling u => u.interpolation = .nearest
  | _ => True

namespace Workspace

variable {w w' : Workspace α} {fed : States α} {b : Nat} {i : InvocationId} {p : Primitive α}
  {ins : List (List Nat)} {xs : List (Grid α)} {out : List Nat} {y : Grid α} {v : View}
  {wrapped : Bool} {c : InvocationId → Step (Workspace α) View}

/-- **What a conversion builds settles on what the layer makes.** -/
theorem Staged.realized (hs : Staged w fed b i p ins xs out y) (hc : Rule.Conversion wrapped p c)
    (hn : wrapped = false → p.Native ins) (h : (c i).exec w = (.ok v, w'))
    (hfits : w'.network.sketch.Fits b) : Realized w w' fed b v out y := by
  cases hc with
  | wrapped => exact hs.realized_wrapped h hfits
  | input => exact hs.realized_convertInput (hn rfl) h
  | dense => exact hs.realized_dense (hn rfl) h hfits
  | conv => exact hs.realized_conv (hn rfl) h hfits
  | pool => exact hs.realized_pool (hn rfl) h hfits
  | activation => exact hs.realized_activation h hfits
  | merge => exact hs.realized_merge h hfits
  | batchNorm affine => exact hs.realized_batchNorm affine h hfits
  | concatenate => exact hs.realized_concatenate h hfits
  | flatten =>
    obtain ⟨dims, x, s, s', rfl, rfl, hx, -⟩ := hs.single fun shapes outs ho => by
      obtain ⟨s, hs, -⟩ := bind_eq_ok.1 ho
      exact ⟨s, onlyInput_eq_ok.1 hs⟩
    obtain ⟨y', hy, -, hcells⟩ := flatten_forward hs.batch hx.shape hs.makes
    obtain rfl := List.singleton_inj.1 hy
    exact hs.realized_convertPassing rfl hcells h
  | reshape =>
    obtain ⟨dims, x, s, s', rfl, rfl, hx, -⟩ := hs.single fun shapes outs ho => by
      obtain ⟨s, hs, -⟩ := bind_eq_ok.1 ho
      exact ⟨s, onlyInput_eq_ok.1 hs⟩
    obtain ⟨_, y', -, hy, -, hcells⟩ := Reshape.forward_eq_ok hs.batch hx.shape hs.makes
    obtain rfl := List.singleton_inj.1 hy
    exact hs.realized_convertPassing rfl hcells h
  | relu => exact hs.realized_relu (hn rfl).1 (hn rfl).2 h hfits
  | leakyRelu => exact hs.realized_leakyRelu h hfits
  | upSampling => exact hs.realized_upSampling (hn rfl) h hfits
  | zeroPadding => exact hs.realized_zeroPadding h hfits

end Workspace

/-- What is checked of a layer is what its native rule takes for granted. -/
theorem Rule.Supports.native {g : Graph α} {layer : Layer α} {s : Settings α} {p : Primitive α}
    (h : Rule.Supports g layer s p) {b : Nat} {shapes : List Shape} {ins : List (List Nat)}
    (hr : p.Regular b shapes) (hmax : s.maxToAverage = false)
    (hinput : ∀ l, p = .input l → ins ≠ [])
    (hdense : ∀ d, p = .dense d → ∃ inv ∈ layer.invocations, ∃ t x, inv.inputs = [t] ∧
      g.tensor t = .ok x ∧ [x.shape] = shapes) (hs : List.Forall₂ Shape.Samples shapes ins) :
    p.Native ins := by
  cases p with
  | input l => exact hinput l rfl
  | dense d =>
    obtain ⟨inv, hinv, t, x, hin, hx, rfl⟩ := hdense d rfl
    intro dims hdims
    obtain ⟨s', hs', hsamples⟩ := forall₂_mem_left hs.flip dims hdims
    obtain rfl := List.mem_singleton.1 hs'
    have hrank := h inv hinv t (by simp [hin]) x hx
    have hlength := Shape.Samples.rank hsamples
    omega
  | conv c => exact h
  | pool p =>
    refine ⟨?_, h.2⟩
    cases hk : p.kind with
    | average => rfl
    | maximum => exact absurd (hmax.symm.trans (h.1 hk)) Bool.false_ne_true
  | relu r => exact ⟨h.1, by simpa using h.2⟩
  | upSampling u =>
    by_cases hrank : u.rank = 2
    · exact h hrank
    · exact hr hrank
  | _ => trivial

end Neuroform

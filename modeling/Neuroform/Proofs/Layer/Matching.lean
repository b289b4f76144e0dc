/-
  Neuroform — arrays that match shapes.

  An array matches a shape if it has as many axes and every dimension that is
  known is the length of its axis (`Shape.Matches`).  What is computed from the
  dimensions of a shape is known as far as these are (`knownLengths`).
-/
import Neuroform.Proofs.Layer.Batch

namespace Neuroform

variable {α β : Type}

/-! ## Dimensions -/

/-- A dimension, if it is known, is the length of the axis. -/
def MatchesLength (d : Option Nat) (n : Nat) : Prop := ∀ k ∈ d, k = n

/-- The lengths of the axes whose dimension is known. -/
def knownLengths (ds : List (Option Nat)) (ns : List Nat) : List (Option Nat) :=
  List.zipWith (fun d n => d.map fun _ => n) ds ns

section
variable {ds : List (Option Nat)} {ns : List Nat}

@[simp] theorem matchesLength_none (n : Nat) : MatchesLength none n := nofun

@[simp] theorem matchesLength_some {k n : Nat} : MatchesLength (some k) n ↔ k = n := by
  simp [MatchesLength]

theorem matchesLength_map (d : Option Nat) (n : Nat) : MatchesLength (d.map fun _ => n) n := by
  cases d <;> simp

theorem forall₂_matchesLength_some : List.Forall₂ MatchesLength (ns.map some) ns := by
  rw [List.forall₂_map_left_iff, List.forall₂_same]
  simp

theorem forall₂_knownLengths (h : ds.length = ns.length) :
    List.Forall₂ MatchesLength (knownLengths ds ns) ns := by
  refine forall₂_of_getElem? (by simp [knownLengths, h]) fun k d n hd hn => ?_
  obtain ⟨d', m, -, hm, rfl⟩ := List.getElem?_zipWith_eq_some.1 hd
  obtain rfl := Option.some.inj (hn.symm.trans hm)
  exact matchesLength_map d' n

theorem knownLengths_map_some {ms : List Nat} (h : ms.length = ns.length) :
    knownLengths (ms.map some) ns = ns.map some := by
  refine List.ext_getElem (by simp [knownLengths, h]) fun k _ _ => ?_
  simp [knownLengths]

end

/-! ## Shapes -/

/-- Arrays of these dimensions have this shape. -/
def Shape.Matches (s : Shape) (dims : List Nat) : Prop := List.Forall₂ MatchesLength s.dims dims

theorem Shape.matchesDims_iff {s : Shape} {dims : List Nat} :
    s.matchesDims dims = true ↔ s.Matches dims := by
  simp only [matchesDims, Matches, List.forall₂_iff_zip, Bool.and_eq_true, beq_iff_eq,
    List.all_eq_true, Prod.forall, Option.all_eq_true, MatchesLength, Option.mem_def]

namespace Shape.Matches
variable {s : Shape} {dims : List Nat}

theorem rank (h : s.Matches dims) : s.rank = dims.length := h.length_eq

/-- A shape of which everything is known has arrays of one shape. -/
theorem eq_concrete (h : s.Matches dims) (hs : s.isConcrete) : s = .concrete dims := by
  have hall := List.all_eq_true.1 hs
  refine congrArg Shape.mk (List.forall₂_eq_eq_eq ▸ List.forall₂_map_right_iff.2 ?_)
  refine ((List.forall₂_and_left _ _).2 ⟨hall, h⟩).imp fun d n ⟨hd, hn⟩ => ?_
  obtain ⟨k, rfl⟩ := Option.isSome_iff_exists.1 hd
  rw [matchesLength_some.1 hn]

theorem volume?_eq {v : Nat} (h : s.Matches dims) (hv : s.volume? = .ok (some v)) :
    v = volume dims := by
  have hs : s.isConcrete := by
    obtain ⟨known, -, hknown⟩ := bind_eq_ok.1 hv
    by_contra hs
    rw [if_neg hs] at hknown
    simp at hknown
  rw [h.eq_concrete hs] at hv
  exact Option.some.inj (Shape.volume?_concrete hv)

/-- Behind the batch, an array matches the shape of the samples. -/
theorem batched {d : Option Nat} {ds : List (Option Nat)} (h : s.Matches dims)
    (hs : s.dims = d :: ds) : ∃ n ns, dims = n :: ns ∧ MatchesLength d n ∧
      s.withoutBatch.Matches ns := by
  rw [Shape.Matches, hs] at h
  obtain ⟨n, ns, hn, hns, rfl⟩ := List.forall₂_cons_left_iff.1 h
  exact ⟨n, ns, rfl, hn, by rwa [Shape.Matches, Shape.withoutBatch, hs]⟩

end Shape.Matches

/-! ## Channels -/

theorem forall₂_dropLast {γ : Type} {R : β → γ → Prop} {xs : List β} {cs : List γ}
    (h : List.Forall₂ R xs cs) : List.Forall₂ R xs.dropLast cs.dropLast := by
  rw [List.dropLast_eq_take, List.dropLast_eq_take, ← h.length_eq]
  exact List.forall₂_take _ h

namespace Layout
variable {γ : Type} {R : β → γ → Prop} {l : Layout} {x : β} {c : γ} {xs : List β} {cs : List γ}

/-- Lists that are related entry by entry are so in their channels and on their
    spatial axes. -/
theorem forall₂_split (h : List.Forall₂ R xs cs) (hx : l.channel? xs = some x) :
    ∃ c, l.channel? cs = some c ∧ R x c ∧ List.Forall₂ R (l.spatial xs) (l.spatial cs) := by
  have hlast := forall₂_toLast (l := l) |>.2 h
  rw [channel?, List.getLast?_eq_getElem?] at hx
  obtain ⟨c, hc, hxc⟩ := forall₂_getElem? hlast hx
  refine ⟨c, ?_, hxc, forall₂_dropLast hlast⟩
  rwa [channel?, List.getLast?_eq_getElem?, ← hlast.length_eq]

theorem forall₂_join (hc : R x c) (h : List.Forall₂ R xs cs) :
    List.Forall₂ R (l.join x xs) (l.join c cs) := by
  refine (forall₂_toLast (l := l)).1 ?_
  rw [join, join, toLast_fromLast, toLast_fromLast]
  exact List.rel_append h (.cons hc .nil)

end Layout

/-- The parts of a shape match the parts of its arrays. -/
theorem Shape.Matches.splitChannels {s : Shape} {dims : List Nat} {l : Layout}
    {parts : ChannelShape} (hs : s.Matches dims) (h : s.splitChannels l = .ok parts) :
    ∃ n ns c, dims = n :: ns ∧ l.channel? ns = some c ∧ MatchesLength parts.batch n ∧
      MatchesLength parts.channels c ∧ List.Forall₂ MatchesLength parts.spatial (l.spatial ns) := by
  unfold Shape.splitChannels at h
  split at h
  case h_1 batch rest channels hdims hchannels =>
    obtain rfl := Except.ok.inj h
    obtain ⟨n, ns, rfl, hn, hns⟩ := hs.batched hdims
    obtain ⟨c, hc, hchannel, hspatial⟩ := Layout.forall₂_split hns hchannels
    exact ⟨n, ns, c, rfl, hc, hn, hchannel, hspatial⟩
  case h_2 => simp at h

theorem Shape.matches_join {l : Layout} {parts : ChannelShape} {n c : Nat} {ns : List Nat}
    (hn : MatchesLength parts.batch n) (hc : MatchesLength parts.channels c)
    (hs : List.Forall₂ MatchesLength parts.spatial ns) :
    (parts.join l).Matches (n :: l.join c ns) :=
  .cons hn (Layout.forall₂_join hc hs)

end Neuroform

import Mathlib
import HopfieldDescent.Proofs.Vec.Coordinates

/-!
# Points of a box

`Vec.InBox lower upper x` says that `x` has an entry between the bounds for each pair of bounds.
Strict pairings with the bounds stay in the box when they do so in every coordinate.
-/

namespace HopfieldDescent.Vec

variable {α γ : Type} {lower upper x : Vec ℝ}

/-- Every entry of `x` lies between its bounds. -/
def InBox (lower upper x : Vec ℝ) : Prop :=
  List.Forall₂ (· ≤ ·) lower x ∧ List.Forall₂ (· ≤ ·) x upper

/-- A point of a box has an entry for each lower bound. -/
lemma InBox.length_eq (h : InBox lower upper x) : x.length = lower.length :=
  h.1.length_eq.symm

/-- An entry of a point of a box lies between its bounds. -/
lemma InBox.mem_Icc (h : InBox lower upper x) {i : Nat} {l u a : ℝ} (hl : lower[i]? = some l)
    (hu : upper[i]? = some u) (ha : x[i]? = some a) : a ∈ Set.Icc l u := by
  obtain ⟨hi, rfl⟩ := List.getElem?_eq_some_iff.1 hl
  obtain ⟨hi', rfl⟩ := List.getElem?_eq_some_iff.1 hu
  obtain ⟨hi'', rfl⟩ := List.getElem?_eq_some_iff.1 ha
  exact ⟨(List.forall₂_iff_get.1 h.1).2 i hi hi'', (List.forall₂_iff_get.1 h.2).2 i hi'' hi'⟩

/-- A vector with one entry between each pair of bounds is a point of the box. -/
lemma inBox_of_forall (hlower : lower.length = x.length) (hupper : x.length = upper.length)
    (h : ∀ (i : Nat) l u a, lower[i]? = some l → upper[i]? = some u → x[i]? = some a →
      a ∈ Set.Icc l u) : InBox lower upper x := by
  refine ⟨List.forall₂_iff_get.2 ⟨hlower, ?_⟩, List.forall₂_iff_get.2 ⟨hupper, ?_⟩⟩
  · intro i hi hi'
    have hi'' : i < upper.length := hupper ▸ hi'
    exact (h i _ _ _ (List.getElem?_eq_getElem hi) (List.getElem?_eq_getElem hi'')
      (List.getElem?_eq_getElem hi')).1
  · intro i hi hi'
    have hi'' : i < lower.length := hlower ▸ hi
    exact (h i _ _ _ (List.getElem?_eq_getElem hi'') (List.getElem?_eq_getElem hi')
      (List.getElem?_eq_getElem hi)).2

/-- The coordinates of a point of a box lie between those of the bounds. -/
lemma InBox.coords_mem_Icc {n : ℕ} (h : InBox lower upper x) (hlower : lower.length = n)
    (i : Fin n) : coords n x i ∈ Set.Icc (coords n lower i) (coords n upper i) := by
  have hx : x.length = n := h.length_eq.trans hlower
  have hupper : upper.length = n := h.2.length_eq.symm.trans hx
  exact h.mem_Icc (getElem?_eq_coords hlower i) (getElem?_eq_coords hupper i)
    (getElem?_eq_coords hx i)

/-- A vector whose coordinates lie between those of the bounds is a point of the box. -/
lemma inBox_of_coords {n : ℕ} (hlower : lower.length = n) (hupper : upper.length = n)
    (hx : x.length = n)
    (h : ∀ i, coords n x i ∈ Set.Icc (coords n lower i) (coords n upper i)) :
    InBox lower upper x := by
  refine inBox_of_forall (hlower.trans hx.symm) (hx.trans hupper.symm) ?_
  intro i l u a hl hu ha
  have hi : i < n := hx ▸ (List.getElem?_eq_some_iff.1 ha).1
  have hmem := h ⟨i, hi⟩
  simpa only [coords, hl, hu, ha, Option.getD_some] using hmem

/-- A strict pairing with the bounds of a box is a point of the box when each entry lies between
its bounds. -/
lemma inBox_of_zipExact4 {f : α → ℝ → ℝ → γ → ℝ} {v : List α} {w : List γ}
    (h : zipExact4 f v lower upper w = .ok x)
    (hf : ∀ (i : Nat) a l u c, v[i]? = some a → lower[i]? = some l → upper[i]? = some u →
      w[i]? = some c → f a l u c ∈ Set.Icc l u) : InBox lower upper x := by
  obtain ⟨hv, hlower, hupper, rfl⟩ := zipExact4_eq_ok.1 h
  refine inBox_of_forall (by simp [hv, hlower, hupper]) (by simp [hv, hlower, hupper]) ?_
  intro i l u b hl hu hb
  obtain ⟨hi, -⟩ := List.getElem?_eq_some_iff.1 hl
  have hentry := getElem?_of_zipExact4 h (List.getElem?_eq_getElem (hv ▸ hi)) hl hu
    (List.getElem?_eq_getElem (by omega))
  obtain rfl := Option.some.inj (hb.symm.trans hentry)
  exact hf i _ l u _ (List.getElem?_eq_getElem _) hl hu (List.getElem?_eq_getElem _)

end HopfieldDescent.Vec

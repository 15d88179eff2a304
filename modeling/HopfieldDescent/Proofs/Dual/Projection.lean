import Mathlib
import HopfieldDescent.Dual.InnerDescent
import HopfieldDescent.Proofs.Vec.Box

/-!
# Projected steps

Seen from a projected value, the value that was projected and any value of the interval lie on
opposite sides.  The box is a product of intervals, so that the projection onto it works in every
coordinate alone.

A step against a slope that is projected back therefore goes down at least as far as its own square
over the rate says, and it does not move exactly where nothing lies below to first order.
-/

namespace HopfieldDescent.InnerDescent

/-! ## One coordinate -/

section Coordinate

variable {l u x : ℝ}

/-- Seen from a clamped value, the value itself lies away from the interval. -/
lemma clamp_obtuse (hlu : l ≤ u) (hx : x ∈ Set.Icc l u) (v : ℝ) :
    (v - Scalar.clamp l u v) * (x - Scalar.clamp l u v) ≤ 0 := by
  rcases lt_or_ge v l with hbelow | hbelow
  · rw [Scalar.clamp_real hlu, min_eq_left (hbelow.le.trans hlu), max_eq_left hbelow.le]
    exact mul_nonpos_of_nonpos_of_nonneg (by linarith) (by linarith [hx.1])
  · rcases lt_or_ge u v with habove | habove
    · rw [Scalar.clamp_real hlu, min_eq_right habove.le, max_eq_right hlu]
      exact mul_nonpos_of_nonneg_of_nonpos (by linarith) (by linarith [hx.2])
    · rw [Scalar.clamp_of_mem_Icc ⟨hbelow, habove⟩, sub_self, zero_mul]

/-- Seen from a value cut off at zero, the value itself lies away from what is below zero. -/
lemma min_obtuse (hx : x ≤ 0) (v : ℝ) : (v - min v 0) * (x - min v 0) ≤ 0 := by
  rcases le_total v 0 with hv | hv
  · rw [min_eq_left hv, sub_self, zero_mul]
  · rw [min_eq_right hv, sub_zero, sub_zero]
    exact mul_nonpos_of_nonneg_of_nonpos hv hx

end Coordinate

/-! ## Boxes -/

/-- Values that all succeed are gathered in order. -/
lemma mapM_id_eq_ok {α : Type} {values : List (Checked α)} {w : List α} :
    values.mapM id = .ok w ↔ values = w.map .ok := by
  induction values generalizing w with
  | nil =>
    rw [List.mapM_nil, Outcome.pure_eq_ok]
    cases w <;> simp
  | cons value values ih =>
    simp only [List.mapM_cons, Outcome.bind_eq_ok, Outcome.pure_eq_ok, ih, id]
    constructor
    · rintro ⟨a, rfl, rest, rfl, rfl⟩
      rfl
    · intro h
      cases w with
      | nil => cases h
      | cons a rest =>
        obtain ⟨rfl, rfl⟩ := List.cons_eq_cons.1 h
        exact ⟨a, rfl, rest, rfl, rfl⟩

/-- The projection onto a box clamps every coordinate between its bounds. -/
lemma coords_of_projectOntoBox {n : ℕ} {lower upper x x' : Vec ℝ}
    (h : projectOntoBox lower upper x = .ok x') (hlower : lower.length = n) :
    (x.length = n ∧ upper.length = n ∧ x'.length = n) ∧ ∀ i : Fin n,
      Vec.coords n lower i ≤ Vec.coords n upper i ∧ Vec.coords n x' i =
        Scalar.clamp (Vec.coords n lower i) (Vec.coords n upper i) (Vec.coords n x i) := by
  simp only [projectOntoBox, Outcome.bind_eq_ok, Vec.zipExact3_eq_ok, mapM_id_eq_ok] at h
  obtain ⟨projections, ⟨hx, hupper, hprojections⟩, rfl⟩ := h
  have hxn : x.length = n := hx.trans hlower
  have hupperN : upper.length = n := hupper.symm.trans hlower
  have hlength : x'.length = n := by
    have := congrArg List.length hprojections
    simpa [hxn, hlower, hupperN] using this.symm
  refine ⟨⟨hxn, hupperN, hlength⟩, fun i => ?_⟩
  have hentry := congrArg (·[(i : ℕ)]?) hprojections
  simp only [List.getElem?_zipWith, List.zip, List.getElem?_map, Vec.getElem?_eq_coords hxn i,
    Vec.getElem?_eq_coords hlower i, Vec.getElem?_eq_coords hupperN i,
    Vec.getElem?_eq_coords hlength i, Option.map_some, Option.some.injEq, project] at hentry
  obtain ⟨hle, hclamp⟩ := Outcome.ite_error_eq_ok.1 hentry
  exact ⟨hle, (Except.ok.inj hclamp).symm⟩

/-- A point projected onto a box lies in it. -/
lemma inBox_of_projectOntoBox {lower upper x x' : Vec ℝ}
    (h : projectOntoBox lower upper x = .ok x') : Vec.InBox lower upper x' := by
  obtain ⟨⟨-, hupper, hlength⟩, hcoords⟩ := coords_of_projectOntoBox h rfl
  refine Vec.inBox_of_coords rfl hupper hlength fun i => ?_
  obtain ⟨hle, hclamp⟩ := hcoords i
  rw [hclamp]
  exact Scalar.clamp_mem_Icc hle _

end HopfieldDescent.InnerDescent

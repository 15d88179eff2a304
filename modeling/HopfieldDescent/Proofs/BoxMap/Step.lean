import Mathlib
import HopfieldDescent.BoxMap
import HopfieldDescent.Proofs.Squashing.Inverse
import HopfieldDescent.Proofs.Vec.Coordinates

/-!
# Steps of the hidden state

In an interval of width `w`, a step `t` of the hidden coordinate moves the squashed coordinate at
most by the gain times `t`, and by the slope at the old coordinate times `t` up to the squared gain
times `t² / w`.  The slope is the proxy distance, up to the factor of the squashing function.  In an
interval of width at least a sixth the error is at most six times the squared gain times `t²`.
-/

namespace HopfieldDescent.BoxMap

variable {kind : Activation} {l u gain : ℝ}

/-! ## One coordinate -/

/-- Carrying a function over to an interval and back gives the function. -/
lemma normalized_lifted (hlu : l < u) (f : ℝ → ℝ → ℝ) (v gain : ℝ) :
    normalized l u (lifted f v l u gain) = f (normalized l u v) gain := by
  have hne : u - l ≠ 0 := (sub_pos.2 hlu).ne'
  rw [normalized, lifted, add_sub_cancel_left, mul_div_cancel_left₀ _ hne]

/-- A step of the hidden coordinate is a step in the unit interval. -/
lemma normalized_add (l u v t : ℝ) : normalized l u (v + t) = normalized l u v + t / (u - l) := by
  unfold normalized
  ring

/-- The squashed coordinate moves at most by the gain times the step. -/
lemma abs_lifted_sub_le (h : kind.IsSmooth) (hgain : 0 < gain) (hlu : l < u) (v t : ℝ) :
    |lifted kind.squashing.activate (v + t) l u gain - lifted kind.squashing.activate v l u gain| ≤
      gain * |t| := by
  have hwidth : 0 < u - l := sub_pos.2 hlu
  have hstep := abs_step_le_of_hasDerivAt (h.hasDerivAt hgain) (h.abs_slope_le hgain)
    (normalized l u v) (t / (u - l))
  rw [abs_div, abs_of_pos hwidth] at hstep
  rw [lifted, lifted, add_sub_add_left_eq_sub, ← mul_sub, normalized_add, abs_mul,
    abs_of_pos hwidth]
  calc (u - l) * |kind.squashing.activate (normalized l u v + t / (u - l)) gain -
        kind.squashing.activate (normalized l u v) gain|
      ≤ (u - l) * (gain * (|t| / (u - l))) := mul_le_mul_of_nonneg_left hstep hwidth.le
    _ = gain * |t| := by field_simp

/-- The squashed coordinate follows the proxy distance, with an error of second order. -/
lemma abs_lifted_remainder_le (h : kind.IsSmooth) (hgain : 0 < gain) (hlu : l < u) (v t : ℝ) :
    |lifted kind.squashing.activate (v + t) l u gain - lifted kind.squashing.activate v l u gain -
      kind.slopeFactor * kind.squashing.proxy
        (normalized l u (lifted kind.squashing.activate v l u gain)) gain * t| ≤
      (gain * t) ^ 2 / (u - l) := by
  have hwidth : 0 < u - l := sub_pos.2 hlu
  have hremainder := abs_remainder_le_of_hasDerivAt (h.hasDerivAt hgain)
    (h.abs_slope_sub_le hgain) (normalized l u v) (t / (u - l))
  rw [normalized_lifted hlu, lifted, lifted, add_sub_add_left_eq_sub, ← mul_sub, normalized_add]
  set slope := kind.slopeFactor *
    kind.squashing.proxy (kind.squashing.activate (normalized l u v) gain) gain
  have hscaled : (u - l) * (kind.squashing.activate (normalized l u v + t / (u - l)) gain -
        kind.squashing.activate (normalized l u v) gain) - slope * t =
      (u - l) * (kind.squashing.activate (normalized l u v + t / (u - l)) gain -
        kind.squashing.activate (normalized l u v) gain - slope * (t / (u - l))) := by
    field_simp
  rw [hscaled, abs_mul, abs_of_pos hwidth]
  calc (u - l) * |kind.squashing.activate (normalized l u v + t / (u - l)) gain -
        kind.squashing.activate (normalized l u v) gain - slope * (t / (u - l))|
      ≤ (u - l) * (2 * gain ^ 2 / 2 * (t / (u - l)) ^ 2) :=
        mul_le_mul_of_nonneg_left hremainder hwidth.le
    _ = (gain * t) ^ 2 / (u - l) := by field_simp

/-- In an interval that is not too narrow the error is at most six times the squared step. -/
lemma abs_lifted_remainder_le_six (h : kind.IsSmooth) (hgain : 0 < gain) (hwidth : 1 / 6 ≤ u - l)
    (v t : ℝ) :
    |lifted kind.squashing.activate (v + t) l u gain - lifted kind.squashing.activate v l u gain -
      kind.slopeFactor * kind.squashing.proxy
        (normalized l u (lifted kind.squashing.activate v l u gain)) gain * t| ≤
      6 * (gain * t) ^ 2 := by
  refine (abs_lifted_remainder_le h hgain (by linarith) v t).trans ?_
  rw [div_le_iff₀ (by linarith)]
  nlinarith [sq_nonneg (gain * t)]

/-- A point strictly inside an interval has its place strictly between zero and one. -/
lemma normalized_mem_Ioo {v : ℝ} (hv : v ∈ Set.Ioo l u) : normalized l u v ∈ Set.Ioo (0 : ℝ) 1 := by
  have hwidth : 0 < u - l := sub_pos.2 (hv.1.trans hv.2)
  refine ⟨div_pos (sub_pos.2 hv.1) hwidth, ?_⟩
  rw [normalized, div_lt_one hwidth]
  linarith [hv.2]

/-- Inside the interval squashing undoes the inverse. -/
lemma lifted_inverse (kind : Activation) (hgain : 0 < gain) {v : ℝ} (hv : v ∈ Set.Ioo l u) :
    lifted kind.squashing.activate (lifted kind.squashing.inverse v l u gain) l u gain = v := by
  have hlu : l < u := hv.1.trans hv.2
  rw [lifted, normalized_lifted hlu, kind.activate_inverse hgain (normalized_mem_Ioo hv),
    normalized, mul_div_cancel₀ _ (sub_pos.2 hlu).ne', add_sub_cancel]

/-! ## All coordinates -/

variable {lower upper gains hidden hidden' x x' proxy direction : Vec ℝ} {n : ℕ} {step : ℝ}

/-- A step of the hidden state, coordinate by coordinate: how far the point moves, and how well the
proxy distance predicts it. -/
theorem displacement_of_shiftScaled (h : kind.IsSmooth) (hn : lower.length = n)
    (hgain : ∀ i, 0 < Vec.coords n gains i)
    (hwidth : ∀ i, 1 / 6 ≤ Vec.coords n upper i - Vec.coords n lower i)
    (hx : activate ⟨kind.squashing, lower, upper, gains⟩ hidden = .ok x)
    (hproxy : proxyDistance ⟨kind.squashing, lower, upper, gains⟩ x = .ok proxy)
    (hdirection : direction.length = n) (hshift : hidden.shiftScaled step direction = .ok hidden')
    (hx' : activate ⟨kind.squashing, lower, upper, gains⟩ hidden' = .ok x') (i : Fin n) :
    |Vec.displacement n x x' i| ≤ Vec.coords n gains i * |step * Vec.coords n direction i| ∧
      |Vec.displacement n x x' i - kind.slopeFactor * Vec.coords n proxy i *
          (step * Vec.coords n direction i)| ≤
        6 * (Vec.coords n gains i * (step * Vec.coords n direction i)) ^ 2 := by
  obtain ⟨hhidden, hxn, hxcoords⟩ := Vec.coords_of_zipExact4 hx hn
  obtain ⟨-, -, hxcoords'⟩ := Vec.coords_of_zipExact4 hx' hn
  obtain ⟨-, -, hproxycoords⟩ := Vec.coords_of_zipExact4 hproxy hn
  rw [Vec.shiftScaled, Vec.zipOnto_of_length_eq (hhidden.trans hdirection.symm)] at hshift
  obtain rfl := Except.ok.inj hshift
  have hlu : Vec.coords n lower i < Vec.coords n upper i := by linarith [hwidth i]
  rw [Vec.displacement, Pi.sub_apply, hproxycoords, hxcoords', hxcoords,
    Vec.coords_zipWith hhidden hdirection]
  exact ⟨abs_lifted_sub_le h (hgain i) hlu _ _,
    abs_lifted_remainder_le_six h (hgain i) (hwidth i) _ _⟩

/-- A point strictly inside the box is what its hidden state is squashed to. -/
theorem activate_inverse (hn : lower.length = n)
    (hgain : ∀ i, 0 < Vec.coords n gains i)
    (hx : ∀ i, Vec.coords n x i ∈ Set.Ioo (Vec.coords n lower i) (Vec.coords n upper i))
    (hhidden : inverse ⟨kind.squashing, lower, upper, gains⟩ x = .ok hidden) :
    activate ⟨kind.squashing, lower, upper, gains⟩ hidden = .ok x := by
  obtain ⟨hxn, hhn, hcoords⟩ := Vec.coords_of_zipExact4 hhidden hn
  obtain ⟨-, hupper, hgains, -⟩ := Vec.zipExact4_eq_ok.1 hhidden
  have hactivate : activate ⟨kind.squashing, lower, upper, gains⟩ hidden =
      .ok (List.zipWith (fun v p => lifted kind.squashing.activate v p.1 p.2.1 p.2.2) hidden
        (List.zip lower (List.zip upper gains))) :=
    Vec.zipExact4_eq_ok.2 ⟨hhn.trans hn.symm, hupper, hgains, rfl⟩
  obtain ⟨-, hyn, hycoords⟩ := Vec.coords_of_zipExact4 hactivate hn
  rw [hactivate]
  refine congrArg Except.ok (Vec.eq_of_coords_eq hyn hxn (funext fun i => ?_))
  rw [hycoords, hcoords]
  exact lifted_inverse kind (hgain i) (hx i)

end HopfieldDescent.BoxMap

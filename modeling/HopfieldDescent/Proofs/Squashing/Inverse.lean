import Mathlib
import HopfieldDescent.Proofs.Squashing.Curvature

/-!
# Inverses of the squashing functions

On the open unit interval each squashing function undoes the inverse that comes with it: the hidden
state of a point strictly inside the box is squashed back to that point.
-/

namespace HopfieldDescent

variable {gain : ℝ}

namespace PiecewiseLinear

/-- The clipped line is a line, cut off at both ends of the unit interval. -/
lemma activate_eq (z gain : ℝ) :
    activate z gain = max 0 (min (gain * (z - 1 / 2) + 1 / 2) 1) := by
  simp only [activate, Scalar.literal_zero, Scalar.literal_one, Scalar.literal_half,
    Scalar.clamp_real zero_le_one]

/-- The line undoes its reading backwards. -/
lemma activate_inverse (hgain : 0 < gain) {v : ℝ} (hv : v ∈ Set.Ioo (0 : ℝ) 1) :
    activate (inverse v gain) gain = v := by
  have hinverse : inverse v gain = (v - 1 / 2) / gain + 1 / 2 := by
    simp only [inverse, Scalar.literal_zero, Scalar.literal_one, Scalar.literal_half,
      if_pos (And.intro hv.1.le hv.2.le)]
  rw [activate_eq, hinverse, add_sub_cancel_right, mul_div_cancel₀ _ hgain.ne', sub_add_cancel,
    min_eq_left hv.2.le, max_eq_right hv.1.le]

end PiecewiseLinear

namespace SineWave

/-- The wave undoes the inverse sine. -/
lemma activate_inverse (hgain : 0 < gain) {v : ℝ} (hv : v ∈ Set.Ioo (0 : ℝ) 1) :
    activate (inverse v gain) gain = v := by
  have hinverse : inverse v gain = Real.arcsin (2 * v - 1) / (2 * gain) + 1 / 2 := by
    simp only [inverse, Scalar.literal_zero, Scalar.literal_one, Scalar.literal_two,
      Scalar.literal_half, Scalar.arcsin_real, if_pos (And.intro hv.1.le hv.2.le)]
  have hphase : phase (inverse v gain) gain = Real.arcsin (2 * v - 1) := by
    rw [phase_eq, hinverse, add_sub_cancel_right, mul_div_cancel₀ _ (by positivity), clipped_eq,
      min_eq_left (Real.arcsin_le_pi_div_two _), max_eq_right (Real.neg_pi_div_two_le_arcsin _)]
  rw [activate_eq_sin_phase hgain, hphase,
    Real.sin_arcsin (by linarith [hv.1]) (by linarith [hv.2])]
  ring

end SineWave

namespace ExponentialBranches

/-- The branches undo the logarithms. -/
lemma activate_inverse (hgain : 0 < gain) {v : ℝ} (hv : v ∈ Set.Ioo (0 : ℝ) 1) :
    activate (inverse v gain) gain = v := by
  have hcancel (a : ℝ) : 2 * gain * (a / (2 * gain)) = a := mul_div_cancel₀ _ (by positivity)
  unfold activate inverse
  simp only [Scalar.literal_zero, Scalar.literal_one, Scalar.literal_two, Scalar.literal_half,
    Scalar.log_real, Scalar.exp_real, Scalar.logTwo_real, if_neg hv.1.not_ge, if_neg hv.2.not_ge]
  rcases lt_or_ge v (1 / 2) with hlt | hge
  · have hlog : Real.log (2 * v) / (2 * gain) < 0 :=
      div_neg_of_neg_of_pos (Real.log_neg (by linarith [hv.1]) (by linarith)) (by positivity)
    rw [if_pos hlt, if_neg (by linarith), add_sub_cancel_left, hcancel, Real.exp_sub,
      Real.exp_log two_pos, Real.exp_log (by linarith [hv.1])]
    ring
  · have hpos : 0 < 2 * (1 - v) := by linarith [hv.2]
    rw [if_neg hge.not_gt]
    split_ifs with hcentre
    · rw [sub_sub_cancel, hcancel, Real.exp_sub, Real.exp_log two_pos, Real.exp_log hpos]
      ring
    · have hlog : Real.log (2 * (1 - v)) / (2 * gain) = 0 := by
        refine le_antisymm (div_nonpos_of_nonpos_of_nonneg ?_ (by positivity)) (by linarith)
        exact Real.log_nonpos hpos.le (by linarith)
      have hone : 2 * (1 - v) = 1 := by
        rw [div_eq_zero_iff, or_iff_left (by positivity)] at hlog
        exact Real.eq_one_of_pos_of_log_eq_zero hpos hlog
      rw [hlog, sub_zero, sub_self, mul_zero, zero_sub, Real.exp_neg, Real.exp_log two_pos]
      linarith

end ExponentialBranches

namespace HyperbolicTangent

/-- The logarithm of the ratio is the inverse hyperbolic tangent. -/
lemma artanh_real {y : ℝ} (hy : y ∈ Set.Ioo (-1 : ℝ) 1) : artanh y = Real.artanh y := by
  have hne : 1 - y ≠ 0 := by linarith [hy.2]
  rw [Real.artanh_eq_half_log (Set.Ioo_subset_Icc_self hy)]
  simp only [artanh, Scalar.literal_half, Scalar.literal_one, Scalar.literal_two,
    Scalar.logOnePlus_real]
  congr 2
  field_simp
  ring

/-- The function undoes its inverse. -/
lemma activate_inverse (hgain : 0 < gain) {v : ℝ} (hv : v ∈ Set.Ioo (0 : ℝ) 1) :
    activate (inverse v gain) gain = v := by
  have hmem : 2 * v - 1 ∈ Set.Ioo (-1 : ℝ) 1 := ⟨by linarith [hv.1], by linarith [hv.2]⟩
  unfold activate inverse
  simp only [Scalar.literal_zero, Scalar.literal_one, Scalar.literal_two, Scalar.literal_half,
    Scalar.tanh_real, if_neg hv.1.not_ge, if_neg hv.2.not_ge, artanh_real hmem]
  rw [add_sub_cancel_right, mul_div_cancel₀ _ (by positivity), Real.tanh_artanh hmem]
  ring

end HyperbolicTangent

/-- On the open unit interval a squashing function undoes its inverse. -/
theorem Activation.activate_inverse (kind : Activation) (hgain : 0 < gain) {v : ℝ}
    (hv : v ∈ Set.Ioo (0 : ℝ) 1) :
    kind.squashing.activate (kind.squashing.inverse v gain) gain = v := by
  cases kind with
  | piecewiseLinear => exact PiecewiseLinear.activate_inverse hgain hv
  | sine => exact SineWave.activate_inverse hgain hv
  | exponential => exact ExponentialBranches.activate_inverse hgain hv
  | hyperbolicTangent => exact HyperbolicTangent.activate_inverse hgain hv
  | identity => rfl

end HopfieldDescent

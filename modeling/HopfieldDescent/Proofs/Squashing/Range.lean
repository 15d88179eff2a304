import Mathlib
import HopfieldDescent.Proofs.Scalar.Exact
import HopfieldDescent.Squashing

/-!
# The range of the squashing functions

Every squashing function but the identity takes all hidden coordinates to the unit interval,
whatever its gain, as long as the gain is positive.
-/

namespace HopfieldDescent

variable {gain : ℝ}

/-- The clipped line stays in the unit interval. -/
lemma PiecewiseLinear.activate_mem_Icc (z gain : ℝ) : activate z gain ∈ Set.Icc (0 : ℝ) 1 := by
  unfold activate
  have hle : (0.0 : ℝ) ≤ 1.0 := by norm_num
  have h := Scalar.clamp_mem_Icc hle (gain * (z - 0.5) + 0.5)
  exact ⟨by linarith [h.1], by linarith [h.2]⟩

/-- Half a sine, moved up by one half, stays in the unit interval. -/
lemma SineWave.activate_mem_Icc (z gain : ℝ) : activate z gain ∈ Set.Icc (0 : ℝ) 1 := by
  unfold activate
  dsimp only
  split_ifs
  · norm_num
  · norm_num
  · have hupper := Real.sin_le_one (2.0 * gain * (z - 0.5))
    have hlower := Real.neg_one_le_sin (2.0 * gain * (z - 0.5))
    simp only [Scalar.sin_real, Set.mem_Icc]
    norm_num at hupper hlower ⊢
    exact ⟨by linarith, by linarith⟩

/-- Each exponential branch is at most one half at the centre and falls away from it. -/
lemma ExponentialBranches.activate_mem_Icc (hgain : 0 < gain) (z : ℝ) :
    activate z gain ∈ Set.Icc (0 : ℝ) 1 := by
  have hlog : 0 < Real.log 2 := Real.log_pos one_lt_two
  unfold activate
  split_ifs with hz
  · have hexponent : 2.0 * gain * (0.5 - z) - Real.log 2 ≤ 0 := by
      have : gain * (0.5 - z) ≤ 0 := mul_nonpos_of_nonneg_of_nonpos hgain.le (by linarith)
      norm_num at this ⊢
      linarith
    have hexp := Real.exp_le_one_iff.2 hexponent
    have hpos := Real.exp_pos (2.0 * gain * (0.5 - z) - Real.log 2)
    simp only [Scalar.exp_real, Scalar.logTwo_real, Set.mem_Icc]
    norm_num at hexp hpos ⊢
    exact ⟨hexp, hpos.le⟩
  · have hexponent : 2.0 * gain * (z - 0.5) - Real.log 2 ≤ 0 := by
      have : gain * (z - 0.5) ≤ 0 := mul_nonpos_of_nonneg_of_nonpos hgain.le (by linarith)
      norm_num at this ⊢
      linarith
    exact ⟨(Real.exp_pos _).le, Real.exp_le_one_iff.2 hexponent⟩

/-- The hyperbolic tangent lies between minus one and one. -/
lemma HyperbolicTangent.activate_mem_Icc (z gain : ℝ) : activate z gain ∈ Set.Icc (0 : ℝ) 1 := by
  have hupper := Real.tanh_lt_one (2.0 * gain * (z - 0.5))
  have hlower := Real.neg_one_lt_tanh (2.0 * gain * (z - 0.5))
  unfold activate
  simp only [Scalar.tanh_real, Set.mem_Icc]
  norm_num at hupper hlower ⊢
  exact ⟨by linarith, by linarith⟩

/-- A squashing function squashes, unless it is the identity. -/
theorem Activation.activate_mem_Icc {kind : Activation} (hkind : kind ≠ .identity)
    (hgain : 0 < gain) (z : ℝ) : kind.squashing.activate z gain ∈ Set.Icc (0 : ℝ) 1 := by
  cases kind with
  | piecewiseLinear => exact PiecewiseLinear.activate_mem_Icc z gain
  | sine => exact SineWave.activate_mem_Icc z gain
  | exponential => exact ExponentialBranches.activate_mem_Icc hgain z
  | hyperbolicTangent => exact HyperbolicTangent.activate_mem_Icc z gain
  | identity => exact absurd rfl hkind

end HopfieldDescent

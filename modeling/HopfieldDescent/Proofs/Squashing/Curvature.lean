import Mathlib
import HopfieldDescent.Proofs.Squashing.Range

/-!
# Slope and curvature of the squashing functions

The sine wave, the two exponentials and the hyperbolic tangent have a derivative everywhere, and the
proxy distance at a value is that derivative up to a constant factor: one half of it for the
exponentials, all of it for the others.  The derivative is at most the gain, and twice the squared
gain is a Lipschitz constant of it.

A step in a hidden coordinate therefore moves the value by the proxy distance times the step, up to
the squared gain times the squared step.  `Activation.IsSmooth` names the three functions; the
clipped line has corners, and the identity has a proxy distance of zero.
-/

namespace HopfieldDescent

/-! ## Functions with a Lipschitz derivative -/

section Calculus

variable {f d : ℝ → ℝ}

/-- A function with a bounded derivative changes at most by the bound times the step. -/
lemma abs_step_le_of_hasDerivAt {C : ℝ} (hf : ∀ z, HasDerivAt f (d z) z)
    (hbound : ∀ z, |d z| ≤ C) (z t : ℝ) : |f (z + t) - f z| ≤ C * |t| := by
  have h := convex_univ.norm_image_sub_le_of_norm_hasDerivWithin_le
    (fun x _ => (hf x).hasDerivWithinAt) (fun x _ => hbound x) (Set.mem_univ z)
    (Set.mem_univ (z + t))
  simpa only [Real.norm_eq_abs, add_sub_cancel_left] using h

/-- A function with a Lipschitz derivative is close to its tangent: the remainder is compared with
the square of the step by Cauchy's mean value theorem, whatever the sign of the step. -/
lemma abs_remainder_le_of_hasDerivAt {L : ℝ} (hf : ∀ z, HasDerivAt f (d z) z)
    (hlipschitz : ∀ u v, |d u - d v| ≤ L * |u - v|) (z t : ℝ) :
    |f (z + t) - f z - d z * t| ≤ L / 2 * t ^ 2 := by
  have hpath (s : ℝ) : HasDerivAt (fun s => z + s * t) t s := by
    simpa using ((hasDerivAt_id s).mul_const t).const_add z
  have hremainder (s : ℝ) : HasDerivAt (fun s => f (z + s * t) - d z * (s * t))
      (d (z + s * t) * t - d z * t) s := by
    have hline : HasDerivAt (fun s => d z * (s * t)) (d z * t) s := by
      simpa using ((hasDerivAt_id s).mul_const t).const_mul (d z)
    exact ((hf (z + s * t)).comp s (hpath s)).sub hline
  have hsquare (s : ℝ) : HasDerivAt (fun s => s ^ 2) (2 * s) s := by
    simpa using hasDerivAt_pow 2 s
  obtain ⟨s, ⟨hs, -⟩, heq⟩ := exists_ratio_hasDerivAt_eq_ratio_slope
    (fun s => f (z + s * t) - d z * (s * t)) _ zero_lt_one
    (fun s _ => (hremainder s).continuousAt.continuousWithinAt) (fun s _ => hremainder s)
    (fun s => s ^ 2) _ (fun s _ => (hsquare s).continuousAt.continuousWithinAt)
    (fun s _ => hsquare s)
  have hslope : f (z + t) - f z - d z * t = (d (z + s * t) - d z) * t / (2 * s) := by
    simp only [one_mul, zero_mul, add_zero, mul_zero, sub_zero] at heq
    rw [eq_div_iff (by positivity)]
    linear_combination -heq
  have hchange : |d (z + s * t) - d z| ≤ L * (s * |t|) := by
    have := hlipschitz (z + s * t) z
    rwa [add_sub_cancel_left, abs_mul, abs_of_pos hs] at this
  rw [hslope, abs_div, abs_mul, abs_of_pos (by positivity : (0 : ℝ) < 2 * s),
    div_le_iff₀ (by positivity)]
  calc |d (z + s * t) - d z| * |t| ≤ L * (s * |t|) * |t| := by gcongr
    _ = L / 2 * |t| ^ 2 * (2 * s) := by ring
    _ = L / 2 * t ^ 2 * (2 * s) := by rw [sq_abs]

/-- A function that follows one differentiable function up to a point and another one from there on
is differentiable, if the two derivatives fit. -/
lemma hasDerivAt_of_sides {g h : ℝ → ℝ} {c : ℝ} (hleft : ∀ z ≤ c, f z = g z)
    (hright : ∀ z, c ≤ z → f z = h z) (hg : ∀ z ≤ c, HasDerivAt g (d z) z)
    (hh : ∀ z, c ≤ z → HasDerivAt h (d z) z) (z : ℝ) : HasDerivAt f (d z) z := by
  rcases lt_trichotomy z c with hz | rfl | hz
  · refine (hg z hz.le).congr_of_eventuallyEq ?_
    filter_upwards [Iio_mem_nhds hz] with w hw
    exact hleft w (le_of_lt hw)
  · rw [← hasDerivWithinAt_univ, ← Set.Iic_union_Ici (a := z)]
    exact ((hg z le_rfl).hasDerivWithinAt.congr hleft (hleft z le_rfl)).union
      ((hh z le_rfl).hasDerivWithinAt.congr hright (hright z le_rfl))
  · refine (hh z hz.le).congr_of_eventuallyEq ?_
    filter_upwards [Ioi_mem_nhds hz] with w hw
    exact hright w (le_of_lt hw)

end Calculus

variable {gain : ℝ}

/-! ## Sine wave -/

namespace SineWave

/-- An angle clipped to a quarter turn on each side. -/
noncomputable def clipped (angle : ℝ) : ℝ :=
  max (-(Real.pi / 2.0)) (min angle (Real.pi / 2.0))

lemma clipped_eq (angle : ℝ) :
    clipped angle = max (-(Real.pi / 2)) (min angle (Real.pi / 2)) := by
  rw [clipped, Scalar.literal_two]

lemma clipped_mem_Icc (angle : ℝ) : clipped angle ∈ Set.Icc (-(Real.pi / 2)) (Real.pi / 2) := by
  have := Real.pi_pos
  rw [clipped_eq]
  exact ⟨le_max_left _ _, max_le (by linarith) (min_le_right _ _)⟩

/-- Clipping is odd. -/
lemma clipped_neg (angle : ℝ) : clipped (-angle) = -clipped angle := by
  have hpi : -(Real.pi / 2) ≤ Real.pi / 2 := neg_le_self (by positivity)
  rw [clipped_eq, clipped_eq, max_min_distrib_left, max_eq_right hpi, ← min_neg_neg, neg_neg,
    ← max_neg_neg, min_comm, max_comm]

/-- Clipping does not enlarge distances. -/
lemma abs_clipped_sub_le (a b : ℝ) : |clipped a - clipped b| ≤ |a - b| := by
  rw [clipped_eq, clipped_eq, max_comm, max_comm (-(Real.pi / 2))]
  refine (abs_max_sub_max_le_abs _ _ _).trans ?_
  rcases abs_min_sub_min_le_max a (Real.pi / 2) b (Real.pi / 2) |> le_max_iff.1 with h | h
  · exact h
  · rw [sub_self, abs_zero] at h
    exact h.trans (abs_nonneg _)

/-- The sine of the clipped angle has a derivative everywhere, because the cosine vanishes where it
is glued to the constants. -/
lemma hasDerivAt_sin_clipped (angle : ℝ) :
    HasDerivAt (fun a => Real.sin (clipped a)) (Real.cos (clipped angle)) angle := by
  have hpi := Real.pi_pos
  -- clipped from above only
  have habove (b : ℝ) : HasDerivAt (fun a => Real.sin (min a (Real.pi / 2)))
      (Real.cos (min b (Real.pi / 2))) b := by
    refine hasDerivAt_of_sides (c := Real.pi / 2) (g := Real.sin)
      (h := fun _ => Real.sin (Real.pi / 2)) (d := fun b => Real.cos (min b (Real.pi / 2)))
      ?_ ?_ ?_ ?_ b
    · intro a ha
      rw [min_eq_left ha]
    · intro a ha
      rw [min_eq_right ha]
    · intro a ha
      rw [min_eq_left ha]
      exact Real.hasDerivAt_sin a
    · intro a ha
      rw [min_eq_right ha, Real.cos_pi_div_two]
      exact hasDerivAt_const a _
  refine hasDerivAt_of_sides (c := -(Real.pi / 2)) (g := fun _ => Real.sin (-(Real.pi / 2)))
    (h := fun a => Real.sin (min a (Real.pi / 2))) (d := fun b => Real.cos (clipped b))
    ?_ ?_ ?_ ?_ angle
  · intro a ha
    rw [clipped_eq, max_eq_left ((min_le_left _ _).trans ha)]
  · intro a ha
    rw [clipped_eq, max_eq_right (le_min ha (by linarith))]
  · intro a ha
    rw [clipped_eq, max_eq_left ((min_le_left _ _).trans ha), Real.cos_neg, Real.cos_pi_div_two]
    exact hasDerivAt_const a _
  · intro a ha
    rw [clipped_eq, max_eq_right (le_min ha (by linarith))]
    exact habove a

/-- Where a hidden coordinate lies in the wave. -/
noncomputable def phase (z gain : ℝ) : ℝ := clipped (2.0 * gain * (z - 0.5))

lemma phase_eq (z gain : ℝ) : phase z gain = clipped (2 * gain * (z - 1 / 2)) := by
  rw [phase, Scalar.literal_two, Scalar.literal_half]

/-- The wave is the sine of the phase, moved to the unit interval. -/
lemma activate_eq_sin_phase (hgain : 0 < gain) (z : ℝ) :
    activate z gain = 1 / 2 * Real.sin (phase z gain) + 1 / 2 := by
  have hpi := Real.pi_pos
  have hwindow : Real.pi / 4 / gain * (2 * gain) = Real.pi / 2 := by
    field_simp
    ring
  rw [phase_eq, clipped_eq]
  unfold activate
  simp only [Scalar.literal_half, Scalar.literal_one, Scalar.literal_zero, Scalar.literal_two,
    Scalar.quarterPi_real, Scalar.sin_real]
  split_ifs with hupper hlower
  · have hle : Real.pi / 2 ≤ 2 * gain * (z - 1 / 2) := by
      rw [← hwindow]
      nlinarith
    rw [min_eq_right hle, max_eq_right (by linarith), Real.sin_pi_div_two]
    norm_num
  · have hle : 2 * gain * (z - 1 / 2) ≤ -(Real.pi / 2) := by
      rw [← hwindow]
      nlinarith
    rw [min_eq_left (by linarith), max_eq_left hle, Real.sin_neg, Real.sin_pi_div_two]
    norm_num
  · have hle : 2 * gain * (z - 1 / 2) ≤ Real.pi / 2 := by
      rw [← hwindow]
      nlinarith
    have hge : -(Real.pi / 2) ≤ 2 * gain * (z - 1 / 2) := by
      rw [← hwindow]
      nlinarith
    rw [min_eq_left hle, max_eq_right hge]

/-- The proxy distance of the wave is the gain times the cosine of the phase. -/
lemma proxy_activate (hgain : 0 < gain) (z : ℝ) :
    proxy (activate z gain) gain = gain * Real.cos (phase z gain) := by
  have hmem := activate_mem_Icc z gain
  have hcos : 0 ≤ Real.cos (phase z gain) := Real.cos_nonneg_of_mem_Icc (clipped_mem_Icc _)
  have hclamp : Scalar.clamp 0 1 (activate z gain) = activate z gain :=
    Scalar.clamp_of_mem_Icc hmem
  have hproduct : activate z gain * (1 - activate z gain) =
      (Real.cos (phase z gain) / 2) ^ 2 := by
    have := Real.sin_sq_add_cos_sq (phase z gain)
    rw [activate_eq_sin_phase hgain]
    nlinarith
  unfold proxy
  simp only [Scalar.sqrt_real, Scalar.literal_two, Scalar.literal_one, Scalar.literal_zero,
    hclamp]
  rw [mul_assoc, ← Real.sqrt_mul hmem.1, hproduct, Real.sqrt_sq (by positivity)]
  ring

/-- The slope of the wave. -/
lemma hasDerivAt_activate (hgain : 0 < gain) (z : ℝ) :
    HasDerivAt (fun z => activate z gain) (gain * Real.cos (phase z gain)) z := by
  have hfunction : (fun z => activate z gain) =
      fun z => 1 / 2 * Real.sin (clipped (2 * gain * (z - 1 / 2))) + 1 / 2 :=
    funext fun z => by rw [activate_eq_sin_phase hgain, phase_eq]
  have hangle : HasDerivAt (fun z => 2 * gain * (z - 1 / 2)) (2 * gain * 1) z :=
    ((hasDerivAt_id z).sub_const (1 / 2)).const_mul (2 * gain)
  rw [hfunction]
  refine ((((hasDerivAt_sin_clipped _).comp z hangle).const_mul (1 / 2)).add_const
    (1 / 2)).congr_deriv ?_
  rw [phase_eq]
  ring

/-- The slope of the wave changes at most by twice the squared gain times the step. -/
lemma abs_slope_sub_le (hgain : 0 < gain) (u v : ℝ) :
    |gain * Real.cos (phase u gain) - gain * Real.cos (phase v gain)| ≤
      2 * gain ^ 2 * |u - v| := by
  have hphase : |phase u gain - phase v gain| ≤ 2 * gain * |u - v| := by
    rw [phase_eq, phase_eq]
    refine (abs_clipped_sub_le _ _).trans_eq ?_
    rw [← mul_sub, abs_mul, abs_of_pos (by positivity), sub_sub_sub_cancel_right]
  calc |gain * Real.cos (phase u gain) - gain * Real.cos (phase v gain)|
      = gain * |Real.cos (phase u gain) - Real.cos (phase v gain)| := by
        rw [← mul_sub, abs_mul, abs_of_pos hgain]
    _ ≤ gain * |phase u gain - phase v gain| :=
        mul_le_mul_of_nonneg_left (Real.abs_cos_sub_cos_le _ _) hgain.le
    _ ≤ gain * (2 * gain * |u - v|) := by gcongr
    _ = 2 * gain ^ 2 * |u - v| := by ring

end SineWave

/-! ## Two exponentials -/

namespace ExponentialBranches

/-- The slope falls away exponentially from the gain at the centre. -/
noncomputable def slope (z gain : ℝ) : ℝ := gain * Real.exp (-|2.0 * gain * (z - 0.5)|)

lemma slope_eq (z gain : ℝ) : slope z gain = gain * Real.exp (-|2 * gain * (z - 1 / 2)|) := by
  rw [slope, Scalar.literal_two, Scalar.literal_half]

/-- The slope is twice the proxy distance. -/
lemma two_mul_proxy_activate (hgain : 0 < gain) (z : ℝ) :
    2 * proxy (activate z gain) gain = slope z gain := by
  have hclamp : Scalar.clamp 0 1 (activate z gain) = activate z gain :=
    Scalar.clamp_of_mem_Icc (activate_mem_Icc hgain z)
  have hhalf (y : ℝ) (hy : y ≤ 0) :
      Real.exp (y - Real.log 2) = Real.exp y / 2 ∧ Real.exp y / 2 ≤ 1 / 2 := by
    rw [Real.exp_sub, Real.exp_log two_pos]
    exact ⟨rfl, by linarith [Real.exp_le_one_iff.2 hy]⟩
  rw [slope_eq]
  unfold proxy
  simp only [Scalar.literal_one, Scalar.literal_zero, hclamp, Scalar.minNum_real]
  unfold activate
  simp only [Scalar.literal_half, Scalar.literal_one, Scalar.literal_two, Scalar.exp_real,
    Scalar.logTwo_real]
  split_ifs with hz
  · have hy : 2 * gain * (1 / 2 - z) ≤ 0 :=
      mul_nonpos_of_nonneg_of_nonpos (by positivity) (by linarith)
    obtain ⟨hexp, hle⟩ := hhalf _ hy
    rw [hexp, sub_sub_cancel, min_eq_right (by linarith), abs_of_nonneg (by linarith)]
    rw [show -(2 * gain * (z - 1 / 2)) = 2 * gain * (1 / 2 - z) by ring]
    ring
  · have hy : 2 * gain * (z - 1 / 2) ≤ 0 :=
      mul_nonpos_of_nonneg_of_nonpos (by positivity) (by linarith)
    obtain ⟨hexp, hle⟩ := hhalf _ hy
    rw [hexp, min_eq_left (by linarith), abs_of_nonpos hy, neg_neg]
    ring

/-- The slope of the branches, which meet in the centre. -/
lemma hasDerivAt_activate (hgain : 0 < gain) (z : ℝ) :
    HasDerivAt (fun z => activate z gain) (slope z gain) z := by
  have hcentre : Real.exp (2 * gain * (1 / 2 - 1 / 2) - Real.log 2) = 1 / 2 := by
    rw [sub_self, mul_zero, zero_sub, Real.exp_neg, Real.exp_log two_pos, one_div]
  refine hasDerivAt_of_sides (c := 1 / 2)
    (g := fun z => Real.exp (2 * gain * (z - 1 / 2) - Real.log 2))
    (h := fun z => 1 - Real.exp (2 * gain * (1 / 2 - z) - Real.log 2))
    (d := fun z => slope z gain) ?_ ?_ ?_ ?_ z
  · intro z hz
    simp only [activate, Scalar.literal_half, Scalar.literal_two, Scalar.exp_real,
      Scalar.logTwo_real, if_neg hz.not_gt]
  · intro z hz
    simp only [activate, Scalar.literal_half, Scalar.literal_one, Scalar.literal_two,
      Scalar.exp_real, Scalar.logTwo_real]
    split_ifs with hlt
    · rfl
    · obtain rfl : z = 1 / 2 := le_antisymm (not_lt.1 hlt) hz
      rw [hcentre]
      norm_num
  · intro z hz
    have hexponent : HasDerivAt (fun z => 2 * gain * (z - 1 / 2) - Real.log 2)
        (2 * gain * 1) z :=
      (((hasDerivAt_id z).sub_const (1 / 2)).const_mul (2 * gain)).sub_const _
    refine hexponent.exp.congr_deriv ?_
    have hy : 2 * gain * (z - 1 / 2) ≤ 0 :=
      mul_nonpos_of_nonneg_of_nonpos (by positivity) (by linarith)
    rw [slope_eq, abs_of_nonpos hy, neg_neg, Real.exp_sub, Real.exp_log two_pos]
    ring
  · intro z hz
    have hexponent : HasDerivAt (fun z => 2 * gain * (1 / 2 - z) - Real.log 2)
        (2 * gain * -1) z :=
      (((hasDerivAt_id z).const_sub (1 / 2)).const_mul (2 * gain)).sub_const _
    refine (hexponent.exp.const_sub 1).congr_deriv ?_
    have hy : 0 ≤ 2 * gain * (z - 1 / 2) := mul_nonneg (by positivity) (by linarith)
    rw [slope_eq, abs_of_nonneg hy, Real.exp_sub, Real.exp_log two_pos,
      show -(2 * gain * (z - 1 / 2)) = 2 * gain * (1 / 2 - z) by ring]
    ring

/-- To the left of zero the exponential does not enlarge distances. -/
lemma abs_exp_sub_exp_le {a b : ℝ} (ha : a ≤ 0) (hb : b ≤ 0) :
    |Real.exp a - Real.exp b| ≤ |a - b| := by
  have h := (convex_Iic (0 : ℝ)).norm_image_sub_le_of_norm_hasDerivWithin_le
    (fun x _ => (Real.hasDerivAt_exp x).hasDerivWithinAt)
    (fun x hx => (Real.norm_of_nonneg (Real.exp_pos x).le).trans_le (Real.exp_le_one_iff.2 hx))
    hb ha
  simpa only [Real.norm_eq_abs, one_mul] using h

/-- The slope changes at most by twice the squared gain times the step. -/
lemma abs_slope_sub_le (hgain : 0 < gain) (u v : ℝ) :
    |slope u gain - slope v gain| ≤ 2 * gain ^ 2 * |u - v| := by
  set a := 2 * gain * (u - 1 / 2) with ha
  set b := 2 * gain * (v - 1 / 2) with hb
  have hdistance : |a - b| = 2 * gain * |u - v| := by
    rw [ha, hb, ← mul_sub, abs_mul, abs_of_pos (by positivity), sub_sub_sub_cancel_right]
  have hexp : |Real.exp (-|a|) - Real.exp (-|b|)| ≤ |a - b| := by
    refine (abs_exp_sub_exp_le (neg_nonpos.2 (abs_nonneg a)) (neg_nonpos.2 (abs_nonneg b))).trans ?_
    rw [neg_sub_neg, abs_sub_comm]
    exact abs_abs_sub_abs_le_abs_sub a b
  calc |slope u gain - slope v gain| = gain * |Real.exp (-|a|) - Real.exp (-|b|)| := by
        rw [slope_eq, slope_eq, ← mul_sub, abs_mul, abs_of_pos hgain]
    _ ≤ gain * |a - b| := mul_le_mul_of_nonneg_left hexp hgain.le
    _ = 2 * gain ^ 2 * |u - v| := by rw [hdistance]; ring

end ExponentialBranches

/-! ## Hyperbolic tangent -/

namespace HyperbolicTangent

lemma hasDerivAt_tanh (y : ℝ) : HasDerivAt Real.tanh (1 - Real.tanh y ^ 2) y := by
  have hcosh := (Real.cosh_pos y).ne'
  have hfunction : Real.tanh = fun y => Real.sinh y / Real.cosh y :=
    funext fun y => Real.tanh_eq_sinh_div_cosh y
  rw [hfunction]
  refine ((Real.hasDerivAt_sinh y).div (Real.hasDerivAt_cosh y) hcosh).congr_deriv ?_
  field_simp

/-- The slope of the hyperbolic tangent, moved to the unit interval. -/
noncomputable def slope (z gain : ℝ) : ℝ :=
  gain * (1 - Real.tanh (2.0 * gain * (z - 0.5)) ^ 2)

lemma slope_eq (z gain : ℝ) :
    slope z gain = gain * (1 - Real.tanh (2 * gain * (z - 1 / 2)) ^ 2) := by
  rw [slope, Scalar.literal_two, Scalar.literal_half]

/-- The slope is the proxy distance. -/
lemma proxy_activate (z gain : ℝ) : proxy (activate z gain) gain = slope z gain := by
  have hclamp : Scalar.clamp 0 1 (activate z gain) = activate z gain :=
    Scalar.clamp_of_mem_Icc (activate_mem_Icc z gain)
  rw [slope_eq]
  unfold proxy
  simp only [Scalar.literal_one, Scalar.literal_zero, hclamp]
  unfold activate
  simp only [Scalar.literal_half, Scalar.literal_one, Scalar.literal_two, Scalar.tanh_real]
  norm_num
  ring

/-- The slope of the function. -/
lemma hasDerivAt_activate (z gain : ℝ) :
    HasDerivAt (fun z => activate z gain) (slope z gain) z := by
  have hfunction : (fun z => activate z gain) =
      fun z => 1 / 2 * (Real.tanh (2 * gain * (z - 1 / 2)) + 1) := by
    funext z
    simp only [activate, Scalar.literal_half, Scalar.literal_one, Scalar.literal_two,
      Scalar.tanh_real]
  have hangle : HasDerivAt (fun z => 2 * gain * (z - 1 / 2)) (2 * gain * 1) z :=
    ((hasDerivAt_id z).sub_const (1 / 2)).const_mul (2 * gain)
  rw [hfunction]
  refine ((((hasDerivAt_tanh _).comp z hangle).add_const 1).const_mul (1 / 2)).congr_deriv ?_
  rw [slope_eq]
  ring

/-- The squared hyperbolic tangent does not enlarge distances: the cubic in its derivative stays
below one half on the unit interval. -/
lemma abs_tanh_sq_sub_le (a b : ℝ) : |Real.tanh a ^ 2 - Real.tanh b ^ 2| ≤ |a - b| := by
  have hderivative (y : ℝ) : HasDerivAt (fun y => Real.tanh y ^ 2)
      (2 * Real.tanh y * (1 - Real.tanh y ^ 2)) y := by
    refine ((hasDerivAt_tanh y).pow 2).congr_deriv ?_
    norm_num
  have hbound (y : ℝ) : |2 * Real.tanh y * (1 - Real.tanh y ^ 2)| ≤ 1 := by
    have hlt := Real.abs_tanh_lt_one y
    have hnonneg := abs_nonneg (Real.tanh y)
    have hsquare : 0 ≤ 1 - Real.tanh y ^ 2 := by
      rw [← sq_abs]
      nlinarith
    rw [abs_mul, abs_mul, abs_two, abs_of_nonneg hsquare, ← sq_abs (Real.tanh y)]
    nlinarith [mul_nonneg hnonneg (sq_nonneg (|Real.tanh y| - 3 / 5)),
      sq_nonneg (|Real.tanh y| - 3 / 5)]
  have h := abs_step_le_of_hasDerivAt hderivative hbound b (a - b)
  rwa [add_sub_cancel, one_mul] at h

/-- The slope changes at most by twice the squared gain times the step. -/
lemma abs_slope_sub_le (hgain : 0 < gain) (u v : ℝ) :
    |slope u gain - slope v gain| ≤ 2 * gain ^ 2 * |u - v| := by
  set a := 2 * gain * (u - 1 / 2) with ha
  set b := 2 * gain * (v - 1 / 2) with hb
  have hdistance : |a - b| = 2 * gain * |u - v| := by
    rw [ha, hb, ← mul_sub, abs_mul, abs_of_pos (by positivity), sub_sub_sub_cancel_right]
  calc |slope u gain - slope v gain| = gain * |Real.tanh a ^ 2 - Real.tanh b ^ 2| := by
        rw [slope_eq, slope_eq, ← mul_sub, abs_mul, abs_of_pos hgain, sub_sub_sub_cancel_left,
          abs_sub_comm]
    _ ≤ gain * |a - b| := mul_le_mul_of_nonneg_left (abs_tanh_sq_sub_le a b) hgain.le
    _ = 2 * gain ^ 2 * |u - v| := by rw [hdistance]; ring

end HyperbolicTangent

/-! ## The three functions together -/

namespace Activation

/-- Whether the squashing function has a derivative everywhere and follows it with its proxy
distance. -/
def IsSmooth (kind : Activation) : Prop :=
  kind = .sine ∨ kind = .exponential ∨ kind = .hyperbolicTangent

/-- The slope of a squashing function relative to its proxy distance. -/
noncomputable def slopeFactor : Activation → ℝ
  | .exponential => 2.0
  | .piecewiseLinear | .sine | .hyperbolicTangent | .identity => 1

lemma one_le_slopeFactor (kind : Activation) : 1 ≤ kind.slopeFactor := by
  cases kind <;> norm_num [slopeFactor]

variable {kind : Activation}

lemma IsSmooth.ne_identity (h : kind.IsSmooth) : kind ≠ .identity := by
  rintro rfl
  simp [IsSmooth] at h

/-- The slope of a smooth function is a multiple of its proxy distance. -/
theorem IsSmooth.hasDerivAt (h : kind.IsSmooth) (hgain : 0 < gain) (z : ℝ) :
    HasDerivAt (fun z => kind.squashing.activate z gain)
      (kind.slopeFactor * kind.squashing.proxy (kind.squashing.activate z gain) gain) z := by
  rcases h with rfl | rfl | rfl
  · refine (SineWave.hasDerivAt_activate hgain z).congr_deriv ?_
    rw [slopeFactor, one_mul]
    exact (SineWave.proxy_activate hgain z).symm
  · refine (ExponentialBranches.hasDerivAt_activate hgain z).congr_deriv ?_
    rw [slopeFactor, Scalar.literal_two]
    exact (ExponentialBranches.two_mul_proxy_activate hgain z).symm
  · refine (HyperbolicTangent.hasDerivAt_activate z gain).congr_deriv ?_
    rw [slopeFactor, one_mul]
    exact (HyperbolicTangent.proxy_activate z gain).symm

/-- The slope of a smooth function is at most the gain. -/
lemma IsSmooth.abs_slope_le (h : kind.IsSmooth) (hgain : 0 < gain) (z : ℝ) :
    |kind.slopeFactor * kind.squashing.proxy (kind.squashing.activate z gain) gain| ≤ gain := by
  rcases h with rfl | rfl | rfl
  · simp only [slopeFactor, one_mul, squashing, SineWave.proxy_activate hgain]
    rw [abs_mul, abs_of_pos hgain]
    exact mul_le_of_le_one_right hgain.le (Real.abs_cos_le_one _)
  · simp only [slopeFactor, Scalar.literal_two, squashing,
      ExponentialBranches.two_mul_proxy_activate hgain]
    rw [ExponentialBranches.slope_eq, abs_mul, abs_of_pos hgain, Real.abs_exp]
    exact mul_le_of_le_one_right hgain.le (Real.exp_le_one_iff.2 (neg_nonpos.2 (abs_nonneg _)))
  · simp only [slopeFactor, one_mul, squashing, HyperbolicTangent.proxy_activate]
    have hsquare := Real.tanh_sq_lt_one (2 * gain * (z - 1 / 2))
    rw [HyperbolicTangent.slope_eq, abs_mul, abs_of_pos hgain, abs_of_pos (by linarith)]
    refine mul_le_of_le_one_right hgain.le ?_
    linarith [sq_nonneg (Real.tanh (2 * gain * (z - 1 / 2)))]

/-- The slope of a smooth function changes at most by twice the squared gain times the step. -/
lemma IsSmooth.abs_slope_sub_le (h : kind.IsSmooth) (hgain : 0 < gain) (u v : ℝ) :
    |kind.slopeFactor * kind.squashing.proxy (kind.squashing.activate u gain) gain -
      kind.slopeFactor * kind.squashing.proxy (kind.squashing.activate v gain) gain| ≤
        2 * gain ^ 2 * |u - v| := by
  rcases h with rfl | rfl | rfl
  · simp only [slopeFactor, one_mul, squashing, SineWave.proxy_activate hgain]
    exact SineWave.abs_slope_sub_le hgain u v
  · simp only [slopeFactor, Scalar.literal_two, squashing,
      ExponentialBranches.two_mul_proxy_activate hgain]
    exact ExponentialBranches.abs_slope_sub_le hgain u v
  · simp only [slopeFactor, one_mul, squashing, HyperbolicTangent.proxy_activate]
    exact HyperbolicTangent.abs_slope_sub_le hgain u v

end Activation

end HopfieldDescent

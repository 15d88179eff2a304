import Mathlib
import HopfieldDescent.Proofs.Squashing.Inverse
import HopfieldDescent.Proofs.Squashing.Proxy

/-!
# Squashing functions where they are not saturated

A squashing function never falls.  At a hidden coordinate whose value lies strictly between zero and
one it has a derivative, the proxy distance up to a constant factor, which is positive.  Such a
value is therefore taken once only, and since the function undoes its inverse, the inverse undoes
the function there (`Activation.inverse_activate`).  The wave needs no argument of its own for this,
although its inverse sine has many branches.

The derivative of the clipped line is known only where the line is not clipped; the other functions
have one everywhere.

All squashing functions are symmetric about the centre: reflected hidden coordinates have reflected
values.
-/

namespace HopfieldDescent

variable {gain z : ℝ}

/-- Where a function that never falls has a positive slope, it does not stay at its value. -/
lemma lt_of_hasDerivAt_pos {f : ℝ → ℝ} {slope a b : ℝ} (hf : Monotone f)
    (hslope : HasDerivAt f slope a) (hpos : 0 < slope) (hab : a < b) : f a < f b := by
  by_contra hle
  have hconstant : HasDerivWithinAt f 0 (Set.Icc a b) a := by
    refine (hasDerivWithinAt_const a (Set.Icc a b) (f a)).congr ?_ rfl
    intro t ht
    exact le_antisymm ((hf ht.2).trans (not_lt.1 hle)) (hf ht.1)
  have hzero := (uniqueDiffOn_Icc hab a (Set.left_mem_Icc.2 hab.le)).eq_deriv _
    hslope.hasDerivWithinAt hconstant
  exact hpos.ne' hzero

/-! ## Clipped line -/

namespace PiecewiseLinear

/-- Where its value is not saturated, the line is not clipped. -/
lemma line_mem_Ioo (h : activate z gain ∈ Set.Ioo (0 : ℝ) 1) :
    gain * (z - 1 / 2) + 1 / 2 ∈ Set.Ioo (0 : ℝ) 1 := by
  rw [activate_eq] at h
  constructor
  · by_contra hle
    rw [max_eq_left ((min_le_left _ _).trans (not_lt.1 hle))] at h
    exact lt_irrefl _ h.1
  · by_contra hge
    rw [min_eq_right (not_lt.1 hge), max_eq_right zero_le_one] at h
    exact lt_irrefl _ h.2

/-- The slope of the line, where it is not clipped. -/
lemma hasDerivAt_activate (h : activate z gain ∈ Set.Ioo (0 : ℝ) 1) :
    HasDerivAt (fun z => activate z gain) gain z := by
  have hline : HasDerivAt (fun z => gain * (z - 1 / 2) + 1 / 2) gain z :=
    ((((hasDerivAt_id z).sub_const (1 / 2)).const_mul gain).add_const (1 / 2)).congr_deriv
      (mul_one gain)
  refine hline.congr_of_eventuallyEq ?_
  filter_upwards [hline.continuousAt.preimage_mem_nhds (isOpen_Ioo.mem_nhds (line_mem_Ioo h))]
    with w hw
  rw [activate_eq, min_eq_left hw.2.le, max_eq_right hw.1.le]

/-- A longer hidden coordinate is not squashed to a smaller value. -/
lemma monotone_activate (hgain : 0 < gain) : Monotone fun z => activate z gain := by
  intro a b hab
  simp only [activate_eq]
  gcongr

/-- The clipped line is symmetric about its centre. -/
lemma activate_one_sub (z gain : ℝ) : activate (1 - z) gain = 1 - activate z gain := by
  have hline : gain * (1 - z - 1 / 2) + 1 / 2 = 1 - (gain * (z - 1 / 2) + 1 / 2) := by ring
  rw [activate_eq, activate_eq, hline]
  generalize gain * (z - 1 / 2) + 1 / 2 = t
  rcases le_total t 0 with hlow | hlow
  · rw [min_eq_right (by linarith), max_eq_right zero_le_one, min_eq_left (by linarith),
      max_eq_left hlow, sub_zero]
  · rw [min_eq_left (by linarith), max_eq_right (le_min hlow zero_le_one)]
    rcases le_total t 1 with hhigh | hhigh
    · rw [max_eq_right (by linarith), min_eq_left hhigh]
    · rw [max_eq_left (by linarith), min_eq_right hhigh, sub_self]

end PiecewiseLinear

/-! ## Symmetry of the smooth functions -/

/-- The wave is symmetric about its centre: the sine is odd, and so is the clipping. -/
lemma SineWave.activate_one_sub (hgain : 0 < gain) (z : ℝ) :
    activate (1 - z) gain = 1 - activate z gain := by
  have hphase : phase (1 - z) gain = -phase z gain := by
    rw [phase_eq, phase_eq, ← clipped_neg]
    congr 1
    ring
  rw [activate_eq_sin_phase hgain, activate_eq_sin_phase hgain, hphase, Real.sin_neg]
  ring

/-- The two branches are reflections of each other. -/
lemma ExponentialBranches.activate_one_sub (z gain : ℝ) :
    activate (1 - z) gain = 1 - activate z gain := by
  have hcentre : Real.exp (-Real.log 2) = 1 / 2 := by
    rw [Real.exp_neg, Real.exp_log two_pos, one_div]
  simp only [activate, Scalar.literal_half, Scalar.literal_one, Scalar.literal_two,
    Scalar.exp_real, Scalar.logTwo_real]
  rcases lt_trichotomy z (1 / 2) with hz | rfl | hz
  · rw [if_pos (by linarith), if_neg (by linarith)]
    ring_nf
  · norm_num [hcentre]
  · rw [if_neg (by linarith), if_pos hz, sub_sub_cancel]
    ring_nf

/-- The hyperbolic tangent is odd. -/
lemma HyperbolicTangent.activate_one_sub (z gain : ℝ) :
    activate (1 - z) gain = 1 - activate z gain := by
  simp only [activate, Scalar.literal_half, Scalar.literal_one, Scalar.literal_two,
    Scalar.tanh_real]
  rw [show 2 * gain * (1 - z - 1 / 2) = -(2 * gain * (z - 1 / 2)) by ring, Real.tanh_neg]
  ring

/-! ## All functions -/

namespace Activation

/-- Where a squashing function is not saturated, its slope is a multiple of the proxy distance. -/
theorem hasDerivAt_activate {kind : Activation} (hkind : kind ≠ .identity) (hgain : 0 < gain)
    (hz : kind.squashing.activate z gain ∈ Set.Ioo (0 : ℝ) 1) :
    HasDerivAt (fun z => kind.squashing.activate z gain)
      (kind.slopeFactor * kind.squashing.proxy (kind.squashing.activate z gain) gain) z := by
  cases kind with
  | piecewiseLinear =>
    refine (PiecewiseLinear.hasDerivAt_activate hz).congr_deriv ?_
    rw [slopeFactor, one_mul]
    simp only [squashing, PiecewiseLinear.proxy, Scalar.literal_zero, Scalar.literal_one]
    exact (if_pos hz).symm
  | sine => exact IsSmooth.hasDerivAt (.inl rfl) hgain z
  | exponential => exact IsSmooth.hasDerivAt (.inr (.inl rfl)) hgain z
  | hyperbolicTangent => exact IsSmooth.hasDerivAt (.inr (.inr rfl)) hgain z
  | identity => exact absurd rfl hkind

/-- A squashing function never falls. -/
theorem monotone_activate (kind : Activation) (hgain : 0 < gain) :
    Monotone fun z => kind.squashing.activate z gain := by
  have hsmooth (h : kind.IsSmooth) : Monotone fun z => kind.squashing.activate z gain := by
    refine monotone_of_hasDerivAt_nonneg (h.hasDerivAt hgain) fun z => ?_
    exact mul_nonneg (zero_le_one.trans kind.one_le_slopeFactor) (kind.proxy_nonneg hgain _)
  cases kind with
  | piecewiseLinear => exact PiecewiseLinear.monotone_activate hgain
  | sine => exact hsmooth (.inl rfl)
  | exponential => exact hsmooth (.inr (.inl rfl))
  | hyperbolicTangent => exact hsmooth (.inr (.inr rfl))
  | identity => exact monotone_id

/-- From a hidden coordinate where it is not saturated on, a squashing function rises. -/
lemma activate_lt_activate {kind : Activation} (hkind : kind ≠ .identity) (hgain : 0 < gain)
    (hz : kind.squashing.activate z gain ∈ Set.Ioo (0 : ℝ) 1) {w : ℝ} (hlt : z < w) :
    kind.squashing.activate z gain < kind.squashing.activate w gain :=
  lt_of_hasDerivAt_pos (kind.monotone_activate hgain) (hasDerivAt_activate hkind hgain hz)
    (mul_pos (zero_lt_one.trans_le kind.one_le_slopeFactor) (proxy_pos hkind hgain hz)) hlt

/-- Where a squashing function is not saturated, its inverse undoes it. -/
theorem inverse_activate (kind : Activation) (hgain : 0 < gain)
    (hz : kind.squashing.activate z gain ∈ Set.Ioo (0 : ℝ) 1) :
    kind.squashing.inverse (kind.squashing.activate z gain) gain = z := by
  by_cases hkind : kind = .identity
  · rw [hkind]
    rfl
  have hback := kind.activate_inverse hgain hz
  rcases lt_trichotomy (kind.squashing.inverse (kind.squashing.activate z gain) gain) z
    with hlt | heq | hgt
  · have hrises := activate_lt_activate hkind hgain (hback.symm ▸ hz) hlt
    exact absurd hback hrises.ne
  · exact heq
  · have hrises := activate_lt_activate hkind hgain hz hgt
    exact absurd hback hrises.ne'

/-- A squashing function is symmetric about the centre. -/
theorem activate_one_sub (kind : Activation) (hgain : 0 < gain) (z : ℝ) :
    kind.squashing.activate (1 - z) gain = 1 - kind.squashing.activate z gain := by
  cases kind with
  | piecewiseLinear => exact PiecewiseLinear.activate_one_sub z gain
  | sine => exact SineWave.activate_one_sub hgain z
  | exponential => exact ExponentialBranches.activate_one_sub z gain
  | hyperbolicTangent => exact HyperbolicTangent.activate_one_sub z gain
  | identity => rfl

end Activation

end HopfieldDescent

import Mathlib
import HopfieldDescent.BoxMap
import HopfieldDescent.Proofs.Vec.Coordinates

/-!
# Signs and zeros of the proxy distance

The proxy distance is the slope of a function that never falls, so that it is never negative.  It is
positive inside the unit interval, except for the identity, and vanishes from both ends on, where
the function saturates.  In a box it therefore vanishes in every coordinate that sits on a bound.
-/

namespace HopfieldDescent

/-! ## On the unit interval -/

namespace Activation

/-- No slope is negative. -/
lemma proxy_nonneg (kind : Activation) {gain : ℝ} (hgain : 0 < gain) (z : ℝ) :
    0 ≤ kind.squashing.proxy z gain := by
  obtain ⟨hlo, hhi⟩ := Scalar.clamp_mem_Icc zero_le_one z
  cases kind with
  | piecewiseLinear =>
    simp only [squashing, PiecewiseLinear.proxy]
    split_ifs
    · exact hgain.le
    · simp
  | sine =>
    simp only [squashing, SineWave.proxy, Scalar.literal_two, Scalar.sqrt_real]
    positivity
  | exponential =>
    simp only [squashing, ExponentialBranches.proxy, Scalar.literal_zero, Scalar.literal_one,
      Scalar.minNum_real]
    exact mul_nonneg hgain.le (le_min hlo (sub_nonneg.2 hhi))
  | hyperbolicTangent =>
    simp only [squashing, HyperbolicTangent.proxy, Scalar.literal_zero, Scalar.literal_one]
    have hrest : 0 ≤ 1 - Scalar.clamp 0 1 z := sub_nonneg.2 hhi
    norm_num at hlo hrest ⊢
    positivity
  | identity => simp [squashing]

/-- Outside the open unit interval there is no slope. -/
lemma proxy_eq_zero (kind : Activation) (gain : ℝ) {z : ℝ} (hz : z ∉ Set.Ioo (0 : ℝ) 1) :
    kind.squashing.proxy z gain = 0 := by
  have hclamp : Scalar.clamp 0 1 z = 0 ∨ Scalar.clamp 0 1 z = 1 := by
    rw [Scalar.clamp_real zero_le_one]
    by_cases hlow : 0 < z
    · right
      rw [min_eq_right (not_lt.1 fun hhigh => hz ⟨hlow, hhigh⟩), max_eq_right zero_le_one]
    · left
      rw [max_eq_left ((min_le_left _ _).trans (not_lt.1 hlow))]
  cases kind with
  | piecewiseLinear =>
    simp only [squashing, PiecewiseLinear.proxy, Scalar.literal_zero, Scalar.literal_one]
    exact if_neg hz
  | sine => rcases hclamp with h | h <;> simp [squashing, SineWave.proxy, h]
  | exponential => rcases hclamp with h | h <;> simp [squashing, ExponentialBranches.proxy, h]
  | hyperbolicTangent => rcases hclamp with h | h <;> simp [squashing, HyperbolicTangent.proxy, h]
  | identity => simp [squashing]

/-- Inside the open unit interval the slope is positive, except for that of the identity. -/
lemma proxy_pos {kind : Activation} (hkind : kind ≠ .identity) {gain : ℝ} (hgain : 0 < gain) {z : ℝ}
    (hz : z ∈ Set.Ioo (0 : ℝ) 1) : 0 < kind.squashing.proxy z gain := by
  have hclamp : Scalar.clamp 0 1 z = z := Scalar.clamp_of_mem_Icc (Set.Ioo_subset_Icc_self hz)
  have hlow : 0 < z := hz.1
  have hhigh : 0 < 1 - z := sub_pos.2 hz.2
  cases kind with
  | piecewiseLinear =>
    simp only [squashing, PiecewiseLinear.proxy, Scalar.literal_zero, Scalar.literal_one]
    rwa [if_pos (Set.mem_Ioo.1 hz)]
  | sine =>
    simp only [squashing, SineWave.proxy, Scalar.literal_zero, Scalar.literal_one,
      Scalar.literal_two, Scalar.sqrt_real, hclamp]
    positivity
  | exponential =>
    simp only [squashing, ExponentialBranches.proxy, Scalar.literal_zero, Scalar.literal_one,
      Scalar.minNum_real, hclamp]
    exact mul_pos hgain (lt_min hlow hhigh)
  | hyperbolicTangent =>
    simp only [squashing, HyperbolicTangent.proxy, Scalar.literal_zero, Scalar.literal_one, hclamp]
    positivity
  | identity => exact absurd rfl hkind

end Activation

/-! ## In a box -/

namespace BoxMap

variable {kind : Activation} {n : ℕ} {lower upper gain x proxy : Vec ℝ}

/-- No proxy distance is negative. -/
lemma coords_proxyDistance_nonneg (hlower : lower.length = n)
    (hgain : ∀ i, 0 < Vec.coords n gain i)
    (h : (BoxMap.mk kind.squashing lower upper gain).proxyDistance x = .ok proxy) (i : Fin n) :
    0 ≤ Vec.coords n proxy i := by
  obtain ⟨-, -, hcoords⟩ := Vec.coords_of_zipExact4 h hlower
  rw [hcoords]
  exact kind.proxy_nonneg (hgain i) _

/-- The proxy distance vanishes on a bound. -/
lemma coords_proxyDistance_eq_zero (hlower : lower.length = n) {i : Fin n}
    (hlt : Vec.coords n lower i < Vec.coords n upper i)
    (h : (BoxMap.mk kind.squashing lower upper gain).proxyDistance x = .ok proxy)
    (hx : Vec.coords n x i = Vec.coords n lower i ∨ Vec.coords n x i = Vec.coords n upper i) :
    Vec.coords n proxy i = 0 := by
  obtain ⟨-, -, hcoords⟩ := Vec.coords_of_zipExact4 h hlower
  rw [hcoords, normalized]
  rcases hx with hx | hx
  · rw [hx, sub_self, zero_div, kind.proxy_eq_zero _ (by simp)]
  · rw [hx, div_self (sub_pos.2 hlt).ne', kind.proxy_eq_zero _ (by simp)]

end BoxMap

end HopfieldDescent

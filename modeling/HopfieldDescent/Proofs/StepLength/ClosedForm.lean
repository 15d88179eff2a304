import Mathlib
import HopfieldDescent.Proofs.Vec.Coordinates
import HopfieldDescent.StepLength

/-!
# The closed step length

The closed formula divides the slope by a bound on the curvature.  The bound pays for two errors at
once: the curvature of the Lagrangian, and the second-order error of the squashing, weighted by the
gradient.  A move that is predicted by the proxy distance up to the latter error therefore decreases
the Lagrangian by at least half of what the slope promises, also when the slope of the squashing is
a multiple of the proxy distance.
-/

namespace HopfieldDescent.StepLength

variable {n : ℕ}

/-- The change to first order along a direction `d`, at proxy distance `σ` and gradient `g`. -/
def slope (σ g d : Fin n → ℝ) : ℝ := ∑ i, σ i * g i * d i

/-- The bound on the curvature along a direction, at gain `β`. -/
def curvature (smoothness : ℝ) (β g d : Fin n → ℝ) : ℝ :=
  smoothness * ∑ i, (β i * d i) ^ 2 + 12 * ∑ i, (β i * d i) ^ 2 * |g i|

/-- The step is zero or the slope over a positive bound, with the sign that descends. -/
def IsClosedForm (smoothness : ℝ) (σ g d β : Fin n → ℝ) (step : ℝ) : Prop :=
  step = 0 ∨ 0 < curvature smoothness β g d ∧ step = -slope σ g d / curvature smoothness β g d

/-- The formula on coordinates. -/
lemma closedForm_eq_ok {proxy gradient direction gain : Vec ℝ} {smoothness step : ℝ}
    (hn : gain.length = n)
    (h : closedForm proxy gradient direction gain smoothness = .ok step) :
    proxy.length = n ∧ gradient.length = n ∧ direction.length = n ∧
      IsClosedForm smoothness (Vec.coords n proxy) (Vec.coords n gradient)
        (Vec.coords n direction) (Vec.coords n gain) step := by
  simp only [closedForm, Outcome.bind_eq_ok, Outcome.pure_eq_ok, Vec.zipExact_eq_ok,
    Vec.zipExact3_eq_ok, Scalar.isFinite_real, true_and] at h
  obtain ⟨squares, ⟨hdirection, rfl⟩, curvatures, ⟨-, rfl⟩, slopes,
    ⟨hproxy, hgradient, rfl⟩, hstep⟩ := h
  have hd : direction.length = n := hdirection.trans hn
  have hg : gradient.length = n := hgradient.trans hd
  have hp : proxy.length = n := hproxy.trans hg
  refine ⟨hp, hg, hd, ?_⟩
  have hsquares : Vec.sum (List.zipWith (fun d gain => Scalar.square (gain * d)) direction gain) =
      ∑ i, (Vec.coords n gain i * Vec.coords n direction i) ^ 2 := by
    rw [Vec.sum_eq_sum_coords (n := n) (by simp [hd, hn])]
    exact Finset.sum_congr rfl fun i _ => by rw [Vec.coords_zipWith hd hn, Scalar.square_real]
  have hcurvatures : Vec.sum (List.zipWith (fun square g => square * Scalar.abs g)
        (List.zipWith (fun d gain => Scalar.square (gain * d)) direction gain) gradient) =
      ∑ i, (Vec.coords n gain i * Vec.coords n direction i) ^ 2 * |Vec.coords n gradient i| := by
    rw [Vec.sum_eq_sum_coords (n := n) (by simp [hd, hn, hg])]
    refine Finset.sum_congr rfl fun i _ => ?_
    rw [Vec.coords_zipWith (by simp [hd, hn]) hg, Vec.coords_zipWith hd hn, Scalar.square_real,
      Scalar.abs_real]
  have hslopes : Vec.sum (List.zipWith (fun sigma p => sigma * p.1 * p.2) proxy
        (List.zip gradient direction)) =
      slope (Vec.coords n proxy) (Vec.coords n gradient) (Vec.coords n direction) := by
    rw [Vec.sum_eq_sum_coords (n := n) (by simp [hp, hg, hd])]
    refine Finset.sum_congr rfl fun i _ => ?_
    simp [Vec.coords, hp, hg, hd]
  rw [hsquares, hcurvatures, hslopes] at hstep
  have htwelve : (12.0 : ℝ) = 12 := by norm_num
  rw [htwelve] at hstep
  split_ifs at hstep with hfloor
  · refine .inr ⟨lt_trans ?_ hfloor, hstep.symm⟩
    norm_num [curvatureFloor]
  · rw [Scalar.literal_zero] at hstep
    exact .inl hstep.symm

/-- What the move adds to first order, with the error of the prediction. -/
lemma dotProduct_le {σ g d β Δ : Fin n → ℝ} {step factor : ℝ}
    (herror : ∀ i, |Δ i - factor * σ i * (step * d i)| ≤ 6 * (β i * (step * d i)) ^ 2) :
    g ⬝ᵥ Δ ≤ factor * step * slope σ g d + 6 * step ^ 2 * ∑ i, (β i * d i) ^ 2 * |g i| := by
  rw [dotProduct, slope, Finset.mul_sum, Finset.mul_sum, ← Finset.sum_add_distrib]
  refine Finset.sum_le_sum fun i _ => ?_
  have hproduct : g i * (Δ i - factor * σ i * (step * d i)) ≤
      |g i| * (6 * (β i * (step * d i)) ^ 2) := by
    refine (le_abs_self _).trans ?_
    rw [abs_mul]
    exact mul_le_mul_of_nonneg_left (herror i) (abs_nonneg _)
  linarith

/-- How far the move goes. -/
lemma dotProduct_self_le {d β Δ : Fin n → ℝ} {step : ℝ}
    (hmove : ∀ i, |Δ i| ≤ β i * |step * d i|) :
    Δ ⬝ᵥ Δ ≤ step ^ 2 * ∑ i, (β i * d i) ^ 2 := by
  rw [dotProduct, Finset.mul_sum]
  refine Finset.sum_le_sum fun i _ => ?_
  calc Δ i * Δ i = |Δ i| ^ 2 := by rw [sq_abs, sq]
    _ ≤ (β i * |step * d i|) ^ 2 := pow_le_pow_left₀ (abs_nonneg _) (hmove i) 2
    _ = step ^ 2 * (β i * d i) ^ 2 := by
        rw [mul_pow, sq_abs]
        ring

/-- A move by the closed step decreases by half of what the slope promises, and the slope never
promises an increase. -/
theorem descent_of_isClosedForm {σ g d β Δ : Fin n → ℝ} {smoothness step factor : ℝ}
    (hstep : IsClosedForm smoothness σ g d β step) (hfactor : 1 ≤ factor)
    (hsmoothness : 0 ≤ smoothness) (hmove : ∀ i, |Δ i| ≤ β i * |step * d i|)
    (herror : ∀ i, |Δ i - factor * σ i * (step * d i)| ≤ 6 * (β i * (step * d i)) ^ 2) :
    g ⬝ᵥ Δ + smoothness / 2 * (Δ ⬝ᵥ Δ) ≤ 1 / 2 * step * slope σ g d ∧
      1 / 2 * step * slope σ g d ≤ 0 := by
  have hbound : g ⬝ᵥ Δ + smoothness / 2 * (Δ ⬝ᵥ Δ) ≤
      factor * (step * slope σ g d) + step ^ 2 / 2 * curvature smoothness β g d := by
    have hfirst := dotProduct_le herror (g := g)
    have hsecond := mul_le_mul_of_nonneg_left (dotProduct_self_le hmove)
      (div_nonneg hsmoothness zero_le_two)
    rw [curvature]
    linarith
  rcases hstep with rfl | ⟨hpos, hstep⟩
  · refine ⟨hbound.trans_eq ?_, le_of_eq ?_⟩ <;> ring
  · have hproduct : step * slope σ g d = -(step ^ 2 * curvature smoothness β g d) := by
      rw [hstep]
      field_simp
    have hnonneg : 0 ≤ step ^ 2 * curvature smoothness β g d :=
      mul_nonneg (sq_nonneg _) hpos.le
    constructor
    · calc g ⬝ᵥ Δ + smoothness / 2 * (Δ ⬝ᵥ Δ)
          ≤ factor * (step * slope σ g d) + step ^ 2 / 2 * curvature smoothness β g d := hbound
        _ ≤ 1 * (step * slope σ g d) + step ^ 2 / 2 * curvature smoothness β g d := by
            have := mul_le_mul_of_nonpos_right hfactor (hproduct.trans_le (neg_nonpos.2 hnonneg))
            linarith
        _ = 1 / 2 * step * slope σ g d := by linarith
    · linarith

end HopfieldDescent.StepLength

import Mathlib
import HopfieldDescent.Proofs.Lagrangian.Descent

/-!
# Joint steps of the point and the slack

When the point and the slack move together, the residual of the inequalities moves by the
coefficients times the step of the point, less the step of the slack.  The penalty therefore curves
along both, and the curvature along the slack is the penalty itself, however small the coefficients
are.  How much curvature a coefficient `M` pays for, in both directions at once, is the content of
`joint_curvature_le`.
-/

open scoped Matrix

namespace HopfieldDescent

/-- A smoothness coefficient `M` covers the slack of a problem if it pays for the curvature of the
inequalities along the point and the slack together: with their penalty `ρ` and the measure `r` of
their squared operator norm, `ρ (M + ρ r) ≤ 2 M²`. -/
def Problem.CoversSlack (problem : Problem ℝ) (smoothness : ℝ)
    (radius : ConstraintBlock ℝ → Checked ℝ := ConstraintBlock.gramSpectralRadius) : Prop :=
  ∀ block ∈ problem.inequalities, ∀ r, radius block = .ok r →
    problem.inequalityPenalty * (smoothness + problem.inequalityPenalty * r) ≤ 2.0 * smoothness ^ 2

/-- Rows that do not shrink anything below one are covered, and so is the slack of a problem
without inequalities. -/
lemma Problem.coversSlack_of_one_le {radius : ConstraintBlock ℝ → Checked ℝ} {problem : Problem ℝ}
    (hproblem : problem.WellFormed)
    (hnonneg : ∀ block ∈ problem.equalities, ∀ r, radius block = .ok r → 0 ≤ r) {smoothness : ℝ}
    (hsmoothness : problem.effectiveSmoothness radius = .ok smoothness)
    (hone : ∀ block ∈ problem.inequalities, ∀ r, radius block = .ok r → 1 ≤ r) :
    problem.CoversSlack smoothness radius := by
  intro block hblock r hr
  obtain ⟨hpenalty, hpenalty', -⟩ := Lagrangian.penalty_nonneg hproblem
  have hobjective : 0 < problem.smoothness := by simpa using hproblem.smoothness_isPositive
  obtain ⟨c, c', hc, hc', hsum⟩ := Lagrangian.effectiveSmoothness_eq_ok.1 hsmoothness
  rw [Option.mem_def.1 hblock, Lagrangian.blockSmoothness_some_eq_ok] at hc'
  obtain ⟨r', hr', rfl⟩ := hc'
  obtain rfl := Except.ok.inj (hr.symm.trans hr')
  have hequality := Lagrangian.blockSmoothness_nonneg hnonneg hpenalty hc
  have hinequality : 0 ≤ problem.inequalityPenalty * r :=
    mul_nonneg hpenalty' (zero_le_one.trans (hone block hblock r hr))
  have hcurvature : problem.inequalityPenalty * r ≤ smoothness := by linarith
  have hρ : problem.inequalityPenalty ≤ smoothness :=
    (le_mul_of_one_le_right hpenalty' (hone block hblock r hr)).trans hcurvature
  calc problem.inequalityPenalty * (smoothness + problem.inequalityPenalty * r)
      ≤ smoothness * (smoothness + smoothness) :=
        mul_le_mul hρ (by linarith) (by linarith) (by linarith)
    _ = 2.0 * smoothness ^ 2 := by
      rw [Scalar.literal_two]
      ring

/-- What a penalty curves along a joint step, in numbers: `P` and `S` are the squared lengths of the
two steps, `N` that of the product of the coefficients with the first, and `C` the product of both
in the residual. -/
lemma joint_curvature_real {ρ r M P S N C : ℝ} (hρ : 0 ≤ ρ) (hr : 0 ≤ r) (hM : 0 < M)
    (hcurvature : ρ * (M + ρ * r) ≤ 2 * M ^ 2) (hP : 0 ≤ P) (hN : N ≤ r * P)
    (hzero : N ≤ 0 → C = 0)
    (hsquare : 0 ≤ ρ ^ 2 * N + 2 * ρ * (2 * M - ρ) * C + (2 * M - ρ) ^ 2 * S) :
    ρ / 2 * (N - 2 * C + S) ≤ (M + ρ * r) / 2 * P + M * S := by
  have hρM : ρ ≤ 2 * M := by
    have hproduct : ρ * M ≤ 2 * M * M := by nlinarith [mul_nonneg (mul_nonneg hρ hρ) hr]
    exact le_of_mul_le_mul_right hproduct hM
  rcases hρM.lt_or_eq with hlt | rfl
  · -- multiplied by what is left of the slack direction, the difference is at least a square
    have hκ : 0 < 2 * M - ρ := by linarith
    have hpaid : 0 ≤ (2 * M ^ 2 - ρ * (M + ρ * r)) * P :=
      mul_nonneg (by linarith) hP
    have hproduct : 2 * M * ρ * N ≤ 2 * M * ρ * (r * P) :=
      mul_le_mul_of_nonneg_left hN (by positivity)
    have hdifference : 0 ≤ (2 * M - ρ) *
        ((M + ρ * r) * P + 2 * M * S - ρ * (N - 2 * C + S)) := by
      nlinarith
    have := nonneg_of_mul_nonneg_right hdifference hκ
    linarith
  · -- no room is left in the slack direction, and the coefficients vanish
    have hr' : r = 0 := by
      have hprod : M ^ 2 * r ≤ 0 := by nlinarith
      have := nonpos_of_mul_nonpos_right hprod (by positivity)
      linarith
    subst hr'
    have hN' : N ≤ 0 := by simpa using hN
    rw [hzero hN']
    nlinarith

/-- A coefficient pays for the curvature of a penalty along a joint step, half of it beyond the
curvature along the point and all of it along the slack, if the penalty is not too large. -/
lemma joint_curvature_le {m n : ℕ} {A : Matrix (Fin m) (Fin n) ℝ} {ρ r M : ℝ}
    (hA : ∀ v, (A *ᵥ v) ⬝ᵥ (A *ᵥ v) ≤ r * (v ⬝ᵥ v)) (hρ : 0 ≤ ρ) (hr : 0 ≤ r) (hM : 0 < M)
    (hcurvature : ρ * (M + ρ * r) ≤ 2 * M ^ 2) (v : Fin n → ℝ) (b : Fin m → ℝ) :
    ρ / 2 * ((A *ᵥ v - b) ⬝ᵥ (A *ᵥ v - b)) ≤ (M + ρ * r) / 2 * (v ⬝ᵥ v) + M * (b ⬝ᵥ b) := by
  have hzero : (A *ᵥ v) ⬝ᵥ (A *ᵥ v) ≤ 0 → (A *ᵥ v) ⬝ᵥ b = 0 := by
    intro h
    rw [dotProduct_self_eq_zero.1 (h.antisymm (Vec.dotProduct_self_nonneg _)), zero_dotProduct]
  have hsquare := Vec.dotProduct_self_nonneg (ρ • (A *ᵥ v) + (2 * M - ρ) • b)
  simp only [add_dotProduct, dotProduct_add, smul_dotProduct, dotProduct_smul, smul_eq_mul,
    dotProduct_comm b (A *ᵥ v)] at hsquare
  simp only [sub_dotProduct, dotProduct_sub, dotProduct_comm b (A *ᵥ v)]
  have hreal := joint_curvature_real hρ hr hM hcurvature (Vec.dotProduct_self_nonneg v) (hA v) hzero
    (S := b ⬝ᵥ b) (by linarith)
  linarith

/-- Along a joint step whose slack goes down by the coefficient times its square, what a block adds
changes at most by its first order in the point and half the coefficient and its own curvature. -/
lemma PenalizedBlock.term_joint_le {radius : ConstraintBlock ℝ → Checked ℝ} {p : PenalizedBlock ℝ}
    {n : ℕ} (hp : p.Fits n) (hbound : p.block.BoundedBy radius) (hpenalty : 0 ≤ p.penalty)
    {r M : ℝ} (hr : radius p.block = .ok r) (hM : 0 < M)
    (hcurvature : p.penalty * (M + p.penalty * r) ≤ 2 * M ^ 2) {x slack slack' : Vec ℝ}
    (hslack : M * (Vec.displacement p.block.matrix.height slack slack' ⬝ᵥ
        Vec.displacement _ slack slack') ≤
      p.weight (p.residualAt n x slack) ⬝ᵥ Vec.displacement _ slack slack') (x' : Vec ℝ) :
    p.term (p.residualAt n x' slack') ≤ p.term (p.residualAt n x slack) +
      p.pull n (p.residualAt n x slack) ⬝ᵥ Vec.displacement n x x' +
      (M + p.penalty * r) / 2 * (Vec.displacement n x x' ⬝ᵥ Vec.displacement n x x') := by
  have hjoint := joint_curvature_le (coefficients_mulVec_self_le hp hbound hr) hpenalty
    (hbound r hr).1 hM hcurvature (Vec.displacement n x x')
    (Vec.displacement _ slack slack')
  rw [p.term_residualAt n x x' slack slack']
  linarith

end HopfieldDescent

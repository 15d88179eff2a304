import Mathlib
import HopfieldDescent.Proofs.Lagrangian.Slack
import HopfieldDescent.Proofs.Vec.Box

/-!
# Descent of the augmented Lagrangian

A step from one point of the box to another, followed by an update of the slack, changes the
Lagrangian at most by the first order of the step and half the smoothness coefficient times its
squared length, penalties included.  Three facts make this up:

* the objective is smooth on the box (`Objective.SmoothOn`);
* a penalised block curves at most by its penalty times the largest eigenvalue of its Gram matrix,
  or any bound on it (`PenalizedBlock.curvature_le`);
* an update of the slack minimises over all slacks of at most zero
  (`Lagrangian.term_le_of_updateSlack`).
-/

open scoped Matrix

namespace HopfieldDescent

/-- Between any two points of the box the function lies below its tangent parabola of the given
curvature. -/
def Objective.SmoothOn (f : Objective ℝ) (lower upper : Vec ℝ) (curvature : ℝ) : Prop :=
  ∀ x y fx fy gradient, Vec.InBox lower upper x → Vec.InBox lower upper y →
    f.value x = .ok fx → f.gradient x = .ok gradient → f.value y = .ok fy →
    fy ≤ fx + Vec.inner gradient (List.zipWith (· - ·) y x) +
      0.5 * curvature * Vec.inner (List.zipWith (· - ·) y x) (List.zipWith (· - ·) y x)

/-! ## Blocks -/

namespace PenalizedBlock

variable {radius : ConstraintBlock ℝ → Checked ℝ} {p : PenalizedBlock ℝ} {n : ℕ}

/-- The coefficients stretch at most by a radius that bounds them. -/
lemma coefficients_mulVec_self_le (hp : p.Fits n) (hbound : p.block.BoundedBy radius) {r : ℝ}
    (hr : radius p.block = .ok r) (v : Fin n → ℝ) :
    (p.coefficients n *ᵥ v) ⬝ᵥ (p.coefficients n *ᵥ v) ≤ r * (v ⬝ᵥ v) := by
  obtain rfl := hp.block.width_eq
  exact mulVec_dotProduct_self_le (hbound r hr).2 v

/-- What a block adds curves at most by its penalty times a radius that bounds it. -/
lemma curvature_le (hp : p.Fits n) (hbound : p.block.BoundedBy radius) (hpenalty : 0 ≤ p.penalty)
    {r : ℝ} (hr : radius p.block = .ok r) (v : Fin n → ℝ) :
    p.penalty * ((p.coefficients n *ᵥ v) ⬝ᵥ (p.coefficients n *ᵥ v)) ≤
      p.penalty * r * (v ⬝ᵥ v) := by
  rw [mul_assoc]
  exact mul_le_mul_of_nonneg_left (coefficients_mulVec_self_le hp hbound hr v) hpenalty

end PenalizedBlock

namespace Lagrangian

variable {radius : ConstraintBlock ℝ → Checked ℝ} {p : PenalizedBlock ℝ} {n : ℕ}
  {x slack slack' : Vec ℝ}

/-! ## The blocks of a problem -/

section Blocks

variable {block : Option (ConstraintBlock ℝ)} {dual : Option (Vec ℝ)} {penalty c : ℝ}

/-- A block adds its penalty times the radius to the smoothness coefficient. -/
lemma blockSmoothness_some_eq_ok {b : ConstraintBlock ℝ} :
    Problem.blockSmoothness (some b) penalty radius = .ok c ↔
      ∃ r, radius b = .ok r ∧ penalty * r = c := by
  simp only [Problem.blockSmoothness, Outcome.bind_eq_ok, Outcome.pure_eq_ok]

/-- An absent block adds nothing. -/
lemma blockSmoothness_none_eq_ok :
    Problem.blockSmoothness none penalty radius = .ok c ↔ 0 = c := by
  simp only [Problem.blockSmoothness, Except.ok.injEq, Scalar.literal_zero]

/-- What a block adds to the smoothness coefficient is not negative, if its radius is not. -/
lemma blockSmoothness_nonneg (hradius : ∀ b ∈ block, ∀ r, radius b = .ok r → 0 ≤ r)
    (hpenalty : 0 ≤ penalty) (hc : Problem.blockSmoothness block penalty radius = .ok c) :
    0 ≤ c := by
  rcases block with _ | b
  · exact (blockSmoothness_none_eq_ok.1 hc).le
  · obtain ⟨r, hr, rfl⟩ := blockSmoothness_some_eq_ok.1 hc
    exact mul_nonneg hpenalty (hradius b rfl r hr)

/-- What a block adds at another point, expanded to second order. -/
lemma elim_term_le (hblock : ∀ b ∈ block, b.Fits n) (hbound : ∀ b ∈ block, b.BoundedBy radius)
    (hdual : dual.map List.length = block.map ConstraintBlock.height) (hpenalty : 0 ≤ penalty)
    (hc : Problem.blockSmoothness block penalty radius = .ok c) (x y slack : Vec ℝ) :
    (penalized block dual penalty).elim 0 (fun p => p.term (p.residualAt n y slack)) ≤
      (penalized block dual penalty).elim 0 (fun p => p.term (p.residualAt n x slack)) +
        (penalized block dual penalty).elim 0 (fun p => p.pull n (p.residualAt n x slack)) ⬝ᵥ
          Vec.displacement n x y +
        c / 2 * (Vec.displacement n x y ⬝ᵥ Vec.displacement n x y) := by
  cases hp : penalized block dual penalty with
  | none =>
    rw [block_eq_none_of_penalized hdual hp, blockSmoothness_none_eq_ok] at hc
    simp [← hc]
  | some p =>
    have hfits := fits_of_mem_penalized hblock hdual hp
    obtain ⟨b, hb, d, hd, rfl⟩ := mem_penalized.1 hp
    obtain rfl := Option.mem_def.1 hb
    obtain ⟨r, hr, rfl⟩ := blockSmoothness_some_eq_ok.1 hc
    have hcurvature := PenalizedBlock.curvature_le hfits (hbound b rfl) hpenalty hr
      (Vec.displacement n x y)
    simp only [Option.elim_some]
    rw [PenalizedBlock.term_residualAt _ n x y slack slack, Vec.displacement_self, sub_zero,
      dotProduct_zero, sub_zero]
    linarith

end Blocks

/-! ## The Lagrangian of a problem -/

variable {problem : Problem ℝ} {duals : DualVariables ℝ}

/-- The penalties of a problem are not negative, and that on inequalities is positive. -/
lemma penalty_nonneg (hproblem : problem.WellFormed) :
    0 ≤ problem.equalityPenalty ∧ 0 ≤ problem.inequalityPenalty ∧
      (problem.inequalities.isSome = true → 0 < problem.inequalityPenalty) := by
  have hequality := hproblem.equalityPenalty
  have hinequality := hproblem.inequalityPenalty
  simp only [Definition.checkPenalty, Outcome.ite_error_eq_ok, Bool.and_eq_true] at *
  have hequality' : 0 ≤ problem.equalityPenalty := by simpa using hequality.1.2
  refine ⟨hequality', ?_⟩
  cases hsome : problem.inequalities.isSome with
  | false => simpa [hsome] using hinequality.1.2
  | true =>
    have hpos : 0 < problem.inequalityPenalty := by simpa [hsome] using hinequality.1.2
    exact ⟨hpos.le, fun _ => hpos⟩

/-- The smoothness coefficient is that of the objective with what the blocks add. -/
lemma effectiveSmoothness_eq_ok {smoothness : ℝ} :
    problem.effectiveSmoothness radius = .ok smoothness ↔ ∃ c c',
      Problem.blockSmoothness problem.equalities problem.equalityPenalty radius = .ok c ∧
      Problem.blockSmoothness problem.inequalities problem.inequalityPenalty radius = .ok c' ∧
      problem.smoothness + c + c' = smoothness := by
  simp only [Problem.effectiveSmoothness, Outcome.bind_eq_ok, Outcome.pure_eq_ok,
    exists_and_left]

/-- The smoothness coefficient with the penalties is positive, if no radius is negative. -/
lemma effectiveSmoothness_pos_of_radius (hproblem : problem.WellFormed)
    (hequalities : ∀ b ∈ problem.equalities, ∀ r, radius b = .ok r → 0 ≤ r)
    (hinequalities : ∀ b ∈ problem.inequalities, ∀ r, radius b = .ok r → 0 ≤ r) {smoothness : ℝ}
    (hsmoothness : problem.effectiveSmoothness radius = .ok smoothness) : 0 < smoothness := by
  obtain ⟨hpenalty, hpenalty', -⟩ := penalty_nonneg hproblem
  have hobjective : 0 < problem.smoothness := by simpa using hproblem.smoothness_isPositive
  obtain ⟨c, c', hc, hc', rfl⟩ := effectiveSmoothness_eq_ok.1 hsmoothness
  have hequality := blockSmoothness_nonneg hequalities hpenalty hc
  have hinequality := blockSmoothness_nonneg hinequalities hpenalty' hc'
  linarith

/-- The smoothness coefficient with the penalties is positive. -/
lemma effectiveSmoothness_pos (hproblem : problem.WellFormed) {smoothness : ℝ}
    (hsmoothness : problem.effectiveSmoothness = .ok smoothness) : 0 < smoothness :=
  effectiveSmoothness_pos_of_radius hproblem
    (fun _ _ _ => ConstraintBlock.gramSpectralRadius_nonneg)
    (fun _ _ _ => ConstraintBlock.gramSpectralRadius_nonneg) hsmoothness

/-- Between two points of the box the Lagrangian changes at most by the first order of the step and
half the smoothness coefficient of objective and equations times its squared length, and by what the
inequalities add beyond their first order. -/
lemma value_le (hproblem : problem.WellFormed) (hduals : duals.Fit problem)
    (hobjective : problem.objective.SmoothOn problem.lower problem.upper problem.smoothness)
    (hequalities : ∀ b ∈ problem.equalities, b.BoundedBy radius) {c : ℝ}
    (hc : Problem.blockSmoothness problem.equalities problem.equalityPenalty radius = .ok c)
    (hslack : (ofProblem problem duals).SlackFits slack)
    (hslack' : (ofProblem problem duals).SlackFits slack') {y gradient : Vec ℝ} {v v' : ℝ}
    (hx : Vec.InBox problem.lower problem.upper x) (hy : Vec.InBox problem.lower problem.upper y)
    (hvalue : (ofProblem problem duals).value x slack = .ok v)
    (hgradient : (ofProblem problem duals).gradient x slack = .ok gradient)
    (hlength : gradient.length = problem.dimension)
    (hvalue' : (ofProblem problem duals).value y slack' = .ok v') :
    v' ≤ v + Vec.coords problem.dimension gradient ⬝ᵥ Vec.displacement _ x y +
      (problem.smoothness + c) / 2 *
        (Vec.displacement problem.dimension x y ⬝ᵥ Vec.displacement _ x y) +
      ((ofProblem problem duals).inequality.elim 0
          (fun p => p.term (p.residualAt problem.dimension y slack')) -
        (ofProblem problem duals).inequality.elim 0
          (fun p => p.term (p.residualAt problem.dimension x slack)) -
        (ofProblem problem duals).inequality.elim 0
          (fun p => p.pull problem.dimension (p.residualAt problem.dimension x slack)) ⬝ᵥ
            Vec.displacement _ x y) := by
  have hfits := fits_ofProblem hproblem hduals
  obtain ⟨hpenalty, -, -⟩ := penalty_nonneg hproblem
  obtain ⟨f, hf, rfl⟩ := value_eq_ok hfits hslack hvalue
  obtain ⟨f', hf', rfl⟩ := value_eq_ok hfits hslack' hvalue'
  obtain ⟨g, hg, hgn, hcoords⟩ := gradient_eq_ok hfits hslack hgradient hlength
  have hequality := elim_term_le hproblem.equalities hequalities hduals.equality hpenalty hc
    x y []
  have hxn : x.length = problem.dimension := hx.length_eq
  have hyn : y.length = problem.dimension := hy.length_eq
  have hstep : (List.zipWith (· - ·) y x).length = problem.dimension := by simp [hxn, hyn]
  have hstepCoords : Vec.coords problem.dimension (List.zipWith (· - ·) y x) =
      Vec.displacement _ x y := Vec.coords_zipWith_sub hyn hxn
  have hsmooth := hobjective x y f f' g hx hy hf hg hf'
  rw [Vec.inner_eq_dotProduct hgn hstep, Vec.inner_eq_dotProduct hstep hstep,
    hstepCoords, Scalar.literal_half] at hsmooth
  rw [hcoords]
  simp only [penaltyAt, pullAt, add_dotProduct] at *
  simp only [ofProblem] at *
  linarith

/-- A step inside the box and an update of the slack change the Lagrangian at most by the first
order of the step and half the smoothness coefficient times its squared length. -/
theorem value_le_of_updateSlack (hproblem : problem.WellFormed) (hduals : duals.Fit problem)
    (hobjective : problem.objective.SmoothOn problem.lower problem.upper problem.smoothness)
    (hequalities : ∀ b ∈ problem.equalities, b.BoundedBy radius)
    (hinequalities : ∀ b ∈ problem.inequalities, b.BoundedBy radius) {smoothness : ℝ}
    (hsmoothness : problem.effectiveSmoothness radius = .ok smoothness)
    (hslack : (ofProblem problem duals).SlackFits slack) (hnonpos : ∀ s ∈ slack, s ≤ 0)
    {y gradient : Vec ℝ} {v v' : ℝ} (hx : Vec.InBox problem.lower problem.upper x)
    (hy : Vec.InBox problem.lower problem.upper y)
    (hvalue : (ofProblem problem duals).value x slack = .ok v)
    (hgradient : (ofProblem problem duals).gradient x slack = .ok gradient)
    (hlength : gradient.length = problem.dimension)
    (hupdate : (ofProblem problem duals).updateSlack y slack = .ok slack')
    (hvalue' : (ofProblem problem duals).value y slack' = .ok v') :
    v' ≤ v + Vec.coords problem.dimension gradient ⬝ᵥ Vec.displacement _ x y +
      smoothness / 2 *
        (Vec.displacement problem.dimension x y ⬝ᵥ Vec.displacement _ x y) := by
  obtain ⟨-, hpenalty', hpos⟩ := penalty_nonneg hproblem
  obtain ⟨c, c', hc, hc', rfl⟩ := effectiveSmoothness_eq_ok.1 hsmoothness
  have hslack' : (ofProblem problem duals).SlackFits slack' := fun p hp =>
    (length_of_updateSlack hp hupdate).trans (hslack p hp)
  have hle := value_le hproblem hduals hobjective hequalities hc hslack hslack' hx hy hvalue
    hgradient hlength hvalue'
  have hinequality := elim_term_le hproblem.inequalities hinequalities hduals.inequality
    hpenalty' hc' x y slack
  have hminimum : (ofProblem problem duals).inequality.elim 0
        (fun p => p.term (p.residualAt problem.dimension y slack')) ≤
      (ofProblem problem duals).inequality.elim 0
        (fun p => p.term (p.residualAt problem.dimension y slack)) := by
    cases hi : (ofProblem problem duals).inequality with
    | none => exact le_rfl
    | some p =>
      have hp := (fits_ofProblem hproblem hduals).inequality p hi
      have hpenalty : 0 < p.penalty := by
        obtain ⟨b, hb, d, -, rfl⟩ := mem_penalized.1 hi
        exact hpos (by rw [Option.mem_def.1 hb]; rfl)
      exact term_le_of_updateSlack hi hp hpenalty (hslack p hi) hnonpos hupdate
  simp only [ofProblem] at *
  linarith

end Lagrangian

end HopfieldDescent

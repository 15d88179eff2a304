import Mathlib
import HopfieldDescent.Proofs.Lagrangian.Slack
import HopfieldDescent.Proofs.Run.Feasibility

/-!
# Increments of the augmented Lagrangian

The value of a Lagrangian and its two gradients are three computations, each over up to two blocks.
They agree: when the point and the slack move, the value changes by the inner products with the two
gradients, by what the objective deviates from its own first order, and by half the penalties times
the squared lengths by which the residuals move.  In exact arithmetic nothing is left over
(`Lagrangian.value_add_of_setup`).
-/

open scoped Matrix

namespace HopfieldDescent

/-- How far the residuals of a block move with the point and the slack. -/
def ConstraintBlock.residualStep (block : ConstraintBlock ℝ) (n : ℕ) (dx ds : Vec ℝ) :
    Fin block.matrix.height → ℝ :=
  block.matrix.toMatrix n *ᵥ Vec.coords n dx - Vec.coords _ ds

/-- What the penalty of a block adds to second order when the point and the slack move. -/
noncomputable def ConstraintBlock.bend (block : ConstraintBlock ℝ) (penalty : ℝ) (n : ℕ)
    (dx ds : Vec ℝ) : ℝ :=
  0.5 * penalty * (block.residualStep n dx ds ⬝ᵥ block.residualStep n dx ds)

/-- What the penalties add to second order when the point and the slack move.  The residuals of the
equations move with the point alone. -/
noncomputable def Problem.penaltyBend (problem : Problem ℝ) (dx ds : Vec ℝ) : ℝ :=
  problem.equalities.elim 0 (·.bend problem.equalityPenalty problem.dimension dx []) +
    problem.inequalities.elim 0 (·.bend problem.inequalityPenalty problem.dimension dx ds)

namespace Lagrangian

variable {l : Lagrangian ℝ} {n : ℕ} {x dx slack ds : Vec ℝ}

/-- What a block adds after the point and the slack have moved, if it takes part. -/
lemma elim_term_add (part : Option (PenalizedBlock ℝ)) (slack ds : Vec ℝ) (hx : x.length = n)
    (hdx : dx.length = n)
    (hds : ∀ p ∈ part, Vec.displacement p.block.matrix.height slack
      (List.zipWith (· + ·) slack ds) = Vec.coords _ ds) :
    part.elim 0 (fun p => p.term (p.residualAt n (List.zipWith (· + ·) x dx)
        (List.zipWith (· + ·) slack ds))) =
      part.elim 0 (fun p => p.term (p.residualAt n x slack)) +
        part.elim 0 (fun p => p.pull n (p.residualAt n x slack)) ⬝ᵥ Vec.coords n dx -
        part.elim 0 (fun p => p.weight (p.residualAt n x slack) ⬝ᵥ Vec.coords _ ds) +
        part.elim 0 (fun p => p.block.bend p.penalty n dx ds) := by
  cases part with
  | none => simp
  | some p =>
    simp only [Option.elim_some]
    rw [p.term_residualAt n x _ slack, Vec.displacement_zipWith_add hx hdx, hds p rfl,
      ConstraintBlock.bend, Scalar.literal_half, one_div_mul_eq_div]
    rfl

/-- Against the slack the gradient goes by the weights of the inequalities. -/
lemma inner_slackGradient (hl : l.Fits n) (hslack : slack.length = l.slackDimension)
    (hds : ds.length = l.slackDimension) {gradient : Vec ℝ}
    (h : l.slackGradient x slack = .ok gradient) : Vec.inner gradient ds =
      -l.inequality.elim 0 (fun p => p.weight (p.residualAt n x slack) ⬝ᵥ Vec.coords _ ds) := by
  cases hi : l.inequality with
  | none =>
    simp only [slackGradient, hi] at h
    obtain rfl := Except.ok.inj h
    simp [Vec.inner, Vec.sum]
  | some p =>
    have hheight : ds.length = p.block.matrix.height := hds.trans (slackDimension_eq hi)
    obtain ⟨hlength, hcoords⟩ := coords_of_slackGradient hi (hl.inequality p hi)
      (hslack.trans (slackDimension_eq hi)) h
    rw [Vec.inner_eq_dotProduct hlength hheight, hcoords, neg_dotProduct, Option.elim_some]

variable {problem : Problem ℝ} {duals : DualVariables ℝ}

/-- Without constraints the Lagrangian is the objective. -/
lemma eq_objective_of_unconstrained (hconstrained : problem.isConstrained = false)
    (x slack : Vec ℝ) :
    (ofProblem problem duals).value x slack = problem.objective.value x ∧
      (ofProblem problem duals).gradient x slack = problem.objective.gradient x := by
  obtain ⟨hequality, hinequality⟩ :
      problem.equalities = none ∧ problem.inequalities = none := by
    simpa [Problem.isConstrained] using hconstrained
  simp [value, gradient, ofProblem, hequality, hinequality, penalized]

/-- The second order of the blocks that take part is that of the blocks of the problem. -/
lemma bend_eq (hduals : duals.Fit problem) (dx ds : Vec ℝ) :
    (ofProblem problem duals).equality.elim 0
        (fun p => p.block.bend p.penalty problem.dimension dx []) +
      (ofProblem problem duals).inequality.elim 0
        (fun p => p.block.bend p.penalty problem.dimension dx ds) = problem.penaltyBend dx ds := by
  rw [ofProblem, penalized_eq_map hduals.equality, penalized_eq_map hduals.inequality,
    Option.elim_map, Option.elim_map]
  rfl

/-- The value of a Lagrangian and its two gradients agree exactly.  When the point and the slack
move, whatever their signs, all three are computed, and the value changes by the inner products with
the gradients, by what the objective deviates from its own first order, and by the second order of
the penalties.  Without constraints value and gradient are computed as those of the objective. -/
theorem value_add_of_setup {G : Type} [RandomSource G ℝ] {definition : Definition ℝ}
    {config : Config ℝ} {prepared : Prepared ℝ}
    (hsetup : setup G definition config = .ok prepared) (hduals : duals.Fit prepared.problem) :
    (∀ x dx slack ds f f' g, x.length = prepared.problem.dimension →
      dx.length = prepared.problem.dimension → slack.length = prepared.problem.slackDimension →
      ds.length = prepared.problem.slackDimension →
      prepared.problem.objective.value x = .ok f →
      prepared.problem.objective.value (List.zipWith (· + ·) x dx) = .ok f' →
      prepared.problem.objective.gradient x = .ok g → g.length = prepared.problem.dimension →
      ∃ v v' gradient slackGradient,
        (ofProblem prepared.problem duals).value x slack = .ok v ∧
        (ofProblem prepared.problem duals).value (List.zipWith (· + ·) x dx)
          (List.zipWith (· + ·) slack ds) = .ok v' ∧
        (ofProblem prepared.problem duals).gradient x slack = .ok gradient ∧
        gradient.length = prepared.problem.dimension ∧
        (ofProblem prepared.problem duals).slackGradient x slack = .ok slackGradient ∧
        slackGradient.length = prepared.problem.slackDimension ∧
        v' = v + Vec.inner gradient dx + Vec.inner slackGradient ds +
          (f' - f - Vec.inner g dx) + prepared.problem.penaltyBend dx ds) ∧
    (prepared.problem.isConstrained = false → ∀ x slack,
      (ofProblem prepared.problem duals).value x slack = prepared.problem.objective.value x ∧
      (ofProblem prepared.problem duals).gradient x slack =
        prepared.problem.objective.gradient x) := by
  refine ⟨?_, eq_objective_of_unconstrained⟩
  intro x dx slack ds f f' g hx hdx hslack hds hf hf' hg hgn
  have hl := fits_ofProblem (wellFormed_of_setup hsetup) hduals
  rw [← slackDimension_ofProblem hduals] at hslack hds ⊢
  set l := ofProblem prepared.problem duals with hlagrangian
  have hx' : (List.zipWith (· + ·) x dx).length = prepared.problem.dimension := by simp [hx, hdx]
  have hslack' : (List.zipWith (· + ·) slack ds).length = l.slackDimension := by
    simp [hslack, hds]
  obtain ⟨v, hv, -⟩ := returns_value ⟨f, hf, trivial⟩ hl hx (slackFits_of_length hslack)
  obtain ⟨v', hv', -⟩ := returns_value ⟨f', hf', trivial⟩ hl hx' (slackFits_of_length hslack')
  obtain ⟨gradient, hgradient, hgradientn⟩ :=
    returns_gradient ⟨g, hg, hgn⟩ hl hx (slackFits_of_length hslack)
  obtain ⟨slackGradient, hslackGradient, hslackGradientn⟩ := returns_slackGradient hl hx hslack
  refine ⟨v, v', gradient, slackGradient, hv, hv', hgradient, hgradientn, hslackGradient,
    hslackGradientn, ?_⟩
  obtain ⟨f₁, hf₁, hvalue⟩ := value_eq_ok hl (slackFits_of_length hslack) hv
  obtain ⟨f₂, hf₂, hvalue'⟩ := value_eq_ok hl (slackFits_of_length hslack') hv'
  obtain rfl := Except.ok.inj (hf.symm.trans hf₁)
  obtain rfl := Except.ok.inj (hf'.symm.trans hf₂)
  obtain ⟨g₁, hg₁, -, hcoords⟩ :=
    gradient_eq_ok hl (slackFits_of_length hslack) hgradient hgradientn
  obtain rfl := Except.ok.inj (hg.symm.trans hg₁)
  have hequality := elim_term_add l.equality [] [] hx hdx (by simp)
  have hinequality := elim_term_add l.inequality slack ds hx hdx fun p hp =>
    Vec.displacement_zipWith_add (hslack.trans (slackDimension_eq hp))
      (hds.trans (slackDimension_eq hp))
  -- the equations are measured from no slack, so only the inequalities pull at it
  have hfree : l.equality.elim 0 (fun p =>
      p.weight (p.residualAt prepared.problem.dimension x []) ⬝ᵥ Vec.coords _ []) = 0 := by
    cases l.equality <;> simp
  rw [hfree, List.zipWith_nil_left] at hequality
  rw [← bend_eq hduals, inner_slackGradient hl hslack hds hslackGradient,
    Vec.inner_eq_dotProduct hgradientn hdx, Vec.inner_eq_dotProduct hgn hdx, hcoords, hvalue,
    hvalue', penaltyAt, penaltyAt, pullAt, add_dotProduct, add_dotProduct, hequality, hinequality]
  ring

end Lagrangian

/-- The residual of a single entry moves by its multiple of the step of the point, less the step of
the slack. -/
lemma ConstraintBlock.bend_ofRow (a t penalty : ℝ) (rhs ds : Vec ℝ) :
    (⟨.ofRow [a], rhs⟩ : ConstraintBlock ℝ).bend penalty 1 [t] ds =
      penalty / 2 * (a * t - Vec.coords 1 ds 0) ^ 2 := by
  have hproduct : ∑ j : Fin 1, Vec.coords 1 [a] j * Vec.coords 1 [t] j = a * t := by
    simp [Vec.coords]
  rw [bend, Scalar.literal_half, one_div_mul_eq_div]
  change penalty / 2 * ∑ i : Fin 1,
    (∑ j : Fin 1, Vec.coords 1 [a] j * Vec.coords 1 [t] j - Vec.coords 1 ds i) *
      (∑ j : Fin 1, Vec.coords 1 [a] j * Vec.coords 1 [t] j - Vec.coords 1 ds i) = _
  rw [Fin.sum_univ_one, hproduct, ← sq]

/-- On the slope a move of the point by one quarter and of the slack by minus one bends the
penalties by thirteen sixteenths. -/
theorem Lagrangian.value_add_of_setup_oneStep : ∃ (prepared : Prepared ℝ) (v v' : ℝ)
    (gradient slackGradient : Vec ℝ),
    setup Unit OneStep.definition ⟨OneStep.draft none⟩ = .ok prepared ∧
    (ofProblem prepared.problem ⟨some [0], some [0]⟩).value [1 / 2] [0] = .ok v ∧
    (ofProblem prepared.problem ⟨some [0], some [0]⟩).value [3 / 4] [-1] = .ok v' ∧
    (ofProblem prepared.problem ⟨some [0], some [0]⟩).gradient [1 / 2] [0] = .ok gradient ∧
    (ofProblem prepared.problem ⟨some [0], some [0]⟩).slackGradient [1 / 2] [0] =
      .ok slackGradient ∧
    v' = v + Vec.inner gradient [1 / 4] + Vec.inner slackGradient [-1] + 13 / 16 := by
  obtain ⟨notices, hsetup⟩ := OneStep.setup_definition none (by simp)
  have hbend : OneStep.problem.penaltyBend [1 / 4] [-1] = 13 / 16 :=
    calc OneStep.problem.penaltyBend [1 / 4] [-1]
        = 1 / 2 * (1 * (1 / 4) - Vec.coords 1 [] 0) ^ 2 +
          1 / 2 * (1 * (1 / 4) - Vec.coords 1 [-1] 0) ^ 2 :=
          congrArg₂ (· + ·) (ConstraintBlock.bend_ofRow 1 (1 / 4) 1 [0] [])
            (ConstraintBlock.bend_ofRow 1 (1 / 4) 1 [1] [-1])
      _ = 13 / 16 := by norm_num [Vec.coords]
  have hobjective (x : ℝ) : OneStep.problem.objective.value [x] = .ok x := by
    simp [OneStep.problem, Landscape.linear, Objective.ofFunctions, Vec.inner, Vec.sum]
  have hx : List.zipWith (· + ·) [1 / 2] [1 / 4] = [(3 / 4 : ℝ)] := by norm_num
  have hs : List.zipWith (· + ·) [0] [-1] = [(-1 : ℝ)] := by norm_num
  have hfit : (⟨some [0], some [0]⟩ : DualVariables ℝ).Fit OneStep.problem := ⟨rfl, rfl⟩
  obtain ⟨v, v', gradient, slackGradient, hv, hv', hgradient, -, hslackGradient, -, hsum⟩ :=
    (value_add_of_setup hsetup hfit).1 [1 / 2] [1 / 4] [0] [-1] (1 / 2) (3 / 4) [1] rfl rfl rfl rfl
      (hobjective _) (hx ▸ hobjective _) rfl rfl
  rw [hx, hs] at hv'
  refine ⟨_, v, v', gradient, slackGradient, hsetup, hv, hv', hgradient, hslackGradient, ?_⟩
  rw [hsum, hbend]
  norm_num [Vec.inner, Vec.sum]

end HopfieldDescent

import Mathlib
import HopfieldDescent.Proofs.BoxMap.Step
import HopfieldDescent.Proofs.Lagrangian.Descent
import HopfieldDescent.Proofs.Run.Consistency
import HopfieldDescent.Proofs.StepLength.ClosedForm

/-!
# Descent of runs with the closed step

In exact arithmetic every step of the closed formula decreases the Lagrangian by at least half of
what the slope promises, through a whole run and for every direction rule that is not random.  The
direction need not be the negative gradient, and the slack is updated after each step.

What a step needs of the position where it starts is that all recorded parts belong together
(`Dynamics.Consistent`).  One step then descends (`Dynamics.Consistent.descent_of_move`), and every
position of a run is consistent (`Dynamics.Path.consistent`).

Of the radius that the smoothness coefficient is made of, only this is used: it does not fall below
the largest eigenvalue of a Gram matrix (`descent_of_solve_of_boundedBy`).  The eigenvalue itself is
such a radius for every problem (`descent_of_solve`); the power iteration is one for the blocks on
which it is exact.
-/

open scoped Matrix

namespace HopfieldDescent

variable {G σ : Type}

/-- What the closed step relies on beyond the checks of a setup. -/
structure Problem.Regular (problem : Problem ℝ) : Prop where
  /-- No side of the box is shorter than a sixth. -/
  sides : ∀ pair ∈ List.zip problem.lower problem.upper, 1 / 6 ≤ pair.2 - pair.1
  /-- The objective curves at most by the smoothness coefficient. -/
  objective : problem.objective.SmoothOn problem.lower problem.upper problem.smoothness

/-- Every gain is positive. -/
lemma Problem.WellFormed.coords_gain_pos {problem : Problem ℝ} (hproblem : problem.WellFormed)
    (i : Fin problem.dimension) : 0 < Vec.coords _ problem.gain i := by
  simpa using hproblem.gain_isPositive _ (Vec.coords_mem hproblem.length_gain i)

/-- Every side of the box is at least a sixth. -/
lemma Problem.Regular.width {problem : Problem ℝ} (hregular : problem.Regular)
    (hproblem : problem.WellFormed) (i : Fin problem.dimension) :
    1 / 6 ≤ Vec.coords _ problem.upper i - Vec.coords _ problem.lower i :=
  hregular.sides _ (Vec.coords_mem_zip rfl hproblem.length_upper i)

/-- The settings under which the closed step is taken as it is. -/
structure Config.StepsClosed (config : Config ℝ) : Prop where
  /-- The step is found by the closed formula. -/
  step : config.step = .classic
  /-- The direction is not random, since a random one dampens the step. -/
  direction : config.direction ≠ .stochastic
  /-- The squashing function is smooth. -/
  activation : config.activation.IsSmooth
  /-- Nothing is absorbed. -/
  absorption : config.absorption = none

section Runs

variable [RandomSource G ℝ] {problem : Problem ℝ} {config : Config ℝ}
  {duals : DualVariables ℝ} {d : Dynamics ℝ} {p q : Position ℝ G} {n : ℕ} {step : ℝ}
  {radius : ConstraintBlock ℝ → Checked ℝ}

namespace Dynamics

/-- The slope at an iterate: the inner product of the gradient of the Lagrangian, weighted by the
proxy distance, with the direction that is found there. -/
def HasSlope (G : Type) [RandomSource G ℝ] (d : Dynamics ℝ) (iterate : Iterate ℝ)
    (direction : Vec ℝ) (slope : ℝ) : Prop :=
  ∃ gradient proxy weighted, ∃ source source' : G,
    d.lagrangian.gradient iterate.x iterate.slack = .ok gradient ∧
    d.map.proxyDistance iterate.x = .ok proxy ∧
    Vec.mul proxy gradient = .ok weighted ∧
    Direction.find d.problem d.map d.config iterate.x gradient source =
      .ok (direction, source') ∧
    Vec.dot weighted direction = .ok slope

/-- The parts of a position belong together: the point is what the hidden state is squashed to, and
the objective and the gradient are those at the point and the slack. -/
structure Consistent (d : Dynamics ℝ) (p : Position ℝ G) : Prop where
  /-- The point. -/
  activate : d.map.activate p.hidden = .ok p.x
  /-- The objective. -/
  value : d.lagrangian.value p.x p.slack = .ok p.objective
  /-- The gradient. -/
  gradient : d.lagrangian.gradient p.x p.slack = .ok p.gradient
  /-- The slack has an entry for each inequality. -/
  slackFits : d.lagrangian.SlackFits p.slack
  /-- No slack is above zero. -/
  slack_nonpos : ∀ s ∈ p.slack, s ≤ 0

/-! ## One step -/

omit [RandomSource G ℝ] in
/-- With the closed formula the step is the one that it gives. -/
lemma closedForm_of_chosenStep {direction : Vec ℝ} {c : Candidate ℝ}
    (hconfig : d.config.StepsClosed) (h : d.chosenStep n p direction = .ok (step, c)) :
    ∃ proxy, d.map.proxyDistance p.x = .ok proxy ∧
      StepLength.closedForm proxy p.gradient direction d.problem.gain d.smoothness = .ok step := by
  simp only [chosenStep, hconfig.step, Outcome.bind_eq_ok, Outcome.pure_eq_ok] at h
  obtain ⟨proxy, hproxy, plain, hplain, c', -, hpair⟩ := h
  obtain ⟨hstep, -⟩ := Prod.mk.inj hpair
  refine ⟨proxy, hproxy, ?_⟩
  have hdirection := hconfig.direction
  split at hstep
  · exact absurd ‹_› hdirection
  · rw [hplain, hstep]

/-- The weighted gradient along a direction is the slope of the closed formula. -/
lemma dot_eq_slope {proxy gradient direction : Vec ℝ} (hproxy : proxy.length = n)
    (hgradient : gradient.length = n) (hdirection : direction.length = n) :
    ∃ weighted, Vec.mul proxy gradient = .ok weighted ∧
      Vec.dot weighted direction = .ok (StepLength.slope (Vec.coords n proxy)
        (Vec.coords n gradient) (Vec.coords n direction)) := by
  have hweighted : (List.zipWith (· * ·) proxy gradient).length = n := by
    simp [hproxy, hgradient]
  refine ⟨_, Vec.zipSpread_of_length_eq (hproxy.trans hgradient.symm), ?_⟩
  simp only [Vec.dot, Outcome.bind_eq_ok, Breach.sameLength_eq_ok, Outcome.pure_eq_ok]
  refine ⟨(), hweighted.trans hdirection.symm, ?_⟩
  rw [Vec.inner_eq_dotProduct hweighted hdirection, dotProduct, StepLength.slope]
  exact Finset.sum_congr rfl fun i _ => by rw [Vec.coords_zipWith hproxy hgradient]

/-- A step from a consistent position descends by at least half of what the slope promises. -/
theorem Consistent.descent_of_move (hp : d.Consistent p) (hproblem : problem.WellFormed)
    (hduals : duals.Fit problem) (hregular : problem.Regular)
    (hequalities : ∀ block ∈ problem.equalities, block.BoundedBy radius)
    (hinequalities : ∀ block ∈ problem.inequalities, block.BoundedBy radius)
    (hconfig : config.StepsClosed) (hd : ofProblem problem config duals radius = .ok d)
    (h : d.move n p = .ok (.ok (step, q))) :
    ∃ direction slope, d.HasSlope G p.iterate direction slope ∧
      p.hidden.shiftScaled step direction = .ok q.hidden ∧
      q.objective ≤ p.objective + 1 / 2 * step * slope ∧
      p.objective + 1 / 2 * step * slope ≤ p.objective := by
  obtain ⟨smoothness, hsmoothness, rfl⟩ := ofProblem_eq_ok.1 hd
  obtain ⟨direction, source, c, hfind, hchosen, -, -, -, hhidden, -, hobjective⟩ := move_eq_ok h
  obtain ⟨proxy, hproxy, hclosed⟩ := closedForm_of_chosenStep hconfig hchosen
  obtain ⟨hshift, hactivate, hupdate, hvalue⟩ :=
    candidate_eq_ok.1 (candidate_of_chosenStep hchosen)
  obtain ⟨hproxyLength, hgradientLength, hdirectionLength, hform⟩ :=
    StepLength.closedForm_eq_ok hproblem.length_gain hclosed
  obtain ⟨weighted, hweighted, hdot⟩ :=
    dot_eq_slope hproxyLength hgradientLength hdirectionLength
  -- the move of the point is predicted by the proxy distance
  have hmove := BoxMap.displacement_of_shiftScaled hconfig.activation rfl
    (hproblem.coords_gain_pos) (hregular.width hproblem) hp.activate hproxy hdirectionLength
    hshift hactivate
  have hpositive : 0 < smoothness := Lagrangian.effectiveSmoothness_pos_of_radius hproblem
    (fun b hb r hr => (hequalities b hb r hr).1) (fun b hb r hr => (hinequalities b hb r hr).1)
    hsmoothness
  obtain ⟨hdescent, hnonpos⟩ := StepLength.descent_of_isClosedForm hform
    (Activation.one_le_slopeFactor config.activation) hpositive.le (fun i => (hmove i).1)
    (fun i => (hmove i).2)
  -- and the Lagrangian follows the move of the point
  have hle := Lagrangian.value_le_of_updateSlack hproblem hduals hregular.objective
    hequalities hinequalities hsmoothness hp.slackFits hp.slack_nonpos
    (hproblem.activate_inBox hconfig.activation.ne_identity hp.activate)
    (hproblem.activate_inBox hconfig.activation.ne_identity hactivate) hp.value hp.gradient
    hgradientLength hupdate hvalue
  refine ⟨direction, _, ⟨p.gradient, proxy, weighted, p.source, source, hp.gradient, hproxy,
    hweighted, hfind, hdot⟩, by rw [hhidden]; exact hshift, ?_, ?_⟩
  · rw [hobjective]
    exact (hle.trans_eq (add_assoc _ _ _)).trans (add_le_add_right hdescent _)
  · exact add_le_of_nonpos_right hnonpos

/-! ## Every position of a run -/

/-- A position that is reached is consistent, if the start point lies strictly inside the box and
its gradient does not vanish. -/
theorem Path.consistent {source : G} {first last : Position ℝ G} {iterates : Array (Iterate ℝ)}
    {steps : Array ℝ} (path : d.Path first n last iterates steps)
    (hstart : d.start source = .ok (.ok first)) (hproblem : problem.WellFormed)
    (hconfig : config.StepsClosed) (hd : ofProblem problem config duals radius = .ok d)
    (hinside : Vec.strictlyInside problem.lower problem.upper problem.start = true)
    (hnonzero : ∀ gradient, d.lagrangian.gradient problem.start
      (Vec.zeros problem.slackDimension) = .ok gradient → Vec.isZero gradient = false) :
    d.Consistent last := by
  obtain ⟨smoothness, -, rfl⟩ := ofProblem_eq_ok.1 hd
  obtain ⟨x, gradient, htaken, hvalue, hgradient, hsame, -⟩ := path.exists_takenAt hstart
  obtain rfl : x = last.x := htaken.eq_of_absorption_eq_none hconfig.absorption
  have hgradient' : last.gradient = gradient := by
    cases path with
    | start =>
      obtain ⟨hx, -, hslack, -⟩ := start_eq_ok hstart
      rw [hx, hslack] at hgradient
      exact hsame (.inr (hnonzero gradient hgradient))
    | move => exact hsame (.inl (Nat.succ_ne_zero _))
  have hactivate : (problem.boxMap config.activation).activate last.hidden = .ok last.x := by
    cases path with
    | start =>
      obtain ⟨hx, hinverse, -⟩ := start_eq_ok hstart
      refine BoxMap.activate_inverse rfl hproblem.coords_gain_pos ?_ hinverse
      rw [hx]
      exact (Vec.strictlyInside_iff rfl hproblem.length_upper hproblem.length_start).1 hinside
    | move => exact htaken.activate (Nat.succ_ne_zero _)
  refine ⟨hactivate, hvalue, hgradient' ▸ hgradient, ?_, path.slack_nonpos hstart⟩
  intro p hp
  obtain ⟨block, hblock, dual, -, rfl⟩ := Lagrangian.mem_penalized.1 hp
  rw [path.length_slack hstart hp, Problem.slackDimension, Option.mem_def.1 hblock]

end Dynamics

/-! ## Whole runs -/

variable {definition : Definition ℝ} {setupConfig : Config ℝ} {prepared : Prepared ℝ}
  {observer : Observer σ (Event ℝ) Action} {w : σ} {report : RunReport ℝ σ} {solution : Solution ℝ}

/-- Every step of a run with the closed formula descends by at least half of what the slope
promises, whatever measures the blocks without falling below their largest eigenvalue.  The problem
is well formed, no side of its box is shorter than a sixth, and its objective is as smooth as its
coefficient says.  The run starts strictly inside the box, where the gradient of the Lagrangian does
not vanish, and may have constraints of both kinds. -/
theorem descent_of_solve_of_boundedBy {problem : Problem ℝ} (hproblem : problem.WellFormed)
    (hregular : problem.Regular)
    (hequalities : ∀ block ∈ problem.equalities, block.BoundedBy radius)
    (hinequalities : ∀ block ∈ problem.inequalities, block.BoundedBy radius)
    (hconfig : config.StepsClosed) (hsolve : solve G problem config observer w radius = .ok report)
    (hsolution : report.outcome = .ok solution)
    (hinside : Vec.strictlyInside problem.lower problem.upper problem.start = true)
    (hnonzero : ∀ gradient, (Lagrangian.ofProblem problem solution.duals).gradient
      problem.start (Vec.zeros problem.slackDimension) = .ok gradient →
        Vec.isZero gradient = false) :
    ∃ d, Dynamics.ofProblem problem config solution.duals radius = .ok d ∧
      ∀ k < solution.iterations, ∃ p q step direction slope,
        solution.trajectory.iterates[k]? = some p ∧
        solution.trajectory.iterates[k + 1]? = some q ∧
        solution.trajectory.steps[k]? = some step ∧
        d.HasSlope G p direction slope ∧ p.hidden.shiftScaled step direction = .ok q.hidden ∧
        q.objective ≤ p.objective + 1 / 2 * step * slope ∧
        p.objective + 1 / 2 * step * slope ≤ p.objective := by
  obtain ⟨history⟩ := solve_history hsolve hsolution
  have hduals := DualAscent.fit_of_resolve hproblem history.resolved
  refine ⟨history.dynamics, history.dynamics_eq, fun k hk => ?_⟩
  obtain ⟨p, q, step, iterates, steps, path, -, moved, hp, hq, hstep⟩ :=
    history.path.exists_move hk
  have hnonzero' : ∀ gradient, history.dynamics.lagrangian.gradient problem.start
      (Vec.zeros problem.slackDimension) = .ok gradient → Vec.isZero gradient = false := by
    obtain ⟨_, -, hd⟩ := Dynamics.ofProblem_eq_ok.1 history.dynamics_eq
    rw [hd]
    exact hnonzero
  have hconsistent := path.consistent history.start_eq hproblem hconfig history.dynamics_eq
    hinside hnonzero'
  obtain ⟨direction, slope, hslope, hshift, hdescent, hnonpos⟩ :=
    hconsistent.descent_of_move hproblem hduals hregular hequalities hinequalities hconfig
      history.dynamics_eq moved
  exact ⟨p.iterate, q.iterate, step, direction, slope, hp, hq, hstep, hslope, hshift, hdescent,
    hnonpos⟩

/-- Every step of a run with the closed formula descends by at least half of what the slope
promises, for every problem that has been set up and whose blocks are measured by the largest
eigenvalue of their Gram matrix.  No side of the box is shorter than a sixth, and the objective is
as smooth as its coefficient says. -/
theorem descent_of_solve (hsetup : setup G definition setupConfig = .ok prepared)
    (hregular : prepared.problem.Regular) (hconfig : config.StepsClosed)
    (hsolve : solve G prepared.problem config observer w ConstraintBlock.largestEigenvalue =
      .ok report)
    (hsolution : report.outcome = .ok solution)
    (hinside : Vec.strictlyInside prepared.problem.lower prepared.problem.upper
      prepared.problem.start = true)
    (hnonzero : ∀ gradient, (Lagrangian.ofProblem prepared.problem solution.duals).gradient
      prepared.problem.start (Vec.zeros prepared.problem.slackDimension) = .ok gradient →
        Vec.isZero gradient = false) :
    ∃ d, Dynamics.ofProblem prepared.problem config solution.duals
        ConstraintBlock.largestEigenvalue = .ok d ∧
      ∀ k < solution.iterations, ∃ p q step direction slope,
        solution.trajectory.iterates[k]? = some p ∧
        solution.trajectory.iterates[k + 1]? = some q ∧
        solution.trajectory.steps[k]? = some step ∧
        d.HasSlope G p direction slope ∧ p.hidden.shiftScaled step direction = .ok q.hidden ∧
        q.objective ≤ p.objective + 1 / 2 * step * slope ∧
        p.objective + 1 / 2 * step * slope ≤ p.objective :=
  descent_of_solve_of_boundedBy (wellFormed_of_setup hsetup) hregular
    (fun block _ => block.boundedBy_largestEigenvalue)
    (fun block _ => block.boundedBy_largestEigenvalue) hconfig hsolve hsolution hinside hnonzero

end Runs

/-! ## The run of one step -/

namespace OneStep

lemma regular_problem : problem.Regular where
  sides := by
    intro pair hpair
    obtain rfl : pair = (0, 1) := by simpa [problem] using hpair
    norm_num
  objective := by
    rintro x y fx fy gradient ⟨hx, -⟩ ⟨hy, -⟩ hfx hgradient hfy
    obtain ⟨a, rfl⟩ := List.length_eq_one_iff.1 hx.length_eq.symm
    obtain ⟨b, rfl⟩ := List.length_eq_one_iff.1 hy.length_eq.symm
    obtain rfl := Except.ok.inj hfx
    obtain rfl := Except.ok.inj hgradient
    obtain rfl := Except.ok.inj hfy
    simp only [Vec.inner, Vec.sum, problem]
    norm_num
    exact mul_self_nonneg _

lemma largestEigenvalue_one (rhs : Vec ℝ) :
    ConstraintBlock.largestEigenvalue ⟨.ofRow [1], rhs⟩ = .ok 1 := by
  rw [ConstraintBlock.largestEigenvalue_ofRow, one_pow]

lemma stepsClosed_draft : Config.StepsClosed ⟨draft none⟩ :=
  ⟨rfl, by simp [draft], .inr (.inl rfl), rfl⟩

lemma strictlyInside_start :
    Vec.strictlyInside problem.lower problem.upper problem.start = true := by
  simp only [problem, Vec.strictlyInside]
  norm_num

end OneStep

/-- The run of one step descends, against an equation and an inequality. -/
theorem descent_of_solve_oneStep : ∃ (prepared : Prepared ℝ) (report : RunReport ℝ Unit)
    (solution : Solution ℝ) (d : Dynamics ℝ) (p q : Iterate ℝ) (direction : Vec ℝ) (slope : ℝ),
    setup Unit OneStep.definition ⟨OneStep.draft none⟩ = .ok prepared ∧
    prepared.problem.Regular ∧ Config.StepsClosed ⟨OneStep.draft none⟩ ∧
    solve Unit prepared.problem ⟨OneStep.draft none⟩ .silent ()
      ConstraintBlock.largestEigenvalue = .ok report ∧
    report.outcome = .ok solution ∧
    Vec.strictlyInside prepared.problem.lower prepared.problem.upper prepared.problem.start =
      true ∧
    (Lagrangian.ofProblem prepared.problem solution.duals).gradient prepared.problem.start
      (Vec.zeros prepared.problem.slackDimension) = .ok [1] ∧
    Dynamics.ofProblem prepared.problem ⟨OneStep.draft none⟩ solution.duals
      ConstraintBlock.largestEigenvalue = .ok d ∧
    solution.trajectory.iterates[0]? = some p ∧ solution.trajectory.iterates[1]? = some q ∧
    d.HasSlope Unit p direction slope ∧ p.hidden.shiftScaled (1 / 30) direction = .ok q.hidden ∧
    q.objective ≤ p.objective + 1 / 2 * (1 / 30) * slope ∧
    p.objective + 1 / 2 * (1 / 30) * slope ≤ p.objective := by
  obtain ⟨notices, hsetup⟩ := OneStep.setup_definition none (by simp)
  obtain ⟨report, solution, s, hsolve, hsolution, hiterations, hduals, -, hsteps⟩ :=
    OneStep.solve_eq_of_radius OneStep.largestEigenvalue_one none rfl
  have hgradient : (Lagrangian.ofProblem OneStep.problem solution.duals).gradient
      OneStep.problem.start (Vec.zeros OneStep.problem.slackDimension) = .ok [1] := by
    rw [hduals, OneStep.zeros_slackDimension, OneStep.start_problem]
    exact OneStep.gradient_first none
  have hnonzero : ∀ gradient, (Lagrangian.ofProblem OneStep.problem solution.duals).gradient
      OneStep.problem.start (Vec.zeros OneStep.problem.slackDimension) = .ok gradient →
        Vec.isZero gradient = false := by
    intro gradient h
    obtain rfl : [1] = gradient := Except.ok.inj (hgradient.symm.trans h)
    simp [Vec.isZero]
  obtain ⟨d, hd, hdescent⟩ := descent_of_solve hsetup OneStep.regular_problem
    OneStep.stepsClosed_draft hsolve hsolution OneStep.strictlyInside_start hnonzero
  obtain ⟨p, q, step, direction, slope, hp, hq, hstep, hslope, hshift, hle, hle'⟩ :=
    hdescent 0 (by rw [hiterations]; exact one_pos)
  obtain rfl : 1 / 30 = step := by
    rw [hsteps] at hstep
    exact Option.some.inj hstep
  exact ⟨_, report, solution, d, p, q, direction, slope, hsetup, OneStep.regular_problem,
    OneStep.stepsClosed_draft, hsolve, hsolution, OneStep.strictlyInside_start, hgradient, hd,
    hp, hq, hslope, hshift, hle, hle'⟩

end HopfieldDescent

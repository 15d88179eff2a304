import Mathlib
import HopfieldDescent.Proofs.Config.Accepted
import HopfieldDescent.Proofs.Direction.Slope
import HopfieldDescent.Proofs.Lagrangian.Descent
import HopfieldDescent.Proofs.Run.Consistency

/-!
# Runs with backtracking do not go up

A direction that does not depend on chance has no positive slope, so that a trial that decreases
enough does not go up.  With backtracking the recorded objective therefore never increases, unless
the halvings have run out, and then the step is known: it is the first guess, the length of the
gradient over the smoothness coefficient, halved as often as there are halvings.

Nothing is asked of the objective here.
-/

namespace HopfieldDescent

/-! ## The gradient in use -/

section Gradient

variable {R G : Type} [Scalar R] [RandomSource G R] {d : Dynamics R}

/-- The gradient from which the direction at an iterate is found, given the one of the Lagrangian: a
random vector stands in for it at a start where it vanishes. -/
def Dynamics.gradientInUse (G : Type) [RandomSource G R] (d : Dynamics R) (iteration : Nat)
    (gradient : Vec R) : Vec R :=
  if iteration = 0 ∧ Vec.isZero gradient = true then
    (StartPoint.perturbedGradient d.problem.dimension d.problem.smoothness
      (RandomSource.ofSeed d.config.seed : G)).1
  else gradient

/-- The gradient of the start. -/
lemma Dynamics.gradient_of_start {p : Position R G}
    (h : d.start (RandomSource.ofSeed d.config.seed : G) = .ok (.ok p)) :
    ∃ gradient, d.lagrangian.gradient p.x p.slack = .ok gradient ∧
      p.gradient = d.gradientInUse G 0 gradient := by
  simp only [start, Outcome.bind_eq_ok] at h
  obtain ⟨hidden, -, objective, -, gradient, hgradient, h⟩ := h
  split_ifs at h with hfinite hzero
  · cases Outcome.pure_eq_ok.1 h
  · simp only [Outcome.bind_eq_ok, Outcome.pure_eq_ok, Except.ok.injEq] at h
    obtain ⟨stationarity, -, rfl⟩ := h
    exact ⟨gradient, hgradient, by simp [gradientInUse, hzero]⟩
  · simp only [Outcome.bind_eq_ok, Outcome.pure_eq_ok, Except.ok.injEq] at h
    obtain ⟨stationarity, -, rfl⟩ := h
    exact ⟨gradient, hgradient, by simp [gradientInUse, hzero]⟩

/-- Along a run directions are found from the gradient in use. -/
lemma Dynamics.Path.exists_gradientInUse {first last : Position R G} {n : Nat}
    {iterates : Array (Iterate R)} {steps : Array R}
    (path : d.Path first n last iterates steps)
    (hstart : d.start (RandomSource.ofSeed d.config.seed : G) = .ok (.ok first)) :
    ∃ x gradient, d.TakenAt n last.iterate x ∧
      d.lagrangian.gradient x last.slack = .ok gradient ∧
      last.gradient = d.gradientInUse G n gradient := by
  obtain ⟨x, gradient, htaken, -, hgradient, hsame, -⟩ := path.exists_takenAt hstart
  refine ⟨x, gradient, htaken, hgradient, ?_⟩
  cases path with
  | start =>
    obtain ⟨gradient', hgradient', huse⟩ := gradient_of_start hstart
    rw [htaken.start rfl] at hgradient
    obtain rfl : gradient' = gradient := Except.ok.inj (hgradient'.symm.trans hgradient)
    exact huse
  | @move n =>
    rw [hsame (.inl n.succ_ne_zero), gradientInUse, if_neg]
    rintro ⟨hzero, -⟩
    exact n.succ_ne_zero hzero

end Gradient

variable {G σ : Type} [RandomSource G ℝ]

/-- One step with backtracking does not go up, unless the halvings have run out. -/
lemma Dynamics.objective_le_of_move {problem : Problem ℝ} {config : Config ℝ}
    {duals : DualVariables ℝ} {d : Dynamics ℝ} {n : ℕ} {p q : Position ℝ G} {step : ℝ}
    (hproblem : problem.WellFormed) (htheta : config.theta ∈ Set.Icc 0 1)
    (hstep : config.step = .armijo) (hrule : config.direction ≠ .stochastic)
    (hd : ofProblem problem config duals = .ok d) (hmove : d.move n p = .ok (.ok (step, q))) :
    q.objective ≤ p.objective ∨ step = Vec.norm p.gradient / d.smoothness / 2 ^ 64 := by
  obtain ⟨smoothness, hsmoothness, rfl⟩ := ofProblem_eq_ok.1 hd
  obtain ⟨direction, source, c, hfind, hchosen, -, -, -, -, -, hobjective⟩ := move_eq_ok hmove
  simp only [chosenStep, hstep, Outcome.bind_eq_ok] at hchosen
  obtain ⟨proxy, hproxy, weighted, hweighted, slope, hslope, hbacktrack⟩ := hchosen
  have hnonpos := Direction.slope_nonpos hproblem htheta hrule hfind hproxy hweighted hslope
  have hguess : 0 ≤ Vec.norm p.gradient / smoothness :=
    div_nonneg (Vec.norm_nonneg _) (Lagrangian.effectiveSmoothness_pos hproblem hsmoothness).le
  obtain ⟨value, htrial, hend⟩ := StepLength.le_or_eq_of_backtrack hbacktrack hguess hnonpos
  obtain ⟨c', -, hpair⟩ := Outcome.bind_eq_ok.1 htrial
  obtain ⟨rfl, rfl⟩ := Prod.mk.inj (Outcome.pure_eq_ok.1 hpair)
  rw [hobjective]
  exact hend

/-- With backtracking and a direction that does not depend on chance, the recorded objective of a
run never increases, unless the halvings have run out: then the step is the length of the gradient
in use over the smoothness coefficient, divided by the power of two for all halvings.  Any accepted
problem and settings are meant, and any observer. -/
theorem objective_le_of_solve {definition : Definition ℝ} {setupConfig : Config ℝ}
    {prepared : Prepared ℝ} {draft : Settings ℝ} {config : Config ℝ}
    {observer : Observer σ (Event ℝ) Action} {w : σ} {report : RunReport ℝ σ}
    {solution : Solution ℝ} (hsetup : setup G definition setupConfig = .ok prepared)
    (hbuild : draft.build = .ok config) (hstep : config.step = .armijo)
    (hrule : config.direction ≠ .stochastic)
    (hsolve : solve G prepared.problem config observer w = .ok report)
    (hsolution : report.outcome = .ok solution) :
    ∃ d, Dynamics.ofProblem prepared.problem config solution.duals = .ok d ∧
      ∀ k < solution.iterations, ∃ p q step x gradient,
        solution.trajectory.iterates[k]? = some p ∧
        solution.trajectory.iterates[k + 1]? = some q ∧
        solution.trajectory.steps[k]? = some step ∧
        d.TakenAt k p x ∧ d.lagrangian.gradient x p.slack = .ok gradient ∧
        (q.objective ≤ p.objective ∨
          step = Vec.norm (d.gradientInUse G k gradient) / d.smoothness / 2 ^ 64) := by
  have hproblem := wellFormed_of_setup hsetup
  have htheta := Config.theta_mem_Icc hbuild
  obtain ⟨history⟩ := solve_history hsolve hsolution
  refine ⟨history.dynamics, history.dynamics_eq, fun k hk => ?_⟩
  obtain ⟨p, q, step, iterates, steps, path, -, moved, hp, hq, hstepk⟩ :=
    history.path.exists_move hk
  have hseed : history.dynamics.config = config := by
    obtain ⟨_, -, hd⟩ := Dynamics.ofProblem_eq_ok.1 history.dynamics_eq
    rw [hd]
  have hstart : history.dynamics.start (RandomSource.ofSeed history.dynamics.config.seed : G) =
      .ok (.ok history.first) := by
    rw [hseed]
    exact history.start_eq
  obtain ⟨x, gradient, htaken, hgradient, huse⟩ := path.exists_gradientInUse hstart
  have hle := Dynamics.objective_le_of_move hproblem htheta hstep hrule history.dynamics_eq moved
  rw [huse] at hle
  exact ⟨p.iterate, q.iterate, step, x, gradient, hp, hq, hstepk, htaken, hgradient, hle⟩

/-! ## A run that backtracks -/

namespace OneStep

/-- Room for one step of plain descent with backtracking. -/
noncomputable def backtracking : Config ℝ := ⟨{ draft none with step := .armijo }⟩

/-- The dynamics of the run that backtracks. -/
noncomputable def backtrackingDynamics : Dynamics ℝ := { dynamics none with config := backtracking }

/-- The coordinate of the point that the first guess leads to. -/
noncomputable def lowered : ℝ := Real.exp (-(2.0 / 3.0) - Real.log 2.0)

lemma lowered_eq : lowered = Real.exp (-(2 / 3) - Real.log 2) := by
  norm_num [lowered]

lemma lowered_mem_Ioc : lowered ∈ Set.Ioc 0 (1 / 2) := by
  refine ⟨Real.exp_pos _, ?_⟩
  have hexp : Real.exp (-(2 / 3)) ≤ 1 := Real.exp_le_one_iff.2 (by norm_num)
  rw [lowered_eq, Real.exp_sub, Real.exp_log two_pos]
  linarith

lemma build_backtracking : ({ draft none with step := .armijo } : Settings ℝ).build =
    .ok backtracking :=
  Settings.build_of_inRange { inRange_draft none (by simp) with }

lemma ofProblem_backtracking :
    Dynamics.ofProblem problem backtracking ⟨some [0], some [0]⟩ = .ok backtrackingDynamics := by
  obtain ⟨smoothness, hsmoothness, hdynamics⟩ := Dynamics.ofProblem_eq_ok.1 (ofProblem_eq none)
  refine Dynamics.ofProblem_eq_ok.2 ⟨smoothness, hsmoothness, ?_⟩
  rw [backtrackingDynamics, hdynamics]
  rfl

/-- The first guess is accepted. -/
lemma chosenStep_backtracking : backtrackingDynamics.chosenStep 0 first [-1] =
    .ok (1 / 3, ⟨[1 / 6], [lowered], [lowered - 1], lowered + lowered ^ 2 / 2⟩) := by
  obtain ⟨hpos, hle⟩ := lowered_mem_Ioc
  have hactivate : (dynamics none).map.activate [1 / 6] = .ok [lowered] := by
    simp [BoxMap.activate, Problem.boxMap, dynamics, problem, Vec.zipExact4, Vec.zipExact3,
      Vec.zipExact, Breach.sameLength, Outcome.ok_bind, BoxMap.lifted, BoxMap.normalized,
      Activation.squashing, ExponentialBranches.activate, lowered_eq]
    norm_num
  have hcandidate : backtrackingDynamics.candidate [1 / 2] [0] [-1] (1 / 3) =
      .ok ⟨[1 / 6], [lowered], [lowered - 1], lowered + lowered ^ 2 / 2⟩ := by
    refine Dynamics.candidate_eq_ok.2 ⟨?_, hactivate, ?_, ?_⟩
    · simp [Vec.shiftScaled, Vec.zipOnto]
      norm_num
    · exact (updateSlack_eq none lowered 0).trans (by rw [min_eq_left (by linarith)])
    · refine (value_eq none lowered (lowered - 1)).trans ?_
      rw [sub_self]
      norm_num
  have haccepted : StepLength.accepts (3 / 4) (-(1 / 2)) (1 / 3) (lowered + lowered ^ 2 / 2) =
      true := by
    simp only [StepLength.accepts, Scalar.literal_half, decide_eq_true_eq]
    nlinarith
  have hslope : Vec.dot [1 / 2] [-1] = .ok (-(1 / 2) : ℝ) := by
    simp [Vec.dot, Breach.sameLength, Vec.inner, Vec.sum]
  have hweighted : Vec.mul [1 / 2] [1] = .ok [(1 / 2 : ℝ)] := by
    simp [Vec.mul, Vec.zipSpread]
  have hguess : Vec.norm [(1 : ℝ)] / backtrackingDynamics.smoothness = 1 / 3 := by
    norm_num [Vec.norm, Vec.inner, Vec.sum, backtrackingDynamics, dynamics]
  have hrule : backtrackingDynamics.config.step = .armijo := rfl
  have hmap : backtrackingDynamics.map = (dynamics none).map := rfl
  simp only [Dynamics.chosenStep, first_eq, hmap, proxyDistance_first, hrule, hguess,
    Outcome.ok_bind, hweighted, hslope]
  refine StepLength.backtrack_of_accepts ?_ haccepted
  rw [hcandidate]
  rfl

lemma move_backtracking : ∃ stationarity, backtrackingDynamics.move 0 first =
    .ok (.ok (1 / 3, ⟨[lowered], [1 / 6], [lowered - 1], lowered + lowered ^ 2 / 2,
      [1 + lowered], stationarity, ()⟩)) := by
  have hfind : Direction.find backtrackingDynamics.problem backtrackingDynamics.map
      backtrackingDynamics.config first.x first.gradient first.source = .ok ([-1], ()) := by
    rw [first_eq]
    exact find_first none ()
  have hgradient : backtrackingDynamics.lagrangian.gradient [lowered] [lowered - 1] =
      .ok [1 + lowered] :=
    (gradient_eq none lowered (lowered - 1)).trans (by rw [sub_self, add_zero])
  have hfinite : Dynamics.isFinite (lowered + lowered ^ 2 / 2) [1 + lowered] = true := by
    simp [Dynamics.isFinite, Vec.isFinite]
  have habsorb : backtrackingDynamics.absorb [lowered] = .ok [lowered] := rfl
  obtain ⟨s, hs⟩ : ∃ s, backtrackingDynamics.stationarity [lowered] [1 + lowered] = .ok s := by
    have hmap : backtrackingDynamics.map = (dynamics none).map := rfl
    simp only [Dynamics.stationarity, hmap, proxyDistance_eq, Outcome.ok_bind]
    simp [Vec.mul, Vec.zipSpread]
  refine ⟨s, ?_⟩
  simp only [Dynamics.move, hfind, chosenStep_backtracking, hgradient, hfinite, habsorb, hs,
    Outcome.ok_bind, Bool.not_true, Bool.false_eq_true, if_false]
  rfl

/-- The run that backtracks makes one step. -/
lemma solve_backtracking : ∃ (report : RunReport ℝ Unit) (solution : Solution ℝ),
    solve Unit problem backtracking .silent () = .ok report ∧ report.outcome = .ok solution ∧
      solution.iterations = 1 := by
  obtain ⟨s, hmove⟩ := move_backtracking
  have hunsettled : ¬first.stationarity < backtrackingDynamics.config.precision := by
    change ¬first.stationarity < (1e-6 : ℝ)
    simp only [first_eq]
    norm_num
  have path : backtrackingDynamics.Path first 1 _ _ _ := .move .start hunsettled hmove
  have hcap : backtracking.maxIterations = 2 := rfl
  have hfits : ∀ iterate ∈ #[first.iterate, ⟨[lowered], [1 / 6], lowered + lowered ^ 2 / 2,
      [lowered - 1]⟩], iterate.Fits problem := by
    intro iterate hmem
    obtain rfl | rfl : iterate = first.iterate ∨ iterate = ⟨[lowered], [1 / 6],
        lowered + lowered ^ 2 / 2, [lowered - 1]⟩ := by simpa using hmem
    · exact fits_problem _ _ _ _
    · exact fits_problem _ _ _ _
  obtain ⟨report, solution, hsolve, hsolution, hiterations, -⟩ :=
    path.exists_solve (resolve_problem _ _) ofProblem_backtracking (start_eq none ())
      Observer.neverAnswers_silent hcap hfits ()
  exact ⟨report, solution, hsolve, hsolution, hiterations⟩

end OneStep

/-- The run that backtracks takes its first guess and goes down, against an equation and an
inequality. -/
theorem objective_le_of_solve_oneStep : ∃ (prepared : Prepared ℝ) (report : RunReport ℝ Unit)
    (solution : Solution ℝ) (d : Dynamics ℝ) (p q : Iterate ℝ) (step : ℝ) (x gradient : Vec ℝ),
    setup Unit OneStep.definition ⟨OneStep.draft none⟩ = .ok prepared ∧
    ({ OneStep.draft none with step := .armijo } : Settings ℝ).build = .ok OneStep.backtracking ∧
    OneStep.backtracking.step = .armijo ∧ OneStep.backtracking.direction ≠ .stochastic ∧
    solve Unit prepared.problem OneStep.backtracking .silent () = .ok report ∧
    report.outcome = .ok solution ∧ solution.iterations = 1 ∧
    solution.trajectory.iterates[0]? = some p ∧ solution.trajectory.iterates[1]? = some q ∧
    solution.trajectory.steps[0]? = some step ∧ d.TakenAt 0 p x ∧
    (q.objective ≤ p.objective ∨
      step = Vec.norm (d.gradientInUse Unit 0 gradient) / d.smoothness / 2 ^ 64) := by
  obtain ⟨notices, hsetup⟩ := OneStep.setup_definition none (by simp)
  obtain ⟨report, solution, hsolve, hsolution, hiterations⟩ := OneStep.solve_backtracking
  have hrule : OneStep.backtracking.direction ≠ .stochastic := by
    simp [OneStep.backtracking, OneStep.draft]
  obtain ⟨d, -, hdescent⟩ :=
    objective_le_of_solve hsetup OneStep.build_backtracking rfl hrule hsolve hsolution
  obtain ⟨p, q, step, x, gradient, hp, hq, hstep, htaken, -, hle⟩ :=
    hdescent 0 (by rw [hiterations]; exact one_pos)
  exact ⟨_, report, solution, d, p, q, step, x, gradient, hsetup, OneStep.build_backtracking, rfl,
    hrule, hsolve, hsolution, hiterations, hp, hq, hstep, htaken, hle⟩

end HopfieldDescent

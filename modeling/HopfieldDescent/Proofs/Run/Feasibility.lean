import Mathlib
import HopfieldDescent.Proofs.DenseMatrix.SingleEntry
import HopfieldDescent.Proofs.Dual.Fit
import HopfieldDescent.Proofs.Lagrangian.Slack
import HopfieldDescent.Proofs.Problem.StartBox
import HopfieldDescent.Proofs.Run.History
import HopfieldDescent.Proofs.Squashing.Range

/-!
# Feasibility of runs

In exact arithmetic every iterate after the start point lies in the box, and every slack is at most
zero.  A squashing function takes whatever hidden state there is into the box, and absorption only
moves coordinates onto bounds.  The identity does not squash, but with it the stationarity is zero
from the start, and no step is ever made.
-/

namespace HopfieldDescent

variable {G σ : Type}

/-! ## What one move does -/

/-- Squashing leads into the box. -/
lemma Problem.WellFormed.activate_inBox {problem : Problem ℝ} (hproblem : problem.WellFormed)
    {activation : Activation} (hactivation : activation ≠ .identity) {hidden x : Vec ℝ}
    (h : (problem.boxMap activation).activate hidden = .ok x) :
    Vec.InBox problem.lower problem.upper x := by
  refine Vec.inBox_of_zipExact4 h ?_
  intro i a l u gain _ hl hu hgain
  have hlt : l < u := hproblem.lower_lt_upper hl hu
  have hpos : 0 < gain := by
    simpa using hproblem.gain_isPositive gain (List.mem_of_getElem? hgain)
  obtain ⟨hnonneg, hle⟩ :=
    Activation.activate_mem_Icc hactivation hpos (BoxMap.normalized l u a)
  have hwidth : 0 ≤ u - l := by linarith
  simp only [BoxMap.lifted, Problem.boxMap, Set.mem_Icc]
  constructor
  · exact le_add_of_nonneg_right (mul_nonneg hwidth hnonneg)
  · linarith [mul_le_mul_of_nonneg_left hle hwidth]

namespace Dynamics

variable {d : Dynamics ℝ}

/-- Absorbing a point of the box leads to a point of the box. -/
lemma absorb_inBox {x y : Vec ℝ} (h : d.absorb x = .ok y)
    (hx : Vec.InBox d.problem.lower d.problem.upper x) :
    Vec.InBox d.problem.lower d.problem.upper y := by
  unfold absorb at h
  split at h
  · rename_i distance _
    refine Vec.inBox_of_zipExact4 h ?_
    intro i a l u m ha hl hu _
    have hmem := hx.mem_Icc hl hu ha
    have hle : l ≤ u := hmem.1.trans hmem.2
    unfold absorbed
    split_ifs
    · exact ⟨le_rfl, hle⟩
    · exact ⟨hle, le_rfl⟩
    · exact hmem
  · obtain rfl := Except.ok.inj h
    exact hx

end Dynamics

/-! ## What holds along a run -/

section Runs

variable [RandomSource G ℝ] {problem : Problem ℝ} {config : Config ℝ}
  {d : Dynamics ℝ} {duals : DualVariables ℝ} {first last : Position ℝ G} {n : ℕ}
  {iterates : Array (Iterate ℝ)} {steps : Array ℝ}

namespace Dynamics.Path

/-- After a move the point lies in the box. -/
theorem inBox (path : d.Path first n last iterates steps) (hproblem : problem.WellFormed)
    (hactivation : config.activation ≠ .identity)
    (hd : ofProblem problem config duals = .ok d) (hn : 1 ≤ n) :
    Vec.InBox problem.lower problem.upper last.x := by
  obtain ⟨_, -, rfl⟩ := ofProblem_eq_ok.1 hd
  cases path with
  | start => omega
  | move path unsettled moved =>
    obtain ⟨direction, source, c, -, hstep, -, habsorb, -⟩ := move_eq_ok moved
    obtain ⟨-, hactivate, -⟩ := candidate_eq_ok.1 (candidate_of_chosenStep hstep)
    exact absorb_inBox habsorb (hproblem.activate_inBox hactivation hactivate)

/-- The slack starts at zero, and no update raises it above zero. -/
theorem slack_nonpos {source : G} (path : d.Path first n last iterates steps)
    (hstart : d.start source = .ok (.ok first)) : ∀ s ∈ last.slack, s ≤ 0 := by
  cases path with
  | start =>
    obtain ⟨-, -, hslack, -⟩ := start_eq_ok hstart
    intro s hs
    rw [hslack, Vec.zeros] at hs
    rw [List.eq_of_mem_replicate hs]
    norm_num
  | move path unsettled moved =>
    obtain ⟨direction, source, c, -, hstep, -, -, -, -, hslack, -⟩ := move_eq_ok moved
    obtain ⟨-, -, hupdate, -⟩ := candidate_eq_ok.1 (candidate_of_chosenStep hstep)
    rw [hslack]
    exact Lagrangian.nonpos_of_updateSlack hupdate

/-- There is a slack for each inequality throughout a run. -/
theorem length_slack {source : G} (path : d.Path first n last iterates steps)
    (hstart : d.start source = .ok (.ok first)) {p : PenalizedBlock ℝ}
    (hp : d.lagrangian.inequality = some p) :
    last.slack.length = d.problem.slackDimension := by
  induction path with
  | start =>
    obtain ⟨-, -, hslack, -⟩ := start_eq_ok hstart
    rw [hslack, Vec.zeros, List.length_replicate]
  | move path unsettled moved ih =>
    obtain ⟨direction, source, c, -, hstep, -, -, -, -, hslack, -⟩ := move_eq_ok moved
    obtain ⟨-, -, hupdate, -⟩ := candidate_eq_ok.1 (candidate_of_chosenStep hstep)
    rw [hslack, Lagrangian.length_of_updateSlack hp hupdate, ih]

end Dynamics.Path

/-- The identity has no proxy distance, so that every point is stationary. -/
lemma Dynamics.stationarity_identity (hactivation : config.activation = .identity)
    (hd : ofProblem problem config duals = .ok d) {x gradient : Vec ℝ} {s : ℝ}
    (h : d.stationarity x gradient = .ok s) : s = 0 := by
  obtain ⟨_, -, rfl⟩ := ofProblem_eq_ok.1 hd
  obtain ⟨proxy, weighted, hproxy, hweighted, rfl⟩ := stationarity_eq_ok.1 h
  obtain ⟨-, -, -, rfl⟩ := Vec.zipExact4_eq_ok.1 hproxy
  refine Vec.norm_eq_zero_of_forall (Vec.eq_zero_of_mem_mul hweighted ?_)
  intro a ha
  obtain ⟨i, hi, rfl⟩ := List.mem_iff_getElem.1 ha
  rw [List.getElem_zipWith]
  simp only [Problem.boxMap, hactivation, Activation.squashing]
  norm_num

/-- A run with the identity never makes a step. -/
theorem Dynamics.Path.eq_zero_of_identity {source : G}
    (path : d.Path first n last iterates steps) (hactivation : config.activation = .identity)
    (hd : ofProblem problem config duals = .ok d) (hstart : d.start source = .ok (.ok first))
    (hprecision : 0 < config.precision) : n = 0 := by
  by_contra hn
  obtain ⟨p, q, step, iterates', steps', path', unsettled, -⟩ :=
    path.exists_move (Nat.pos_of_ne_zero hn)
  obtain ⟨_, -, hconfig⟩ := ofProblem_eq_ok.1 hd
  cases path' with
  | start =>
    obtain ⟨-, -, -, -, -, hstationarity⟩ := start_eq_ok hstart
    rw [stationarity_identity hactivation hd hstationarity, hconfig] at unsettled
    exact unsettled hprecision

/-! ## Whole runs -/

variable {definition : Definition ℝ} {setupConfig : Config ℝ} {prepared : Prepared ℝ}
  {draft : Settings ℝ} {observer : Observer σ (Event ℝ) Action} {w : σ} {report : RunReport ℝ σ}
  {solution : Solution ℝ}

/-- Every run of a problem that has been set up stays feasible, under every accepted configuration,
for every random source and every observer: the iterates after the start point lie in the box, and
with inequalities there is at every iterate a slack of at most zero for each of them. -/
theorem feasible_of_solve (hsetup : setup G definition setupConfig = .ok prepared)
    (hbuild : draft.build = .ok config)
    (hsolve : solve G prepared.problem config observer w = .ok report)
    (hsolution : report.outcome = .ok solution) :
    (∀ k, 1 ≤ k → k ≤ solution.iterations → ∃ iterate,
      solution.trajectory.iterates[k]? = some iterate ∧
        Vec.InBox prepared.problem.lower prepared.problem.upper iterate.x) ∧
    (∀ block ∈ prepared.problem.inequalities, ∀ k ≤ solution.iterations, ∃ iterate,
      solution.trajectory.iterates[k]? = some iterate ∧ iterate.slack.length = block.height ∧
        ∀ s ∈ iterate.slack, s ≤ 0) ∧
    (config.activation = .identity → solution.iterations = 0) := by
  have hproblem := wellFormed_of_setup hsetup
  obtain ⟨hconfig, hrange⟩ := Settings.inRange_of_build hbuild
  obtain ⟨history⟩ := solve_history hsolve hsolution
  have hprecision : 0 < config.precision := by
    rw [hconfig]
    simpa using hrange.precision
  have hidentity (h : config.activation = .identity) : solution.iterations = 0 :=
    history.path.eq_zero_of_identity h history.dynamics_eq history.start_eq hprecision
  refine ⟨?_, ?_, hidentity⟩
  · intro k hk hk'
    have hactivation : config.activation ≠ .identity := by
      intro h
      have := hidentity h
      omega
    obtain ⟨p, iterates, steps, path, hget⟩ := history.path.exists_position hk'
    exact ⟨p.iterate, hget, path.inBox hproblem hactivation history.dynamics_eq hk⟩
  · intro block hblock k hk
    obtain ⟨p, iterates, steps, path, hget⟩ := history.path.exists_position hk
    refine ⟨p.iterate, hget, ?_, path.slack_nonpos history.start_eq⟩
    have hfit := (DualAscent.fit_of_resolve hproblem history.resolved).inequality
    rw [Option.mem_def.1 hblock, Option.map_some, Option.map_eq_some_iff] at hfit
    obtain ⟨dual, hdual, -⟩ := hfit
    obtain ⟨_, -, hd⟩ := Dynamics.ofProblem_eq_ok.1 history.dynamics_eq
    have hinequality : history.dynamics.lagrangian.inequality =
        some ⟨block, dual, prepared.problem.inequalityPenalty⟩ := by
      rw [hd]
      simp only [Lagrangian.ofProblem, Option.mem_def.1 hblock]
      rw [show solution.duals.inequality = some dual from hdual]
      rfl
    have hslack : history.dynamics.problem.slackDimension = block.height := by
      rw [hd]
      simp only [Problem.slackDimension, Option.mem_def.1 hblock]
    exact (path.length_slack history.start_eq hinequality).trans hslack

end Runs

/-! ## A run of one step -/

namespace OneStep

/-- A slope over the unit interval, with an equation and an inequality that pull at both ends. -/
noncomputable def definition : Definition ℝ where
  objective := Landscape.linear [1]
  lower := [0]
  upper := [1]
  equalities := some (.ofRow [1], [0])
  inequalities := some (.ofRow [1], [1])
  smoothness := some 1
  equalityPenalty := 1
  inequalityPenalty := 1
  equalityDual := some [0]
  inequalityDual := some [0]

/-- Room for one step of plain descent, with or without absorption. -/
noncomputable def draft (absorption : Option ℝ) : Settings ℝ :=
  { Settings.standard with
    activation := .exponential
    direction := .classic
    ascentStop := some 0.5
    absorption
    maxIterations := 2 }

/-- The slope as a problem. -/
noncomputable def problem : Problem ℝ where
  objective := Landscape.linear [1]
  lower := [0]
  upper := [1]
  midpoint := [0.5]
  binary := [false]
  equalities := some ⟨.ofRow [1], [0]⟩
  inequalities := some ⟨.ofRow [1], [1]⟩
  equalityPenalty := 1
  inequalityPenalty := 1
  smoothness := 1
  start := [0.5]
  gain := [1]
  equalityDual := some [0]
  inequalityDual := some [0]

lemma start_problem : problem.start = [1 / 2] := by
  simp [problem]

lemma inRange_draft (absorption : Option ℝ) (h : ∀ a ∈ absorption, 0 ≤ a) :
    (draft absorption).InRange :=
  { Settings.inRange_standard with
    ascentStop := by norm_num [draft]
    absorption := fun a ha => by simpa using h a ha
    maxIterations := by simp [draft] }

lemma setup_definition (absorption : Option ℝ) (h : ∀ a ∈ absorption, a < 0.5) :
    ∃ notices, setup Unit definition ⟨draft absorption⟩ = .ok ⟨problem, notices⟩ := by
  have hframe : definition.frame =
      .ok ⟨[false], some ⟨.ofRow [1], [0]⟩, some ⟨.ofRow [1], [1]⟩, some [0], some [0]⟩ := by
    unfold Definition.frame definition
    simp [Definition.badBounds?, Definition.boundsEnclose, Definition.checkMask,
      Definition.checkBlock, ConstraintBlock.ofSystem, DenseMatrix.ofRow, DenseMatrix.height,
      DenseMatrix.entries, Vec.isFinite, ConstraintBlock.checkColumns, ConstraintBlock.width,
      ConstraintBlock.height, Outcome.ok_bind, Definition.checkPenalty, Definition.checkDual,
      Definition.checkStart]
  have hsmoothness : definition.findSmoothness () = .ok (1, [], ()) := rfl
  have hgain := Config.coordinateGains_of_uniform ⟨draft absorption⟩ rfl [false]
  have hmidpoint : boxMidpoint definition.lower definition.upper = .ok [0.5] := by
    simp [boxMidpoint, definition, Vec.zipExact, Breach.sameLength]
  obtain ⟨_, hstart⟩ : ∃ source', StartPoint.compute ⟨draft absorption⟩ definition.objective
      definition.lower definition.upper [false] 1 definition.start () =
        .ok ([0.5], source') := by
    -- the ends of the shrunk box meet in the centre
    have hstop : Config.effectiveAscentStop ⟨draft absorption⟩ = 0.5 :=
      Config.effectiveAscentStop_of_lt rfl h
    refine StartPoint.compute_of_not_strictlyInside () hmidpoint
      (rfl : definition.objective.gradient [0.5] = .ok [1]) ?_ ?_
    · simp [Vec.strictlyInside, hstop, definition]
    · simp [hstop, definition, Vec.zipExact3, Vec.zipExact, Breach.sameLength, Outcome.ok_bind]
      norm_num
  exact ⟨_, setup_eq hframe hsmoothness (by simp) hgain hstart hmidpoint⟩

/-- The dynamics of the run. -/
noncomputable def dynamics (absorption : Option ℝ) : Dynamics ℝ where
  problem := problem
  config := ⟨draft absorption⟩
  lagrangian := .ofProblem problem ⟨some [0], some [0]⟩
  map := problem.boxMap .exponential
  smoothness := 1 + 1 + 1

lemma gramSpectralRadius_one : (DenseMatrix.ofRow [(1 : ℝ)]).gramSpectralRadius = .ok 1 := by
  simpa using DenseMatrix.gramSpectralRadius_ofRow (one_ne_zero : (1 : ℝ) ≠ 0)

/-- Whatever measures a single entry of one as one leads to the same dynamics. -/
lemma ofProblem_eq_of_radius {radius : ConstraintBlock ℝ → Checked ℝ}
    (hradius : ∀ rhs, radius ⟨.ofRow [1], rhs⟩ = .ok 1) (absorption : Option ℝ) :
    Dynamics.ofProblem problem ⟨draft absorption⟩ ⟨some [0], some [0]⟩ radius =
      .ok (dynamics absorption) := by
  simp [Dynamics.ofProblem, Problem.effectiveSmoothness, Problem.blockSmoothness, problem,
    hradius, Outcome.ok_bind, dynamics, draft]

lemma ofProblem_eq (absorption : Option ℝ) :
    Dynamics.ofProblem problem ⟨draft absorption⟩ ⟨some [0], some [0]⟩ =
      .ok (dynamics absorption) :=
  ofProblem_eq_of_radius (fun _ => gramSpectralRadius_one) absorption

lemma value_eq (absorption : Option ℝ) (x s : ℝ) :
    (dynamics absorption).lagrangian.value [x] [s] =
      .ok (x + x ^ 2 / 2 + (x - 1 - s) ^ 2 / 2) := by
  simp [Lagrangian.value, dynamics, Lagrangian.ofProblem, problem, Landscape.linear,
    Objective.ofFunctions, Lagrangian.penalized, Vec.inner, Vec.sum, Outcome.ok_bind]
  ring

lemma gradient_eq (absorption : Option ℝ) (x s : ℝ) :
    (dynamics absorption).lagrangian.gradient [x] [s] = .ok [1 + x + (x - 1 - s)] := by
  simp [Lagrangian.gradient, dynamics, Lagrangian.ofProblem, problem, Landscape.linear,
    Objective.ofFunctions, Lagrangian.penalized, Vec.shift, Vec.zipOnto, Outcome.ok_bind]

lemma updateSlack_eq (absorption : Option ℝ) (x s : ℝ) :
    (dynamics absorption).lagrangian.updateSlack [x] [s] = .ok [min (x - 1) 0] := by
  simp [Lagrangian.updateSlack, Lagrangian.slackGradient, dynamics, Lagrangian.ofProblem, problem,
    Lagrangian.penalized, Vec.zipExact, Breach.sameLength, Vec.neg, Outcome.ok_bind]

lemma proxyDistance_eq (absorption : Option ℝ) (x : ℝ) :
    (dynamics absorption).map.proxyDistance [x] =
      .ok [min (Scalar.clamp 0 1 x) (1 - Scalar.clamp 0 1 x)] := by
  simp [BoxMap.proxyDistance, Problem.boxMap, dynamics, problem, Vec.zipExact4, Vec.zipExact3,
    Vec.zipExact, Breach.sameLength, Outcome.ok_bind, BoxMap.normalized, Activation.squashing,
    ExponentialBranches.proxy]

lemma zeros_slackDimension : Vec.zeros problem.slackDimension = [(0 : ℝ)] := by
  simp [Vec.zeros, problem, Problem.slackDimension, ConstraintBlock.height, DenseMatrix.height,
    DenseMatrix.ofRow]

/-- The pulls of the two constraints cancel in the centre. -/
lemma gradient_first (absorption : Option ℝ) :
    (dynamics absorption).lagrangian.gradient [1 / 2] [0] = .ok [1] := by
  rw [gradient_eq]
  norm_num

/-- The first position. -/
noncomputable def first : Position ℝ Unit :=
  ⟨[0.5], [0.5], [0], 0.75, [1], 0.5, ()⟩

lemma first_eq : first = ⟨[1 / 2], [1 / 2], [0], 3 / 4, [1], 1 / 2, ()⟩ := by
  norm_num [first]

lemma proxyDistance_first (absorption : Option ℝ) :
    (dynamics absorption).map.proxyDistance [1 / 2] = .ok [1 / 2] := by
  rw [proxyDistance_eq, Scalar.clamp_of_mem_Icc (by norm_num)]
  norm_num

lemma start_eq (absorption : Option ℝ) (g : Unit) :
    (dynamics absorption).start g = .ok (.ok first) := by
  have hinverse : (dynamics absorption).map.inverse [1 / 2] = .ok [1 / 2] := by
    simp [BoxMap.inverse, Problem.boxMap, dynamics, problem, Vec.zipExact4, Vec.zipExact3,
      Vec.zipExact, Breach.sameLength, Outcome.ok_bind, BoxMap.lifted, BoxMap.normalized,
      Activation.squashing, ExponentialBranches.inverse]
    norm_num
  have hstart : (dynamics absorption).problem.start = [1 / 2] := start_problem
  have hzeros : Vec.zeros (dynamics absorption).problem.slackDimension = [(0 : ℝ)] :=
    zeros_slackDimension
  have hstationarity : (dynamics absorption).stationarity [1 / 2] [1] = .ok (1 / 2) := by
    simp only [Dynamics.stationarity, proxyDistance_first, Outcome.ok_bind]
    simp [Vec.mul, Vec.zipSpread, Vec.norm, Vec.inner, Vec.sum]
  have hfinite : Dynamics.isFinite (3 / 4 : ℝ) [1] = true := by
    simp [Dynamics.isFinite, Vec.isFinite]
  have hzero : Vec.isZero [(1 : ℝ)] = false := by simp [Vec.isZero]
  have hobjective : (1 / 2 : ℝ) + (1 / 2) ^ 2 / 2 + (1 / 2 - 1 - 0) ^ 2 / 2 = 3 / 4 := by
    norm_num
  simp only [Dynamics.start, hstart, hinverse, hzeros, value_eq, gradient_first, Outcome.ok_bind,
    hobjective, hfinite, hzero, Bool.not_true, Bool.false_eq_true, if_false, hstationarity,
    first_eq]
  rfl

/-- The coordinate of the point that the step leads to. -/
noncomputable def reached : ℝ := Real.exp (-(1 / 15.0) - Real.log 2.0)

lemma reached_eq : reached = Real.exp (-(1 / 15) - Real.log 2) := by
  norm_num [reached]

lemma reached_pos : 0 < reached := Real.exp_pos _

lemma reached_lt : reached < 0.49 := by
  have hexp : Real.exp (-(1 / 15)) ≤ 15 / 16 := by
    have := Real.add_one_le_exp (1 / 15 : ℝ)
    rw [Real.exp_neg, inv_le_comm₀ (Real.exp_pos _) (by norm_num)]
    linarith
  rw [reached_eq, Real.exp_sub, Real.exp_log two_pos]
  norm_num at hexp ⊢
  linarith

/-- The position after the step, at a point with the given coordinate. -/
noncomputable def second (x stationarity : ℝ) : Position ℝ Unit :=
  ⟨[x], [7.0 / 15.0], [reached - 1], reached + 0.5 * reached ^ 2, [1 + reached], stationarity, ()⟩

lemma second_eq (x stationarity : ℝ) : second x stationarity =
    ⟨[x], [7 / 15], [reached - 1], reached + reached ^ 2 / 2, [1 + reached], stationarity, ()⟩ := by
  norm_num [second]
  ring

lemma activate_step (absorption : Option ℝ) :
    (dynamics absorption).map.activate [7 / 15] = .ok [reached] := by
  simp [BoxMap.activate, Problem.boxMap, dynamics, problem, Vec.zipExact4, Vec.zipExact3,
    Vec.zipExact, Breach.sameLength, Outcome.ok_bind, BoxMap.lifted, BoxMap.normalized,
    Activation.squashing, ExponentialBranches.activate, reached]
  norm_num

lemma chosenStep_first (absorption : Option ℝ) :
    (dynamics absorption).chosenStep 0 first [-1] =
      .ok (1 / 30, ⟨[7 / 15], [reached], [reached - 1], reached + reached ^ 2 / 2⟩) := by
  have hstep : StepLength.closedForm [1 / 2] [1] [-1] [1] (3 : ℝ) = .ok (1 / 30) := by
    simp [StepLength.closedForm, Vec.zipExact, Vec.zipExact3, Breach.sameLength, Vec.sum,
      Outcome.ok_bind, StepLength.curvatureFloor]
    norm_num
  have hshift : Vec.shiftScaled [1 / 2] (1 / 30) [-1] = .ok [(7 / 15 : ℝ)] := by
    simp [Vec.shiftScaled, Vec.zipOnto]
    norm_num
  have hslack : min (reached - 1) 0 = reached - 1 := by
    have := reached_lt
    exact min_eq_left (by norm_num at this ⊢; linarith)
  have hcandidate : (dynamics absorption).candidate [1 / 2] [0] [-1] (1 / 30) =
      .ok ⟨[7 / 15], [reached], [reached - 1], reached + reached ^ 2 / 2⟩ := by
    refine Dynamics.candidate_eq_ok.2 ⟨hshift, activate_step absorption, ?_, ?_⟩
    · rw [updateSlack_eq, hslack]
    · rw [value_eq, sub_self]
      norm_num
  have hrule : (dynamics absorption).config.step = .classic ∧
      (dynamics absorption).config.direction = .classic := ⟨rfl, rfl⟩
  have hparts : (dynamics absorption).problem.gain = [1] ∧
      (dynamics absorption).smoothness = 3 := ⟨rfl, by norm_num [dynamics]⟩
  simp only [Dynamics.chosenStep, first_eq, proxyDistance_first, hrule.1, hrule.2, hparts.1,
    hparts.2, hstep, hcandidate, Outcome.ok_bind]
  rfl

/-- The direction is down the slope, and the mask of a point in the centre is one. -/
lemma find_first (absorption : Option ℝ) (g : Unit) : Direction.find
    (dynamics absorption).problem (dynamics absorption).map (dynamics absorption).config
    [1 / 2] [1] g = .ok ([-1], ()) := by
  have hrule : (dynamics absorption).config.direction = .classic := rfl
  have hnormalize : Vec.normalize [(-1 : ℝ)] = [-1] := by
    simp [Vec.normalize, Vec.norm, Vec.inner, Vec.sum]
  have hdescent (mask : Option (Vec ℝ)) (hmask : ∀ m ∈ mask, m = [1]) :
      Direction.descent [1] mask = .ok [(-1 : ℝ)] := by
    cases mask with
    | none => rfl
    | some m => simp [hmask m rfl, Direction.descent, Vec.neg, Vec.mul, Vec.zipSpread]
  cases absorption with
  | none =>
    have habsorbs : (dynamics none).config.absorbs = false := rfl
    simp only [Direction.find, habsorbs, hrule, Outcome.ok_bind, Bool.false_eq_true, if_false]
    simp [hdescent none (by simp), hnormalize]
  | some a =>
    have habsorbs : (dynamics (some a)).config.absorbs = true := rfl
    have hmask : Direction.absorptionMask (dynamics (some a)).problem [1 / 2] = .ok [1] := by
      simp [Direction.absorptionMask, dynamics, problem, Vec.zipExact4, Vec.zipExact3,
        Vec.zipExact, Breach.sameLength, Outcome.ok_bind]
    simp only [Direction.find, habsorbs, hrule, hmask, Outcome.ok_bind, if_true]
    simp [hdescent (some [1]) (by simp), hnormalize, Outcome.ok_bind]

lemma move_first {absorption : Option ℝ} {x : ℝ}
    (h : (dynamics absorption).absorb [reached] = .ok [x]) :
    ∃ stationarity, (dynamics absorption).move 0 first =
      .ok (.ok (1 / 30, second x stationarity)) := by
  have hgradient : 1 + reached + (reached - 1 - (reached - 1)) = 1 + reached := by ring
  have hfinite : Dynamics.isFinite (reached + reached ^ 2 / 2) [1 + reached] = true := by
    simp [Dynamics.isFinite, Vec.isFinite]
  have hstationarity : ∃ s, (dynamics absorption).stationarity [x] [1 + reached] = .ok s := by
    simp only [Dynamics.stationarity, proxyDistance_eq, Outcome.ok_bind]
    simp [Vec.mul, Vec.zipSpread]
  obtain ⟨s, hs⟩ := hstationarity
  refine ⟨s, ?_⟩
  have hfirst : first.x = [1 / 2] ∧ first.gradient = [1] := by
    rw [first_eq]
    exact ⟨rfl, rfl⟩
  simp only [Dynamics.move, hfirst.1, hfirst.2, find_first, chosenStep_first, gradient_eq,
    hgradient, hfinite, h, hs, Outcome.ok_bind, Bool.not_true, Bool.false_eq_true, if_false]
  rw [second_eq]
  rfl

lemma path_eq {absorption : Option ℝ} {x : ℝ}
    (h : (dynamics absorption).absorb [reached] = .ok [x]) :
    ∃ stationarity, (dynamics absorption).Path first 1 (second x stationarity)
      #[first.iterate, (second x stationarity).iterate] #[1 / 30] := by
  obtain ⟨s, hmove⟩ := move_first h
  have hunsettled : ¬first.stationarity < (dynamics absorption).config.precision := by
    change ¬first.stationarity < (1e-6 : ℝ)
    simp only [first_eq]
    norm_num
  exact ⟨s, .move .start hunsettled hmove⟩

lemma fits_problem (x hidden objective slack : ℝ) :
    Iterate.Fits ⟨[x], [hidden], objective, [slack]⟩ problem := ⟨rfl, rfl, rfl⟩

/-- The duals of the problem are complete. -/
lemma resolve_problem (settings : DualAscentSettings ℝ) (radius : ConstraintBlock ℝ → Checked ℝ) :
    DualAscent.resolve problem settings radius = .ok (⟨⟨some [0], some [0]⟩, .supplied⟩,
      [⟨.debug, "using supplied dual variables", []⟩]) := rfl

theorem solve_eq_of_radius {radius : ConstraintBlock ℝ → Checked ℝ}
    (hradius : ∀ rhs, radius ⟨.ofRow [1], rhs⟩ = .ok 1) (absorption : Option ℝ) {x : ℝ}
    (h : (dynamics absorption).absorb [reached] = .ok [x]) :
    ∃ (report : RunReport ℝ Unit) (solution : Solution ℝ) (stationarity : ℝ),
      solve Unit problem ⟨draft absorption⟩ .silent () radius = .ok report ∧
      report.outcome = .ok solution ∧ solution.iterations = 1 ∧
      solution.duals = ⟨some [0], some [0]⟩ ∧
      solution.trajectory.iterates = #[first.iterate, (second x stationarity).iterate] ∧
      solution.trajectory.steps = #[1 / 30] := by
  obtain ⟨s, path⟩ := path_eq h
  have hfits : ∀ iterate ∈ #[first.iterate, (second x s).iterate], iterate.Fits problem := by
    intro iterate hmem
    obtain rfl | rfl : iterate = first.iterate ∨ iterate = (second x s).iterate := by
      simpa using hmem
    · exact fits_problem _ _ _ _
    · exact fits_problem _ _ _ _
  obtain ⟨report, solution, hsolve, hsolution, hiterations, hduals, hiterates, hsteps⟩ :=
    path.exists_solve (resolve_problem _ radius) (ofProblem_eq_of_radius hradius absorption)
      (start_eq absorption ()) Observer.neverAnswers_silent rfl hfits ()
  exact ⟨report, solution, s, hsolve, hsolution, hiterations, hduals, hiterates, hsteps⟩

theorem solve_eq (absorption : Option ℝ) {x : ℝ}
    (h : (dynamics absorption).absorb [reached] = .ok [x]) :
    ∃ (report : RunReport ℝ Unit) (solution : Solution ℝ) (stationarity : ℝ),
      solve Unit problem ⟨draft absorption⟩ .silent () = .ok report ∧
      report.outcome = .ok solution ∧ solution.iterations = 1 ∧
      solution.duals = ⟨some [0], some [0]⟩ ∧
      solution.trajectory.iterates = #[first.iterate, (second x stationarity).iterate] ∧
      solution.trajectory.steps = #[1 / 30] :=
  solve_eq_of_radius (fun _ => gramSpectralRadius_one) absorption h

end OneStep

/-- The run of one step is feasible: it leaves the start point and has a slack. -/
theorem feasible_of_solve_oneStep : ∃ (prepared : Prepared ℝ) (report : RunReport ℝ Unit)
    (solution : Solution ℝ),
    setup Unit OneStep.definition ⟨OneStep.draft none⟩ = .ok prepared ∧
    (OneStep.draft none).build = .ok ⟨OneStep.draft none⟩ ∧
    solve Unit prepared.problem ⟨OneStep.draft none⟩ .silent () = .ok report ∧
    report.outcome = .ok solution ∧ solution.iterations = 1 ∧
    (∀ k, 1 ≤ k → k ≤ solution.iterations → ∃ iterate,
      solution.trajectory.iterates[k]? = some iterate ∧
        Vec.InBox prepared.problem.lower prepared.problem.upper iterate.x) ∧
    (∀ block ∈ prepared.problem.inequalities, ∀ k ≤ solution.iterations, ∃ iterate,
      solution.trajectory.iterates[k]? = some iterate ∧ iterate.slack.length = block.height ∧
        ∀ s ∈ iterate.slack, s ≤ 0) := by
  obtain ⟨notices, hsetup⟩ := OneStep.setup_definition none (by simp)
  have hbuild := Settings.build_of_inRange (OneStep.inRange_draft none (by simp))
  obtain ⟨report, solution, _, hsolve, hsolution, hiterations, -⟩ :=
    OneStep.solve_eq none rfl
  have h := feasible_of_solve hsetup hbuild hsolve hsolution
  exact ⟨_, report, solution, hsetup, hbuild, hsolve, hsolution, hiterations, h.1, h.2.1⟩

end HopfieldDescent

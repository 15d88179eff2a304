import Mathlib
import HopfieldDescent.Proofs.DenseMatrix.SingleEntry
import HopfieldDescent.Proofs.Dual.InnerDescent
import HopfieldDescent.Proofs.Problem.StartBox

/-!
# When the inner descent descends

The inner descent takes the reciprocal of the smoothness coefficient as its rate.  The coefficient
is made for the curvature along the point.  Along the slack the penalty on inequalities curves as
well, by itself, and the coefficient knows of it only through the largest eigenvalue of the Gram
matrix.  With a penalty `ρ`, an eigenvalue `r` and a coefficient `M`, every step descends as long as

  `ρ (M + ρ r) ≤ 2 M²`,

which holds without inequalities and whenever the eigenvalue is at least one
(`Problem.coversSlack_of_one_le`).  Against a faint row and a large penalty it fails, and steps go
up.  A single row shows when (`SingleRow.first_step_ascends_iff`), and at `step_ascends_faintRow`
the first step multiplies the Lagrangian by nearly a thousand.
-/

namespace HopfieldDescent.InnerDescent

/-! ## A single row -/

namespace SingleRow

/-- The configuration whose start ascent stops in the centre of an interval of length two. -/
noncomputable def config : Config ℝ :=
  ⟨{ Settings.standard with ascentStop := some 1 }⟩

/-- Nothing to minimise around zero but the penalty of `a x ≤ b`. -/
noncomputable def definition (a b penalty : ℝ) : Definition ℝ :=
  { Definition.ofBox Landscape.flat [-1] [1] with
    inequalities := some (.ofRow [a], [b])
    smoothness := some 1
    inequalityPenalty := penalty }

/-- The same as a problem. -/
noncomputable def problem (a b penalty : ℝ) : Problem ℝ where
  objective := Landscape.flat
  lower := [-1]
  upper := [1]
  midpoint := [0]
  binary := [false]
  equalities := none
  inequalities := some ⟨.ofRow [a], [b]⟩
  equalityPenalty := 0.0
  inequalityPenalty := penalty
  smoothness := 1
  start := [0]
  gain := [1]
  equalityDual := none
  inequalityDual := none

/-- A vanishing dual for the row. -/
def duals : DualVariables ℝ := ⟨none, some [0]⟩

variable {a b penalty : ℝ}

lemma setup_definition (a b : ℝ) (hpenalty : 0 < penalty) :
    ∃ notices, setup Unit (definition a b penalty) config =
      .ok ⟨problem a b penalty, notices⟩ := by
  have hframe : (definition a b penalty).frame =
      .ok ⟨[false], none, some ⟨.ofRow [a], [b]⟩, none, none⟩ := by
    unfold Definition.frame definition
    simp [Definition.ofBox, Definition.badBounds?, Definition.boundsEnclose, Definition.checkMask,
      Definition.checkBlock, ConstraintBlock.ofSystem, DenseMatrix.ofRow, DenseMatrix.height,
      DenseMatrix.entries, Vec.isFinite, ConstraintBlock.checkColumns, ConstraintBlock.width,
      Definition.checkPenalty, Definition.checkDual, Definition.checkStart, Outcome.ok_bind,
      hpenalty]
  have hsmoothness : (definition a b penalty).findSmoothness () = .ok (1, [], ()) := rfl
  have hgain := Config.coordinateGains_of_uniform config rfl [false]
  have hmidpoint : boxMidpoint (definition a b penalty).lower (definition a b penalty).upper =
      .ok [0] := by
    simp [boxMidpoint, definition, Definition.ofBox, Vec.zipExact, Breach.sameLength]
  obtain ⟨_, hstart⟩ : ∃ source', StartPoint.compute config (definition a b penalty).objective
      (definition a b penalty).lower (definition a b penalty).upper [false] 1
      (definition a b penalty).start () = .ok ([0], source') := by
    have hstop : config.effectiveAscentStop = 1 := rfl
    refine StartPoint.compute_of_not_strictlyInside () hmidpoint
      (rfl : (definition a b penalty).objective.gradient [0] = .ok [0.0]) ?_ ?_
    · simp [Vec.strictlyInside, hstop, definition, Definition.ofBox]
    · simp [hstop, definition, Definition.ofBox, Vec.zipExact3, Vec.zipExact, Breach.sameLength,
        Outcome.ok_bind]
  exact ⟨_, setup_eq hframe hsmoothness (by simp) hgain hstart hmidpoint⟩

lemma effectiveSmoothness_problem (ha : a ≠ 0) :
    (problem a b penalty).effectiveSmoothness = .ok (1 + penalty * a ^ 2) := by
  simp [Problem.effectiveSmoothness, Problem.blockSmoothness, problem,
    ConstraintBlock.gramSpectralRadius, DenseMatrix.gramSpectralRadius_ofRow ha, Outcome.ok_bind]

lemma value_eq (a b penalty x s : ℝ) :
    (Lagrangian.ofProblem (problem a b penalty) duals).value [x] [s] =
      .ok (penalty / 2 * (a * x - b - s) ^ 2) := by
  simp [Lagrangian.value, Lagrangian.ofProblem, problem, duals, Landscape.flat,
    Objective.ofFunctions, Lagrangian.penalized, Outcome.ok_bind]

lemma gradient_eq (x s : ℝ) :
    (Lagrangian.ofProblem (problem a b penalty) duals).gradient [x] [s] =
      .ok [a * ((a * x - b - s) * penalty)] := by
  simp [Lagrangian.gradient, Lagrangian.ofProblem, problem, duals, Landscape.flat,
    Objective.ofFunctions, Lagrangian.penalized, Vec.shift, Vec.zipOnto, Outcome.ok_bind]

lemma slackGradient_eq (x s : ℝ) :
    (Lagrangian.ofProblem (problem a b penalty) duals).slackGradient [x] [s] =
      .ok [-((a * x - b - s) * penalty)] := by
  simp [Lagrangian.slackGradient, Lagrangian.ofProblem, problem, duals, Lagrangian.penalized,
    Vec.neg, Outcome.ok_bind]

lemma smoothOn_problem : (problem a b penalty).objective.SmoothOn [-1] [1] 1 := by
  rintro x y fx fy gradient ⟨hx, -⟩ ⟨hy, -⟩ hfx hgradient hfy
  obtain ⟨p, rfl⟩ := List.length_eq_one_iff.1 hx.length_eq.symm
  obtain ⟨q, rfl⟩ := List.length_eq_one_iff.1 hy.length_eq.symm
  obtain rfl := Except.ok.inj hfx
  obtain rfl := Except.ok.inj hgradient
  obtain rfl := Except.ok.inj hfy
  simp only [Vec.inner, Vec.sum]
  norm_num
  exact mul_self_nonneg _

lemma exactRadius_problem (ha : a ≠ 0) :
    ∀ block ∈ (problem a b penalty).inequalities,
      block.ExactRadius ConstraintBlock.gramSpectralRadius := by
  rintro block ⟨⟩
  exact ConstraintBlock.exactRadius_ofRow ha [b]

lemma start_inBox : Vec.InBox (problem a b penalty).lower (problem a b penalty).upper
    (problem a b penalty).start := by
  simp [Vec.InBox, problem]

lemma fit_duals : duals.Fit (problem a b penalty) := ⟨rfl, rfl⟩

/-- The first place is zero in both parts. -/
lemma first_problem (a b penalty : ℝ) : Place.first (problem a b penalty) = ⟨[0], [0]⟩ := by
  simp [Place.first, problem, Vec.zeros, Problem.slackDimension, ConstraintBlock.height,
    DenseMatrix.height, DenseMatrix.ofRow]

lemma value_first (a b penalty : ℝ) :
    (Lagrangian.ofProblem (problem a b penalty) duals).value (problem a b penalty).start
      (Vec.zeros (problem a b penalty).slackDimension) = .ok (penalty / 2 * b ^ 2) := by
  have hzeros : Vec.zeros (problem a b penalty).slackDimension = [(0 : ℝ)] :=
    congrArg Place.slack (first_problem a b penalty)
  have hstart : (problem a b penalty).start = [0] := rfl
  rw [hzeros, hstart, value_eq]
  ring_nf

/-- The first step goes up the row and down the slack. -/
lemma step_first (a b penalty rate tolerance : ℝ) (hb : 0 ≤ rate * (b * penalty))
    (hx : rate * (a * (b * penalty)) ∈ Set.Icc (-1) 1) :
    ∃ size, (Descent.ofProblem (problem a b penalty) duals rate tolerance).step
        (.first (problem a b penalty)) =
      .ok (⟨[rate * (a * (b * penalty))], [-(rate * (b * penalty))]⟩, size) := by
  have hgradient : (Lagrangian.ofProblem (problem a b penalty) duals).gradient [0] [0] =
      .ok [-(a * (b * penalty))] := by
    rw [gradient_eq]
    ring_nf
  have hslackGradient : (Lagrangian.ofProblem (problem a b penalty) duals).slackGradient [0] [0] =
      .ok [b * penalty] := by
    rw [slackGradient_eq]
    ring_nf
  have hmoved : Vec.shiftScaled [0] (-rate) [-(a * (b * penalty))] =
      .ok [rate * (a * (b * penalty))] := by
    simp [Vec.shiftScaled, Vec.zipOnto]
  have hmovedSlack : Vec.shiftScaled [0] (-rate) [b * penalty] =
      .ok [-(rate * (b * penalty))] := by
    simp [Vec.shiftScaled, Vec.zipOnto]
  have hproject : projectOntoBox [-1] [1] [rate * (a * (b * penalty))] =
      .ok [rate * (a * (b * penalty))] := by
    have hlu : (-1 : ℝ) ≤ 1 := by norm_num
    simp [projectOntoBox, Vec.zipExact3, Vec.zipExact, Breach.sameLength, Outcome.ok_bind, project,
      hlu, Scalar.clamp_of_mem_Icc hx]
  have hcut : min (-(rate * (b * penalty))) 0 = -(rate * (b * penalty)) :=
    min_eq_left (neg_nonpos.2 hb)
  have hbounds : (problem a b penalty).lower = [-1] ∧ (problem a b penalty).upper = [1] :=
    ⟨rfl, rfl⟩
  simp only [Descent.step, Descent.ofProblem, first_problem, hgradient, hslackGradient, hmoved,
    hmovedSlack, hbounds.1, hbounds.2, hproject, Outcome.ok_bind, List.map_cons, List.map_nil,
    Scalar.minNum_real, Scalar.literal_zero, hcut, Vec.sub]
  exact ⟨_, rfl⟩

/-- At the reciprocal of the smoothness coefficient the first step goes up exactly if the row is
shorter than one and the penalty is large against what is missing. -/
theorem first_step_ascends_iff (ha : a ≠ 0) (hpenalty : 0 < penalty) (hb : 0 < b) {smoothness : ℝ}
    (hsmoothness : (problem a b penalty).effectiveSmoothness = .ok smoothness)
    (hx : 1.0 / smoothness * (a * (b * penalty)) ∈ Set.Icc (-1) 1) (tolerance : ℝ) :
    ∃ next size v v',
      (Descent.ofProblem (problem a b penalty) duals (1.0 / smoothness) tolerance).step
        (.first (problem a b penalty)) = .ok (next, size) ∧
      (Lagrangian.ofProblem (problem a b penalty) duals).value (problem a b penalty).start
        (Vec.zeros (problem a b penalty).slackDimension) = .ok v ∧
      (Lagrangian.ofProblem (problem a b penalty) duals).value next.x next.slack = .ok v' ∧
      (v < v' ↔ 2 < penalty * (1 - a ^ 2)) := by
  obtain rfl := Except.ok.inj ((effectiveSmoothness_problem ha).symm.trans hsmoothness)
  have hpos : 0 < 1 + penalty * a ^ 2 := by positivity
  have hslack : 0 ≤ 1.0 / (1 + penalty * a ^ 2) * (b * penalty) := by
    rw [Scalar.literal_one]
    positivity
  obtain ⟨size, hstep⟩ := step_first a b penalty _ tolerance hslack hx
  refine ⟨_, size, _, _, hstep, value_first a b penalty, value_eq a b penalty _ _, ?_⟩
  -- the residual is multiplied by one less than `w`
  set w := penalty * (1 + a ^ 2) / (1 + penalty * a ^ 2) with hw
  have hw' : 0 < w := by positivity
  have hresidual : a * (1.0 / (1 + penalty * a ^ 2) * (a * (b * penalty))) - b -
      -(1.0 / (1 + penalty * a ^ 2) * (b * penalty)) = b * (w - 1) := by
    rw [Scalar.literal_one, hw]
    field_simp
    ring
  have hhalf : 0 < penalty / 2 := half_pos hpenalty
  rw [hresidual, mul_lt_mul_iff_right₀ hhalf, mul_pow, lt_mul_iff_one_lt_right (by positivity)]
  calc 1 < (w - 1) ^ 2 ↔ 0 < w * (w - 2) := by
        rw [← sub_pos]
        ring_nf
    _ ↔ 2 < w := by rw [mul_pos_iff_of_pos_left hw', sub_pos]
    _ ↔ 2 < penalty * (1 - a ^ 2) := by
        rw [hw, lt_div_iff₀ hpos]
        constructor <;> intro h <;> linarith

end SingleRow

/-! ## Whole descents -/

section Descents

variable {radius : ConstraintBlock ℝ → Checked ℝ} {problem : Problem ℝ} {duals : DualVariables ℝ}
  {tolerance smoothness size : ℝ} {place next : Place ℝ}

/-- The inner descent leaves the Lagrangian no larger than it found it, if the coefficient covers
the slack and the objective has a value throughout the box.  The coefficient comes from any radius
that does not fall below the largest eigenvalues. -/
theorem value_le_of_minimize (hproblem : problem.WellFormed)
    (hconstrained : problem.isConstrained = true)
    (hobjective : problem.objective.SmoothOn problem.lower problem.upper problem.smoothness)
    (htotal : ∀ x, Vec.InBox problem.lower problem.upper x →
      ∃ f, problem.objective.value x = .ok f)
    (hequalities : ∀ block ∈ problem.equalities, block.BoundedBy radius)
    (hinequalities : ∀ block ∈ problem.inequalities, block.BoundedBy radius)
    (hstart : Vec.InBox problem.lower problem.upper problem.start) (hduals : duals.Fit problem)
    (hsmoothness : problem.effectiveSmoothness radius = .ok smoothness)
    (hcovers : problem.CoversSlack smoothness radius) {settings : DualAscentSettings ℝ}
    {last : Place ℝ}
    (h : minimize problem duals (1.0 / smoothness) settings = .ok last) :
    ∃ v v', (Lagrangian.ofProblem problem duals).value problem.start
        (Vec.zeros problem.slackDimension) = .ok v ∧
      (Lagrangian.ofProblem problem duals).value last.x last.slack = .ok v' ∧ v' ≤ v := by
  have hfits := Lagrangian.fits_ofProblem hproblem hduals
  have hvalue {place : Place ℝ} (hplace : place.Admissible problem duals) :
      ∃ v, (Lagrangian.ofProblem problem duals).value place.x place.slack = .ok v := by
    obtain ⟨f, hf⟩ := htotal place.x hplace.inBox
    exact Lagrangian.exists_value hfits hplace.slackFits hplace.inBox.length_eq hf
  obtain ⟨v, hv⟩ := hvalue (Place.admissible_first hstart)
  -- along the steps the value at the first place is never exceeded
  have hle {place : Place ℝ}
      (hreaches : (Descent.ofProblem problem duals (1.0 / smoothness) settings.tolerance).Reaches
        (.first problem) place) :
      ∃ v', (Lagrangian.ofProblem problem duals).value place.x place.slack = .ok v' ∧
        v' ≤ v := by
    induction hreaches with
    | start => exact ⟨v, hv, le_rfl⟩
    | step reached stepped ih =>
      have hplace := reached.admissible hstart
      obtain ⟨v', hv', hle⟩ := ih
      obtain ⟨v'', hv''⟩ := hvalue (hplace.step stepped)
      exact ⟨v'', hv'', (hplace.value_le_of_step hproblem hduals hconstrained hobjective
        hequalities hinequalities hsmoothness hcovers stepped hv' hv'').trans hle⟩
  obtain ⟨v', hv', hle⟩ := hle (reaches_of_minimize h)
  exact ⟨v, v', hv, hv', hle⟩

variable {G : Type} [RandomSource G ℝ] {definition : Definition ℝ} {config : Config ℝ}
  {prepared : Prepared ℝ}

/-- No step of the inner descent of a problem that has been set up goes up, at any duals with an
entry for each constraint, if the rate is the reciprocal of the smoothness coefficient and the
coefficient covers the slack.  The coefficient comes from any radius that does not fall below the
largest eigenvalues, such as the largest eigenvalue itself. -/
theorem value_le_of_reaches (hsetup : setup G definition config = .ok prepared)
    (hconstrained : prepared.problem.isConstrained = true)
    (hobjective : prepared.problem.objective.SmoothOn prepared.problem.lower
      prepared.problem.upper prepared.problem.smoothness)
    (hequalities : ∀ block ∈ prepared.problem.equalities, block.BoundedBy radius)
    (hinequalities : ∀ block ∈ prepared.problem.inequalities, block.BoundedBy radius)
    (hstart : Vec.InBox prepared.problem.lower prepared.problem.upper prepared.problem.start)
    (hduals : duals.Fit prepared.problem)
    (hsmoothness : prepared.problem.effectiveSmoothness radius = .ok smoothness)
    (hcovers : prepared.problem.CoversSlack smoothness radius)
    (hreaches : (Descent.ofProblem prepared.problem duals (1.0 / smoothness) tolerance).Reaches
      (.first prepared.problem) place)
    (hstep : (Descent.ofProblem prepared.problem duals (1.0 / smoothness) tolerance).step place =
      .ok (next, size)) {f f' : ℝ} (hf : prepared.problem.objective.value place.x = .ok f)
    (hf' : prepared.problem.objective.value next.x = .ok f') :
    ∃ v v', (Lagrangian.ofProblem prepared.problem duals).value place.x place.slack = .ok v ∧
      (Lagrangian.ofProblem prepared.problem duals).value next.x next.slack = .ok v' ∧
      v' ≤ v := by
  have hproblem := wellFormed_of_setup hsetup
  have hfits := Lagrangian.fits_ofProblem hproblem hduals
  have hplace := hreaches.admissible hstart
  have hnext := hplace.step hstep
  obtain ⟨v, hvalue⟩ :=
    Lagrangian.exists_value hfits hplace.slackFits hplace.inBox.length_eq hf
  obtain ⟨v', hvalue'⟩ :=
    Lagrangian.exists_value hfits hnext.slackFits hnext.inBox.length_eq hf'
  exact ⟨v, v', hvalue, hvalue', hplace.value_le_of_step hproblem hduals hconstrained hobjective
    hequalities hinequalities hsmoothness hcovers hstep hvalue hvalue'⟩

end Descents

/-- Against a row that keeps lengths, the first step takes the whole penalty away. -/
theorem value_le_of_reaches_unitRow : ∃ (prepared : Prepared ℝ) (next : Place ℝ)
    (size v v' : ℝ),
    setup Unit (SingleRow.definition 1 0.5 1) SingleRow.config = .ok prepared ∧
    prepared.problem.isConstrained = true ∧
    prepared.problem.objective.SmoothOn prepared.problem.lower prepared.problem.upper
      prepared.problem.smoothness ∧
    (∀ block ∈ prepared.problem.equalities,
      block.ExactRadius ConstraintBlock.gramSpectralRadius) ∧
    (∀ block ∈ prepared.problem.inequalities,
      block.ExactRadius ConstraintBlock.gramSpectralRadius) ∧
    Vec.InBox prepared.problem.lower prepared.problem.upper prepared.problem.start ∧
    SingleRow.duals.Fit prepared.problem ∧
    prepared.problem.effectiveSmoothness = .ok 2 ∧ prepared.problem.CoversSlack 2 ∧
    (Descent.ofProblem prepared.problem SingleRow.duals (1.0 / 2)
      SingleRow.config.dualAscent.tolerance).step (.first prepared.problem) =
        .ok (next, size) ∧
    next = ⟨[0.25], [-0.25]⟩ ∧
    (Lagrangian.ofProblem prepared.problem SingleRow.duals).value prepared.problem.start
      (Vec.zeros prepared.problem.slackDimension) = .ok v ∧
    (Lagrangian.ofProblem prepared.problem SingleRow.duals).value next.x next.slack = .ok v' ∧
    v' ≤ v := by
  obtain ⟨notices, hsetup⟩ := SingleRow.setup_definition 1 0.5 one_pos
  have hsmoothness : (SingleRow.problem 1 0.5 1).effectiveSmoothness = .ok 2 := by
    rw [SingleRow.effectiveSmoothness_problem one_ne_zero]
    norm_num
  have hcovers : (SingleRow.problem 1 0.5 1).CoversSlack 2 := by
    refine Problem.coversSlack_of_one_le (wellFormed_of_setup hsetup) (by rintro block ⟨⟩)
      hsmoothness ?_
    rintro block ⟨⟩ r hr
    have hradius := DenseMatrix.gramSpectralRadius_ofRow (one_ne_zero : (1 : ℝ) ≠ 0)
    rw [one_pow] at hradius
    exact (Except.ok.inj (hradius.symm.trans hr)).le
  obtain ⟨size, hstep⟩ := SingleRow.step_first 1 0.5 1 (1.0 / 2)
    SingleRow.config.dualAscent.tolerance (by norm_num) (by norm_num)
  have hnext : (⟨[1.0 / 2 * (1 * (0.5 * 1))], [-(1.0 / 2 * (0.5 * 1))]⟩ : Place ℝ) =
      ⟨[0.25], [-0.25]⟩ := by
    norm_num
  rw [hnext] at hstep
  obtain ⟨v, v', hvalue, hvalue', hle⟩ := value_le_of_reaches hsetup rfl
    SingleRow.smoothOn_problem (by rintro block ⟨⟩)
    (fun block hblock => (SingleRow.exactRadius_problem one_ne_zero block hblock).boundedBy)
    SingleRow.start_inBox SingleRow.fit_duals hsmoothness hcovers .start hstep rfl rfl
  exact ⟨_, _, size, v, v', hsetup, rfl, SingleRow.smoothOn_problem, by rintro block ⟨⟩,
    SingleRow.exactRadius_problem one_ne_zero, SingleRow.start_inBox, SingleRow.fit_duals,
    hsmoothness, hcovers, hstep, rfl, hvalue, hvalue', hle⟩

/-- Against a faint row with a large penalty, the first step of the inner descent goes up, although
everything else is as it should be: the objective is as smooth as its coefficient says, the radius
is exact and the start point lies in the box. -/
theorem step_ascends_faintRow : ∃ (prepared : Prepared ℝ) (next : Place ℝ) (size v v' : ℝ),
    setup Unit (SingleRow.definition 0.125 5e-12 64) SingleRow.config = .ok prepared ∧
    prepared.problem.isConstrained = true ∧
    prepared.problem.objective.SmoothOn prepared.problem.lower prepared.problem.upper
      prepared.problem.smoothness ∧
    (∀ block ∈ prepared.problem.equalities,
      block.ExactRadius ConstraintBlock.gramSpectralRadius) ∧
    (∀ block ∈ prepared.problem.inequalities,
      block.ExactRadius ConstraintBlock.gramSpectralRadius) ∧
    Vec.InBox prepared.problem.lower prepared.problem.upper prepared.problem.start ∧
    SingleRow.duals.Fit prepared.problem ∧
    prepared.problem.effectiveSmoothness = .ok 2 ∧
    (Descent.ofProblem prepared.problem SingleRow.duals (1.0 / 2)
      SingleRow.config.dualAscent.tolerance).step (.first prepared.problem) =
        .ok (next, size) ∧
    (Lagrangian.ofProblem prepared.problem SingleRow.duals).value prepared.problem.start
      (Vec.zeros prepared.problem.slackDimension) = .ok v ∧
    (Lagrangian.ofProblem prepared.problem SingleRow.duals).value next.x next.slack = .ok v' ∧
    v < v' := by
  have hrow : (0.125 : ℝ) ≠ 0 := by norm_num
  obtain ⟨notices, hsetup⟩ :=
    SingleRow.setup_definition 0.125 5e-12 (by norm_num : (0 : ℝ) < 64)
  have hsmoothness : (SingleRow.problem 0.125 5e-12 64).effectiveSmoothness = .ok 2 := by
    rw [SingleRow.effectiveSmoothness_problem hrow]
    norm_num
  obtain ⟨next, size, v, v', hstep, hvalue, hvalue', hiff⟩ := SingleRow.first_step_ascends_iff hrow
    (by norm_num) (by norm_num) hsmoothness (by norm_num) SingleRow.config.dualAscent.tolerance
  exact ⟨_, next, size, v, v', hsetup, rfl, SingleRow.smoothOn_problem, by rintro block ⟨⟩,
    SingleRow.exactRadius_problem hrow, SingleRow.start_inBox, SingleRow.fit_duals, hsmoothness,
    hstep, hvalue, hvalue', hiff.2 (by norm_num)⟩

end HopfieldDescent.InnerDescent

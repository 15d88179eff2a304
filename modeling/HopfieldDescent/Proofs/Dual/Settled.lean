import Mathlib
import HopfieldDescent.Objective.Landscape
import HopfieldDescent.Problem.Setup
import HopfieldDescent.Proofs.Dual.Fit
import HopfieldDescent.Proofs.Problem.StartBox
import HopfieldDescent.Proofs.Scalar.Extended

/-!
# When the dual ascent has converged

The ascent reports convergence after the first update whose move is below the tolerance.  The move
is the larger one of those of the two blocks, and the larger of two values drops an operand that is
not a number, while a block that is absent moves by zero.  So a block whose move is not a number
counts as settled, unless the other block's move is not a number either.

`converged_iff` says so exactly.  A problem with equations alone, whose gradient is not a number in
part of the box, is reported to have converged with duals that are not numbers
(`converged_nanWall`).
-/

namespace HopfieldDescent.DualAscent

section Ascents

variable {R : Type} [Scalar R]

/-! ## The updates of an ascent -/

/-- The ascent of a problem. -/
def Ascent.ofProblem (problem : Problem R) (settings : DualAscentSettings R) :
    Checked (Ascent R) := do
  return ⟨problem, settings, 1.0 / (← problem.effectiveSmoothness)⟩

/-- The duals after a number of updates, and the factor on the next step. -/
def Ascent.updated (ascent : Ascent R) : ℕ → Checked (DualVariables R × R)
  | 0 => .ok (initialDuals ascent.problem ascent.settings, 1.0)
  | k + 1 => do
    let (duals, decay) ← ascent.updated k
    return (← ascent.update duals decay, decay * ascent.settings.stepDecay)

/-- How far the duals of the equations and of the inequalities move in the update after the first
`k` of them. -/
def Ascent.Moves (ascent : Ascent R) (k : ℕ) (equality inequality : R) : Prop :=
  ∃ before after : DualVariables R × R, ascent.updated k = .ok before ∧
    ascent.updated (k + 1) = .ok after ∧
    blockChange before.1.equality after.1.equality = .ok equality ∧
    blockChange before.1.inequality after.1.inequality = .ok inequality

/-- Each block moves by less than the tolerance, or by what is not a number, and one of them by a
number. -/
def Settles (tolerance equality inequality : R) : Prop :=
  (equality < tolerance ∨ Scalar.isNaN equality = true) ∧
    (inequality < tolerance ∨ Scalar.isNaN inequality = true) ∧
    ¬(Scalar.isNaN equality = true ∧ Scalar.isNaN inequality = true)

variable {ascent : Ascent R} {problem : Problem R} {settings : DualAscentSettings R}
  {duals duals' : DualVariables R} {progress : Progress R} {remaining k m : ℕ}
  {equality inequality : R}

/-- One more update. -/
lemma Ascent.updated_succ {after : DualVariables R × R} : ascent.updated (k + 1) = .ok after ↔
    ∃ before : DualVariables R × R, ascent.updated k = .ok before ∧
      ascent.update before.1 before.2 = .ok after.1 ∧
      after.2 = before.2 * ascent.settings.stepDecay := by
  simp only [updated, Outcome.bind_eq_ok, Outcome.pure_eq_ok]
  constructor
  · rintro ⟨before, hbefore, duals, hduals, rfl⟩
    exact ⟨before, hbefore, hduals, rfl⟩
  · rintro ⟨before, hbefore, hduals, hdecay⟩
    exact ⟨before, hbefore, _, hduals, by rw [← hdecay]⟩

/-- From known duals on, the moves of an update are those of its blocks. -/
lemma Ascent.moves_iff (hprogress : ascent.updated k = .ok (progress.duals, progress.decay)) :
    ascent.Moves k equality inequality ↔
      ∃ duals, ascent.update progress.duals progress.decay = .ok duals ∧
        ascent.updated (k + 1) = .ok (duals, progress.decay * ascent.settings.stepDecay) ∧
        blockChange progress.duals.equality duals.equality = .ok equality ∧
        blockChange progress.duals.inequality duals.inequality = .ok inequality := by
  constructor
  · rintro ⟨before, after, hbefore, hafter, hequality, hinequality⟩
    obtain rfl := Except.ok.inj (hbefore.symm.trans hprogress)
    obtain ⟨before', hbefore', hupdate, hdecay⟩ := updated_succ.1 hafter
    obtain rfl := Except.ok.inj (hbefore'.symm.trans hprogress)
    exact ⟨after.1, hupdate, by rw [hafter, ← hdecay], hequality, hinequality⟩
  · rintro ⟨duals, -, hupdated, hequality, hinequality⟩
    exact ⟨_, _, hprogress, hupdated, hequality, hinequality⟩

/-- The duals fit after any number of updates. -/
lemma Ascent.fit_updated {after : DualVariables R × R} (h : ascent.updated k = .ok after) :
    after.1.Fit ascent.problem := by
  induction k generalizing after with
  | zero =>
    obtain rfl := Except.ok.inj h
    exact fit_initialDuals
  | succ k ih =>
    obtain ⟨before, hbefore, hupdate, -⟩ := updated_succ.1 h
    exact fit_of_update (ih hbefore) hupdate

/-- Duals of a block that is absent do not move. -/
lemma blockChange_of_absent {block : Option (ConstraintBlock R)} {before after : Option (Vec R)}
    {size : R} (hafter : after.map List.length = block.map ConstraintBlock.height)
    (hblock : block = none) (h : blockChange before after = .ok size) : size = 0.0 := by
  obtain rfl : after = none := by simpa [hblock] using hafter
  cases before <;> exact (Except.ok.inj h).symm

/-- A block that is absent never moves. -/
lemma Ascent.Moves.eq_zero (h : ascent.Moves k equality inequality) :
    (ascent.problem.equalities = none → equality = 0.0) ∧
      (ascent.problem.inequalities = none → inequality = 0.0) := by
  obtain ⟨before, after, -, hafter, hequality, hinequality⟩ := h
  have hfit := fit_updated hafter
  exact ⟨fun hblock => blockChange_of_absent hfit.equality hblock hequality,
    fun hblock => blockChange_of_absent hfit.inequality hblock hinequality⟩

/-- The move of an update is the larger one of those of the two blocks. -/
lemma change_eq_ok {size : R} : change duals duals' = .ok size ↔
    ∃ equality inequality, blockChange duals.equality duals'.equality = .ok equality ∧
      blockChange duals.inequality duals'.inequality = .ok inequality ∧
      Scalar.maxNum equality inequality = size := by
  simp only [change, Outcome.bind_eq_ok, Outcome.pure_eq_ok]
  constructor
  · rintro ⟨equality, hequality, inequality, hinequality, hsize⟩
    exact ⟨equality, inequality, hequality, hinequality, hsize⟩
  · rintro ⟨equality, inequality, hequality, hinequality, hsize⟩
    exact ⟨equality, hequality, inequality, hinequality, hsize⟩

/-- An estimate is where the ascent of the problem ends, if it climbs from the start. -/
lemma estimate_eq_ok {found : DualEstimate R × List (Notice R)} :
    estimate problem settings = .ok found ↔
      ∃ ascent, Ascent.ofProblem problem settings = .ok ascent ∧
        ascent.climb settings.maxOuter 1 ⟨initialDuals problem settings, 1.0, none, []⟩ =
          .ok found := by
  simp only [estimate, Ascent.ofProblem, Outcome.bind_eq_ok, Outcome.pure_eq_ok]
  constructor
  · rintro ⟨smoothness, hsmoothness, h⟩
    exact ⟨_, ⟨smoothness, hsmoothness, rfl⟩, h⟩
  · rintro ⟨_, ⟨smoothness, hsmoothness, rfl⟩, h⟩
    exact ⟨smoothness, hsmoothness, h⟩

/-- The ascent of a problem keeps the problem and the settings. -/
lemma Ascent.eq_of_ofProblem (h : Ascent.ofProblem problem settings = .ok ascent) :
    ascent.problem = problem ∧ ascent.settings = settings := by
  obtain ⟨smoothness, -, h⟩ := Outcome.bind_eq_ok.1 h
  obtain rfl := Outcome.pure_eq_ok.1 h
  exact ⟨rfl, rfl⟩

/-! ## Where the climb ends -/

section Ends

variable [IeeeComparison R]

/-- A climb ends with an update that settles. -/
lemma Ascent.climb_of_settles (remaining outer : ℕ)
    (hupdate : ascent.update progress.duals progress.decay = .ok duals')
    (hequality : blockChange progress.duals.equality duals'.equality = .ok equality)
    (hinequality : blockChange progress.duals.inequality duals'.inequality = .ok inequality)
    (hsettles : Settles ascent.settings.tolerance equality inequality) :
    ∃ said, ascent.climb (remaining + 1) outer progress =
      .ok (⟨duals', .converged outer⟩, said) := by
  have hchange := change_eq_ok.2 ⟨equality, inequality, hequality, hinequality, rfl⟩
  have hlt := Scalar.maxNum_lt_iff.2 hsettles
  simp only [climb, hupdate, hchange, Outcome.ok_bind, if_pos hlt]
  exact ⟨_, rfl⟩

/-- A climb goes on after another update, and remembers the smallest move. -/
lemma Ascent.climb_of_not_settles (remaining outer : ℕ)
    (hupdate : ascent.update progress.duals progress.decay = .ok duals')
    (hequality : blockChange progress.duals.equality duals'.equality = .ok equality)
    (hinequality : blockChange progress.duals.inequality duals'.inequality = .ok inequality)
    (hsettles : ¬Settles ascent.settings.tolerance equality inequality) :
    ∃ said, ascent.climb (remaining + 1) outer progress =
      ascent.climb remaining (outer + 1)
        ⟨duals', progress.decay * ascent.settings.stepDecay,
          Best.keep progress.best (Scalar.maxNum equality inequality) duals', said⟩ := by
  have hchange := change_eq_ok.2 ⟨equality, inequality, hequality, hinequality, rfl⟩
  have hlt := mt Scalar.maxNum_lt_iff.1 hsettles
  simp only [climb, hupdate, hchange, Outcome.ok_bind, if_neg hlt]
  exact ⟨_, rfl⟩

/-- From the duals after `m` updates on, a climb converges with the first update that settles. -/
lemma Ascent.climb_converged_iff
    (hprogress : ascent.updated m = .ok (progress.duals, progress.decay)) :
    (∃ said, ascent.climb remaining (m + 1) progress = .ok (⟨duals, .converged k⟩, said)) ↔
      m < k ∧ k ≤ m + remaining ∧ (∃ decay, ascent.updated k = .ok (duals, decay)) ∧
      ∀ j, m ≤ j → j < k → ∃ equality inequality, ascent.Moves j equality inequality ∧
        (Settles ascent.settings.tolerance equality inequality ↔ j + 1 = k) := by
  induction remaining generalizing m progress with
  | zero =>
    constructor
    · rintro ⟨said, h⟩
      simp [climb, giveUp] at h
    · rintro ⟨hlt, hle, -⟩
      omega
  | succ remaining ih =>
    constructor
    · rintro ⟨said, h⟩
      obtain ⟨duals', hupdate, h'⟩ := Outcome.bind_eq_ok.1 h
      obtain ⟨size, hsize, -⟩ := Outcome.bind_eq_ok.1 h'
      obtain ⟨equality, inequality, hequality, hinequality, -⟩ := change_eq_ok.1 hsize
      have hupdated : ascent.updated (m + 1) =
          .ok (duals', progress.decay * ascent.settings.stepDecay) :=
        updated_succ.2 ⟨_, hprogress, hupdate, rfl⟩
      have hmove := (moves_iff hprogress).2 ⟨_, hupdate, hupdated, hequality, hinequality⟩
      by_cases hsettles : Settles ascent.settings.tolerance equality inequality
      · obtain ⟨said', hend⟩ :=
          climb_of_settles remaining (m + 1) hupdate hequality hinequality hsettles
        obtain ⟨⟨rfl, rfl⟩, -⟩ : (duals' = duals ∧ m + 1 = k) ∧ said' = said := by
          simpa using hend.symm.trans h
        refine ⟨by omega, by omega, ⟨_, hupdated⟩, fun j hmj hjk => ?_⟩
        obtain rfl : j = m := by omega
        exact ⟨equality, inequality, hmove, iff_of_true hsettles rfl⟩
      · obtain ⟨said', hon⟩ :=
          climb_of_not_settles remaining (m + 1) hupdate hequality hinequality hsettles
        obtain ⟨hlt, hle, hduals, hmoves⟩ := (ih hupdated).1 ⟨said, hon.symm.trans h⟩
        refine ⟨by omega, by omega, hduals, fun j hmj hjk => ?_⟩
        rcases hmj.eq_or_lt with rfl | hmj
        · exact ⟨equality, inequality, hmove, iff_of_false hsettles (by omega)⟩
        · exact hmoves j hmj hjk
    · rintro ⟨hlt, hle, ⟨decay, hduals⟩, hmoves⟩
      obtain ⟨equality, inequality, hmove, hiff⟩ := hmoves m le_rfl hlt
      obtain ⟨duals', hupdate, hupdated, hequality, hinequality⟩ := (moves_iff hprogress).1 hmove
      by_cases hk : m + 1 = k
      · subst hk
        obtain ⟨rfl, -⟩ : duals' = duals ∧ _ = decay := by simpa using hupdated.symm.trans hduals
        exact climb_of_settles remaining (m + 1) hupdate hequality hinequality (hiff.2 rfl)
      · obtain ⟨said, hon⟩ :=
          climb_of_not_settles remaining (m + 1) hupdate hequality hinequality (mt hiff.1 hk)
        rw [hon]
        exact (ih hupdated).2
          ⟨by omega, by omega, ⟨decay, hduals⟩, fun j hmj => hmoves j (by omega)⟩

/-- When the dual ascent reports convergence: after the update with the number `k`, if that is the
first one in which each block moves by less than the tolerance or by what is not a number, and not
both of them by the latter.  A block that is absent moves by zero. -/
theorem converged_iff :
    (∃ said, estimate problem settings = .ok (⟨duals, .converged k⟩, said)) ↔
      ∃ ascent, Ascent.ofProblem problem settings = .ok ascent ∧ 0 < k ∧ k ≤ settings.maxOuter ∧
        (∃ decay, ascent.updated k = .ok (duals, decay)) ∧
        ∀ j < k, ∃ equality inequality, ascent.Moves j equality inequality ∧
          (problem.equalities = none → equality = 0.0) ∧
          (problem.inequalities = none → inequality = 0.0) ∧
          (Settles settings.tolerance equality inequality ↔ j + 1 = k) := by
  have hclimb (ascent : Ascent R) :
      (∃ said, ascent.climb ascent.settings.maxOuter 1
        ⟨initialDuals ascent.problem ascent.settings, 1.0, none, []⟩ =
          .ok (⟨duals, .converged k⟩, said)) ↔ _ :=
    Ascent.climb_converged_iff (m := 0) rfl
  simp only [estimate_eq_ok]
  constructor
  · rintro ⟨said, ascent, hascent, h⟩
    obtain ⟨rfl, rfl⟩ := Ascent.eq_of_ofProblem hascent
    obtain ⟨hlt, hle, hduals, hmoves⟩ := (hclimb ascent).1 ⟨said, h⟩
    refine ⟨ascent, hascent, hlt, hle.trans_eq (Nat.zero_add _), hduals, fun j hj => ?_⟩
    obtain ⟨equality, inequality, hmove, hiff⟩ := hmoves j (Nat.zero_le j) hj
    exact ⟨equality, inequality, hmove, hmove.eq_zero.1, hmove.eq_zero.2, hiff⟩
  · rintro ⟨ascent, hascent, hlt, hle, hduals, hmoves⟩
    obtain ⟨rfl, rfl⟩ := Ascent.eq_of_ofProblem hascent
    obtain ⟨said, h⟩ := (hclimb ascent).2
      ⟨hlt, hle.trans_eq (Nat.zero_add _).symm, hduals, fun j _ hj => by
        obtain ⟨equality, inequality, hmove, -, -, hiff⟩ := hmoves j hj
        exact ⟨equality, inequality, hmove, hiff⟩⟩
    exact ⟨said, ascent, hascent, h⟩

end Ends

end Ascents

/-! ## A gradient that is not a number -/

/-- A random source that draws the same scalar again and again, namely zero. -/
noncomputable instance : RandomSource Extended Extended := ⟨fun _ => .finite 0, fun s => (s, s)⟩

namespace NanWall

open Extended (finite nan)

/-- A slope over the unit interval, whose gradient is not a number in the lowest quarter, with an
equation that pulls there. -/
noncomputable def definition : Definition Extended where
  objective := Landscape.gradientWall [finite 1] ⟨finite 0.25, false⟩ nan
  lower := [finite 0]
  upper := [finite 1]
  equalities := some (.ofRow [finite 1], [finite 0])
  smoothness := some (finite 1)
  equalityPenalty := finite 0
  inequalityPenalty := finite 0

/-- A single update of the duals, after two steps of the inner descent. -/
noncomputable def settings : DualAscentSettings Extended := ⟨1e-3, 1, 2, 0.9, finite 0⟩

/-- The standard settings, except that the start point stays in the centre. -/
noncomputable def config : Config Extended where
  toSettings := { Settings.standard with
    ascentStop := some (finite 0.5)
    dualAscent := settings }

/-- The slope as a problem. -/
noncomputable def problem : Problem Extended where
  objective := definition.objective
  lower := [finite 0]
  upper := [finite 1]
  midpoint := [finite 0.5]
  binary := [false]
  equalities := some ⟨.ofRow [finite 1], [finite 0]⟩
  inequalities := none
  equalityPenalty := finite 0
  inequalityPenalty := finite 0
  smoothness := finite 1
  start := [finite 0.5]
  gain := [finite 1]
  equalityDual := none
  inequalityDual := none

/-- The gradient is not a number below one quarter. -/
lemma gradient_eq (x : ℝ) : definition.objective.gradient [finite x] =
    .ok [if x < 0.25 then nan else finite 1] := by
  have hside : (⟨finite 0.25, false⟩ : Landscape.Beyond Extended).holds [finite x] =
      .ok (decide (x < 0.25)) := rfl
  by_cases hx : x < 0.25
  · rw [if_pos hx]
    simp only [definition, Landscape.gradientWall, Objective.ofFunctions, hside, hx,
      Outcome.ok_bind, decide_true, if_true]
    rfl
  · rw [if_neg hx]
    simp only [definition, Landscape.gradientWall, Objective.ofFunctions, hside, hx,
      Outcome.ok_bind, decide_false, Bool.false_eq_true, if_false]
    rfl

lemma setup_definition : ∃ notices, setup Extended definition config = .ok ⟨problem, notices⟩ := by
  have hframe : definition.frame =
      .ok ⟨[false], some ⟨.ofRow [finite 1], [finite 0]⟩, none, none, none⟩ := by
    unfold Definition.frame definition
    simp [Definition.badBounds?, Definition.boundsEnclose, Definition.checkMask,
      Definition.checkBlock, ConstraintBlock.ofSystem, DenseMatrix.ofRow, DenseMatrix.height,
      DenseMatrix.entries, Vec.isFinite, ConstraintBlock.checkColumns, ConstraintBlock.width,
      Outcome.ok_bind, Definition.checkPenalty, Definition.checkDual,
      Definition.checkStart]
  have hsmoothness : definition.findSmoothness (finite 0) = .ok (finite 1, [], finite 0) := rfl
  have hgain : config.coordinateGains [false] = .ok [finite 1] := by
    simp [Config.coordinateGains, Config.requestedGains, config, Settings.standard,
      GainScope.covers, Scalar.isPositive]
  have hmidpoint : boxMidpoint definition.lower definition.upper = .ok [finite 0.5] := by
    simp [boxMidpoint, definition, Vec.zipExact, Breach.sameLength]
  have hstart : StartPoint.compute config definition.objective definition.lower
      definition.upper [false] (finite 1) definition.start (finite 0) =
        .ok ([finite 0.5], finite 0) := by
    have hstop : config.effectiveAscentStop = finite 0.5 := rfl
    have hgradient : definition.objective.gradient [finite 0.5] = .ok [finite 1] := by
      rw [gradient_eq, if_neg (by norm_num)]
    have hgiven : definition.start = none := rfl
    have hzero : Vec.isZero [finite 1] = false := by simp [Vec.isZero]
    simp only [StartPoint.compute, StartPoint.seedPoint, hgiven, hmidpoint, hgradient, hzero,
      hstop, Outcome.ok_bind, Bool.false_eq_true, if_false]
    have hover (free : Vec Extended) (rate floor : Extended) : StartPoint.Ascent.isOver
        ⟨definition.objective, definition.lower.map (· + finite 0.5),
          definition.upper.map (· - finite 0.5), free, rate, floor⟩ [finite 0.5]
          [finite 1] = true := by
      simp [StartPoint.Ascent.isOver, Vec.strictlyInside, definition]
    rw [StartPoint.Ascent.climb_of_isOver (hover _ _ _)]
    simp [StartPoint.Ascent.settle, definition, Vec.zipExact3, Vec.zipExact, Breach.sameLength,
      Outcome.ok_bind, Scalar.minNum, Scalar.maxNum]
    norm_num
  exact ⟨_, setup_eq hframe hsmoothness (by simp [Scalar.isPositive]) hgain hstart hmidpoint⟩

/-- The estimated radius of the equation is one. -/
lemma gramSpectralRadius_eq :
    (DenseMatrix.ofRow [finite 1]).gramSpectralRadius = .ok (finite 1) := by
  have hgram : (DenseMatrix.ofRow [finite 1]).gram = .ofRow [finite 1] := by
    simp [DenseMatrix.gram, DenseMatrix.ofRow, DenseMatrix.transpose, DenseMatrix.columns,
      Vec.inner, Vec.sum]
  have hstarts : (DenseMatrix.powerStarts 1 : List (Vec Extended)) = [[finite 1], [finite 1]] := by
    simp [DenseMatrix.powerStarts, DenseMatrix.unevenVector, DenseMatrix.basisVector,
      Vec.normalize, Vec.norm, Vec.inner, Vec.sum]
  have hmulVec : (DenseMatrix.ofRow [finite 1]).mulVec [finite 1] = .ok [finite 1] := by
    simp [DenseMatrix.mulVec, DenseMatrix.ofRow, Breach.sameLength, Vec.inner, Vec.sum]
  have hnorm : Vec.norm [finite 1] = finite 1 := by simp [Vec.norm, Vec.inner, Vec.sum]
  -- the first product changes the estimate, and the second one repeats it
  have hiteration (rounds : ℕ) : (DenseMatrix.ofRow [finite 1]).powerIteration (rounds + 2)
      [finite 1] 0.0 = .ok (finite 1) := by
    simp [DenseMatrix.powerIteration, hmulVec, hnorm, Outcome.ok_bind, DenseMatrix.powerTolerance]
    norm_num
    rfl
  have hheight : (DenseMatrix.ofRow [finite 1]).height = 1 := rfl
  simp only [DenseMatrix.gramSpectralRadius, DenseMatrix.spectralRadius, hgram, hheight, hstarts,
    List.mapM_cons, List.mapM_nil, DenseMatrix.powerRounds, hiteration 998, Outcome.ok_bind]
  simp [Vec.peak, Scalar.maxNum]
  rfl

/-- The duals from which the ascent starts. -/
noncomputable def initial : DualVariables Extended := ⟨some [finite 0], none⟩

/-- The duals after one update. -/
def final : DualVariables Extended := ⟨some [nan], none⟩

/-- The ascent of the problem. -/
noncomputable def ascent : Ascent Extended := ⟨problem, settings, finite 1⟩

/-- The inner descent at the initial duals. -/
noncomputable def descent : InnerDescent.Descent Extended :=
  ⟨.ofProblem problem initial, [finite 0], [finite 1], finite 1, 1e-3⟩

/-- Without a penalty and with a dual of zero the equation adds nothing to the gradient. -/
lemma lagrangian_gradient_eq (x : ℝ) : descent.lagrangian.gradient [finite x] [] =
    .ok [if x < 0.25 then nan else finite 1] := by
  have hobjective : descent.lagrangian.objective.gradient [finite x] = _ := gradient_eq x
  have hblock : descent.lagrangian.equality =
      some ⟨⟨.ofRow [finite 1], [finite 0]⟩, [finite 0], finite 0⟩ := rfl
  have hfree : descent.lagrangian.inequality = none := rfl
  simp only [Lagrangian.gradient, hobjective, hblock, hfree, Outcome.ok_bind]
  simp [PenalizedBlock.multiplier, ConstraintBlock.residual, ConstraintBlock.transposeMul,
    DenseMatrix.mulVec, DenseMatrix.ofRow, DenseMatrix.transpose, DenseMatrix.columns,
    DenseMatrix.height, Breach.sameLength, Vec.inner, Vec.sum, Vec.sub, Vec.add, Vec.shift,
    Vec.zipOnto, Vec.zipSpread, Vec.scale, Outcome.ok_bind]
  split_ifs <;> simp

/-- A step against a slope, projected onto the unit interval. -/
lemma step_eq {x g : Extended} (hgradient : descent.lagrangian.gradient [x] [] = .ok [g]) :
    descent.step ⟨[x], []⟩ =
      .ok (⟨[Scalar.clamp (finite 0) (finite 1) (x + -finite 1 * g)], []⟩,
        Scalar.hypot (Vec.norm [Scalar.clamp (finite 0) (finite 1) (x + -finite 1 * g) - x])
          (finite 0) / finite 1) := by
  have hslack : descent.lagrangian.slackGradient [x] [] = .ok [] := rfl
  have hnorm : Vec.norm ([] : Vec Extended) = finite 0 := by simp [Vec.norm, Vec.inner, Vec.sum]
  simp only [InnerDescent.Descent.step, hgradient, hslack, Outcome.ok_bind]
  simp [descent, Vec.shiftScaled, Vec.zipOnto, InnerDescent.projectOntoBox, InnerDescent.project,
    Vec.zipExact3, Vec.zipExact, Breach.sameLength, Outcome.ok_bind, Vec.sub, Vec.zipSpread, hnorm]

/-- The first step leads to the lower bound. -/
lemma step_first :
    descent.step ⟨[finite 0.5], []⟩ = .ok (⟨[finite 0], []⟩, finite 0.5) := by
  have hgradient := lagrangian_gradient_eq 0.5
  rw [if_neg (by norm_num)] at hgradient
  have hclamp : Scalar.clamp (finite 0) (finite 1) (finite 0.5 + -finite 1 * finite 1) =
      finite 0 := by
    norm_num [Scalar.clamp]
  rw [step_eq hgradient, hclamp]
  norm_num [Vec.norm, Vec.inner, Vec.sum]

/-- The second step leads to what is not a number. -/
lemma step_second : descent.step ⟨[finite 0], []⟩ = .ok (⟨[nan], []⟩, nan) := by
  have hgradient := lagrangian_gradient_eq 0
  rw [if_pos (by norm_num)] at hgradient
  rw [step_eq hgradient]
  simp [Scalar.clamp, Vec.norm, Vec.inner, Vec.sum, Extended.hypot_nan_finite]

lemma initialDuals_eq : initialDuals problem settings = initial := by
  simp [initialDuals, initialDual, problem, settings, initial, ConstraintBlock.height,
    DenseMatrix.height, DenseMatrix.ofRow]

/-- The inner descent runs into the wall. -/
lemma minimize_eq : InnerDescent.minimize problem initial (finite 1) settings =
    .ok ⟨[nan], []⟩ := by
  have hlarge : ¬finite 0.5 < descent.tolerance := by
    norm_num [descent]
  change descent.run 2 ⟨[finite 0.5], []⟩ = _
  simp only [InnerDescent.Descent.run, step_first, step_second, Outcome.ok_bind, if_neg hlarge,
    if_neg Extended.not_nan_lt]

/-- The update takes what is not a number into the dual. -/
lemma update_eq : ascent.update initial 1.0 = .ok final := by
  have hminimize : InnerDescent.minimize ascent.problem initial ascent.rate ascent.settings = _ :=
    minimize_eq
  have hresidual : (Lagrangian.ofProblem ascent.problem initial).equalityResidual [nan] =
      .ok (some [nan]) := by
    simp [Lagrangian.equalityResidual, Lagrangian.ofProblem, ascent, problem, initial,
      Lagrangian.penalized, ConstraintBlock.residual, DenseMatrix.mulVec, DenseMatrix.ofRow,
      Breach.sameLength, Outcome.ok_bind, Vec.inner, Vec.sum, Vec.sub, Vec.zipSpread]
  have hfree : (Lagrangian.ofProblem ascent.problem initial).inequalityResidual [nan] [] =
      .ok none := rfl
  simp only [Ascent.update, hminimize, hresidual, hfree, Outcome.ok_bind]
  simp [raised, raisedEquality, initial, final, Vec.shiftScaled, Vec.zipOnto]
  rfl

lemma ofProblem_eq : Ascent.ofProblem problem settings = .ok ascent := by
  have hsmoothness : problem.effectiveSmoothness = .ok (finite 1) := by
    simp [Problem.effectiveSmoothness, Problem.blockSmoothness, problem,
      ConstraintBlock.gramSpectralRadius, gramSpectralRadius_eq, Outcome.ok_bind]
  simp [Ascent.ofProblem, hsmoothness, ascent]

/-- The dual moves from zero to what is not a number. -/
lemma blockChange_eq : blockChange initial.equality final.equality = .ok nan ∧
    blockChange initial.inequality final.inequality = .ok (finite 0) := by
  constructor
  · simp [blockChange, initial, final, Vec.sub, Vec.zipSpread, Vec.norm, Vec.inner, Vec.sum]
  · simp [blockChange, initial]

lemma moves_eq : ascent.Moves 0 nan (finite 0) := by
  have hstart : ascent.updated 0 = .ok (initial, 1.0) := by
    change Except.ok (initialDuals problem settings, _) = _
    rw [initialDuals_eq]
  have hupdated : ascent.updated 1 = .ok (final, 1.0 * ascent.settings.stepDecay) :=
    Ascent.updated_succ.2 ⟨_, hstart, update_eq, rfl⟩
  exact ⟨_, _, hstart, hupdated, blockChange_eq.1, blockChange_eq.2⟩

/-- The block that is absent settles, and the other one counts as settled. -/
lemma settles_eq : Settles settings.tolerance nan (finite 0) := by
  refine ⟨.inr rfl, .inl ?_, by simp⟩
  norm_num [settings]

lemma estimate_eq : ∃ said, estimate problem settings = .ok (⟨final, .converged 1⟩, said) := by
  have hclimb : ∃ said, ascent.climb 1 1 ⟨initialDuals problem settings, 1.0, none, []⟩ =
      .ok (⟨final, .converged 1⟩, said) := by
    rw [initialDuals_eq]
    exact Ascent.climb_of_settles 0 1 update_eq blockChange_eq.1 blockChange_eq.2 settles_eq
  obtain ⟨said, hclimb⟩ := hclimb
  exact ⟨said, estimate_eq_ok.2 ⟨ascent, ofProblem_eq, hclimb⟩⟩

end NanWall

/-- The ascent on the slope has converged, and its dual has moved by what is not a number. -/
theorem converged_nanWall : ∃ (prepared : Prepared Extended) (ascent : Ascent Extended)
    (said : List (Notice Extended)),
    setup Extended NanWall.definition NanWall.config = .ok prepared ∧
    NanWall.settings.check = .ok NanWall.settings ∧
    estimate prepared.problem NanWall.settings =
      .ok (⟨⟨some [.nan], none⟩, .converged 1⟩, said) ∧
    Ascent.ofProblem prepared.problem NanWall.settings = .ok ascent ∧
    ascent.Moves 0 .nan (.finite 0) ∧ prepared.problem.equalities.isSome = true ∧
    ¬Extended.nan < NanWall.settings.tolerance := by
  obtain ⟨notices, hsetup⟩ := NanWall.setup_definition
  obtain ⟨said, hestimate⟩ := NanWall.estimate_eq
  refine ⟨_, _, said, hsetup, ?_, hestimate, NanWall.ofProblem_eq, NanWall.moves_eq, rfl,
    Extended.not_nan_lt⟩
  norm_num [DualAscentSettings.check, NanWall.settings, Scalar.isPositive]

/-- On the slope, what is not a number counts as a move that has settled. -/
theorem converged_iff_nanWall : ∃ ascent equality inequality,
    Ascent.ofProblem NanWall.problem NanWall.settings = .ok ascent ∧
    ascent.Moves 0 equality inequality ∧ inequality = 0.0 ∧
    Settles NanWall.settings.tolerance equality inequality := by
  obtain ⟨ascent, hascent, -, -, -, hmoves⟩ := converged_iff.1 NanWall.estimate_eq
  obtain ⟨equality, inequality, hmove, -, hfree, hiff⟩ := hmoves 0 one_pos
  exact ⟨ascent, equality, inequality, hascent, hmove, hfree rfl, hiff.2 rfl⟩

end HopfieldDescent.DualAscent

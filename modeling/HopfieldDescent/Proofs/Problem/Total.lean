import Mathlib
import HopfieldDescent.Proofs.Lagrangian.Total
import HopfieldDescent.Proofs.Scalar.Ieee

/-!
# Setting up answers

A definition becomes a problem or is refused; no operation on the way meets operands that do not
fit.  The checks of a definition come first and evaluate nothing.  What comes after them works on
vectors with an entry for each variable: the random points and the start point are made of the
bounds, and the gradient is asked for at such points only.

`Problem.Validated` spells out the shape of the problem in terms of lengths and numbers.
-/

open HopfieldDescent.Outcome (Returns Answers)

namespace HopfieldDescent

variable {R G : Type} [Scalar R] {n : ℕ} {objective : Objective R} {lower upper : Vec R}

/-- A given point that has been looked over has an entry for each variable. -/
lemma Definition.Passes.length_start {definition : Definition R} {frame : Frame R}
    (h : Passes definition frame) :
    ∀ start ∈ definition.start, start.length = definition.lower.length := by
  intro start hstart
  have hcheck := h.start
  rw [Option.mem_def.1 hstart, checkStart, Outcome.ite_error_eq_ok] at hcheck
  exact hcheck.1

/-! ## Sampled smoothness -/

namespace Smoothness

/-- The gradients at two points are compared. -/
lemma returns_changeRatio (hobjective : objective.ReturnsOn n) {p q : Vec R} (hp : p.length = n)
    (hq : q.length = n) : Returns (changeRatio objective p q) fun _ => True := by
  refine (Vec.returns_zipSpread hp hq).bind fun _ _ => ?_
  dsimp only
  split_ifs
  · exact .ok trivial
  · exact (hobjective.gradient p hp).bind fun _ hgp => (hobjective.gradient q hq).bind
      fun _ hgq => (Vec.returns_zipSpread hgp hgq).bind fun _ _ => .ok trivial

variable [RandomSource G R]

/-- A random point of a box has a coordinate for each bound. -/
lemma returns_pointOfBox (hlower : lower.length = n) (hupper : upper.length = n) (source : G) :
    Returns (RandomSource.pointOfBox lower upper source) fun drawn => drawn.1.length = n := by
  refine (Vec.returns_zipExact3 hlower hupper ?_).bind fun _ hpoint => .ok hpoint
  rw [RandomSource.length_draws, hlower]

/-- Pairs of random points are sampled. -/
lemma returns_sampledRatios (hobjective : objective.ReturnsOn n) (hlower : lower.length = n)
    (hupper : upper.length = n) (count : ℕ) (source : G) :
    Returns (sampledRatios objective lower upper count source) fun _ => True := by
  induction count generalizing source with
  | zero => exact .ok trivial
  | succ count ih =>
    exact (returns_pointOfBox hlower hupper _).bind fun p hp =>
      (returns_pointOfBox hlower hupper _).bind fun q hq =>
        (returns_changeRatio hobjective hp hq).bind fun _ _ => (ih _).bind fun _ _ => .ok trivial

/-- The smoothness of an objective is estimated. -/
lemma returns_estimate (hobjective : objective.ReturnsOn n) (hlower : lower.length = n)
    (hupper : upper.length = n) (source : G) :
    Returns (estimate objective lower upper source) fun _ => True :=
  (returns_sampledRatios hobjective hlower hupper _ source).bind fun _ _ => .ok trivial

end Smoothness

/-- The smoothness coefficient of a definition is given, known or estimated. -/
lemma Definition.returns_findSmoothness [RandomSource G R] {definition : Definition R}
    (hobjective : definition.objective.ReturnsOn definition.lower.length)
    (hupper : definition.upper.length = definition.lower.length) (source : G) :
    Returns (definition.findSmoothness source) fun _ => True := by
  unfold findSmoothness
  dsimp only
  split
  · exact .ok trivial
  · refine hobjective.smoothness.bind fun known _ => ?_
    split
    · exact .ok trivial
    · exact (Smoothness.returns_estimate hobjective rfl hupper source).bind fun _ _ => .ok trivial

/-! ## The start point -/

/-- A box has a midpoint. -/
lemma returns_boxMidpoint (hlower : lower.length = n) (hupper : upper.length = n) :
    Returns (boxMidpoint lower upper) fun midpoint => midpoint.length = n :=
  Vec.returns_zipExact hlower hupper

namespace StartPoint

/-- The ascent starts from the given point or from the midpoint. -/
lemma returns_seedPoint {given : Option (Vec R)} (hlower : lower.length = n)
    (hupper : upper.length = n) (hgiven : ∀ point ∈ given, point.length = n) :
    Returns (seedPoint lower upper given) fun x => x.length = n := by
  unfold seedPoint
  split
  · rename_i point
    split_ifs
    · exact .ok (hgiven point rfl)
    · exact returns_boxMidpoint hlower hupper
  · exact returns_boxMidpoint hlower hupper

/-- There is a stand-in for every entry of a gradient. -/
lemma length_perturbedGradient [RandomSource G R] (n : ℕ) (smoothness : R)
    (source : G) : (perturbedGradient n smoothness source).1.length = n := by
  simp [perturbedGradient, RandomSource.length_draws]

/-- Each coordinate is free to move or not. -/
lemma length_freedom (rule : StartAscent) (binary : List Bool) :
    (freedom rule binary : Vec R).length = binary.length := by
  cases rule <;> simp [freedom]

/-- The ascent leads from point to point. -/
lemma Ascent.returns_climb {ascent : Ascent R} (hobjective : ascent.objective.ReturnsOn n)
    (hfree : ascent.free.length = n) (steps : ℕ) {x gradient : Vec R} (hx : x.length = n)
    (hgradient : gradient.length = n) :
    Returns (ascent.climb steps x gradient) fun y => y.length = n := by
  induction steps generalizing x gradient with
  | zero => exact .ok hx
  | succ steps ih =>
    rw [climb]
    split_ifs
    · exact .ok hx
    · exact (Vec.returns_zipSpread hgradient hfree).bind fun _ hstep =>
        (Vec.returns_zipOnto hx hstep).bind fun y hy =>
          (hobjective.gradient y hy).bind fun _ hgradient' => ih hy hgradient'

/-- The start point of a problem is found. -/
lemma returns_compute [RandomSource G R] {config : Config R} {binary : List Bool} {smoothness : R}
    {given : Option (Vec R)} (hobjective : objective.ReturnsOn n) (hlower : lower.length = n)
    (hupper : upper.length = n) (hbinary : binary.length = n)
    (hgiven : ∀ point ∈ given, point.length = n) (source : G) :
    Returns (compute config objective lower upper binary smoothness given source)
      fun start => start.1.length = n := by
  refine (returns_seedPoint hlower hupper hgiven).bind fun x hx => ?_
  refine (hobjective.gradient x hx).bind fun gradient hgradient => ?_
  have hfirst : (if Vec.isZero gradient then perturbedGradient lower.length smoothness source
      else (gradient, source)).1.length = n := by
    split_ifs
    · rw [length_perturbedGradient, hlower]
    · exact hgradient
  refine (Ascent.returns_climb hobjective ?_ maxSteps hx hfirst).bind fun y hy => ?_
  · rw [length_freedom, hbinary]
  · exact (Vec.returns_zipExact3 hy ((List.length_map _).trans hlower)
      ((List.length_map _).trans hupper)).bind fun _ hstart => .ok hstart

end StartPoint

/-! ## The problem as a whole -/

/-- A definition whose objective returns becomes a problem, or it is refused. -/
theorem answers_setup [RandomSource G R] {definition : Definition R} {config : Config R}
    (hobjective : definition.objective.ReturnsOn definition.lower.length) :
    Answers (setup G definition config) fun _ => True := by
  refine (Answers.ofExcept fun frame hframe => hframe).bind fun frame hframe => ?_
  have hpasses := Definition.frame_eq_ok.1 hframe
  have hframed := Definition.framed_of_frame hframe
  refine (Answers.liftM (Definition.returns_findSmoothness hobjective hframed.length_upper _)).bind
    fun ⟨smoothness, notices, source⟩ _ => ?_
  dsimp only
  split_ifs
  · exact (Answers.refuse _).bind fun _ (h : False) => h.elim
  · refine (Answers.ofExcept fun _ _ => trivial).bind fun gain _ => ?_
    refine (Answers.liftM (StartPoint.returns_compute hobjective rfl hframed.length_upper
      hframed.length_binary hpasses.length_start source)).bind fun _ _ => ?_
    exact (Answers.liftM (returns_boxMidpoint rfl hframed.length_upper)).bind fun _ _ =>
      .ok trivial

/-- The shape of a problem in `n` variables. -/
structure Problem.Validated (problem : Problem R) (n : ℕ) : Prop where
  /-- There are `n` lower bounds. -/
  length_lower : problem.lower.length = n
  /-- There are `n` upper bounds. -/
  length_upper : problem.upper.length = n
  /-- The midpoint has `n` entries. -/
  length_midpoint : problem.midpoint.length = n
  /-- Each of `n` variables is binary or not. -/
  length_binary : problem.binary.length = n
  /-- There are `n` gains. -/
  length_gain : problem.gain.length = n
  /-- The start point has `n` entries. -/
  length_start : problem.start.length = n
  /-- Both bounds of a variable are finite, and the lower one lies below the upper one. -/
  bounds : ∀ (i : ℕ) (l u : R), problem.lower[i]? = some l → problem.upper[i]? = some u →
    Scalar.isFinite l = true ∧ Scalar.isFinite u = true ∧ l < u
  /-- Every gain is finite and positive. -/
  gain : ∀ gain ∈ problem.gain, Scalar.isFinite gain = true ∧ 0.0 < gain
  /-- The smoothness coefficient is finite and positive. -/
  smoothness : Scalar.isFinite problem.smoothness = true ∧ 0.0 < problem.smoothness
  /-- The penalty on equations is finite and not negative. -/
  equalityPenalty : Scalar.isFinite problem.equalityPenalty = true ∧ 0.0 ≤ problem.equalityPenalty
  /-- The penalty on inequalities is finite and not negative, and positive if there are any. -/
  inequalityPenalty : Scalar.isFinite problem.inequalityPenalty = true ∧
    0.0 ≤ problem.inequalityPenalty ∧
    (problem.inequalities.isSome = true → 0.0 < problem.inequalityPenalty)
  /-- The equations have `n` columns, a row, a right-hand side for each row, and finite entries. -/
  equalities : ∀ block ∈ problem.equalities, block.Fits n
  /-- The inequalities have `n` columns, a row, a right-hand side for each row, and finite
  entries. -/
  inequalities : ∀ block ∈ problem.inequalities, block.Fits n
  /-- Duals of the equations are finite, one for each row of a block that is there. -/
  equalityDual : ConstraintBlock.AcceptsDual problem.equalities problem.equalityDual
  /-- Duals of the inequalities are finite, one for each row of a block that is there. -/
  inequalityDual : ConstraintBlock.AcceptsDual problem.inequalities problem.inequalityDual

/-- A penalty that has been checked is finite and in its range. -/
lemma Definition.of_checkPenalty [IeeeComparison R] {kind : ConstraintKind} {positive : Bool}
    {value : R} (h : checkPenalty kind positive value = .ok ()) :
    Scalar.isFinite value = true ∧ 0.0 ≤ value ∧ (positive = true → 0.0 < value) := by
  rw [checkPenalty, Outcome.ite_error_eq_ok, Bool.and_eq_true] at h
  obtain ⟨⟨hfinite, hrange⟩, -⟩ := h
  cases positive with
  | false => exact ⟨hfinite, by simpa using hrange, nofun⟩
  | true =>
    have hpositive : 0.0 < value := by simpa using hrange
    exact ⟨hfinite, IeeeComparison.le_of_lt hpositive, fun _ => hpositive⟩

/-- A well formed problem has the shape that belongs to its number of variables. -/
lemma Problem.WellFormed.validated [IeeeComparison R] {problem : Problem R}
    (hproblem : problem.WellFormed) : problem.Validated problem.dimension := by
  have hpositive {value : R} (h : Scalar.isPositive value = true) :
      Scalar.isFinite value = true ∧ 0.0 < value := by
    simpa [Scalar.isPositive] using h
  have hequality := Definition.of_checkPenalty hproblem.equalityPenalty
  have hinequality := Definition.of_checkPenalty hproblem.inequalityPenalty
  refine ⟨rfl, hproblem.length_upper, hproblem.length_midpoint,
    hproblem.length_binary, hproblem.length_gain, hproblem.length_start, ?_,
    fun gain hgain => hpositive (hproblem.gain_isPositive gain hgain),
    hpositive hproblem.smoothness_isPositive, ⟨hequality.1, hequality.2.1⟩, hinequality,
    hproblem.equalities, hproblem.inequalities, hproblem.equalityDual, hproblem.inequalityDual⟩
  intro i l u hl hu
  have hpair : (l, u) ∈ List.zip problem.lower problem.upper :=
    List.mem_of_getElem? (List.getElem?_zip_eq_some.2 ⟨hl, hu⟩)
  simpa [Definition.boundsEnclose, and_assoc] using hproblem.bounds (l, u) hpair

end HopfieldDescent

import HopfieldDescent.Dual
import HopfieldDescent.Dual.InnerDescent
import HopfieldDescent.Notice

/-!
# Dual ascent

The duals of the constraints are estimated by turns: the Lagrangian is minimised at fixed duals, and
the duals move along the residuals that are left, those of inequalities never below zero.  The
length of the moves decays geometrically.  The ascent has converged when no block moves by as much
as the tolerance; when its updates are used up, the duals after the smallest move are taken.
-/

namespace HopfieldDescent.DualAscent

variable {R : Type} [Scalar R]

/-- A penalty as a step length: one in place of zero. -/
def stepLength (penalty : R) : R := if penalty == 0.0 then 1.0 else penalty

/-- What stays fixed during a dual ascent. -/
structure Ascent (R : Type) where
  /-- The problem. -/
  problem : Problem R
  /-- The settings. -/
  settings : DualAscentSettings R
  /-- Rate of the inner descent. -/
  rate : R

/-- Duals of one block, each with the value from which duals start. -/
def initialDual (settings : DualAscentSettings R) (block : Option (ConstraintBlock R)) :
    Option (Vec R) :=
  block.map fun block => List.replicate block.height settings.initialDual

/-- The duals from which the ascent starts. -/
def initialDuals (problem : Problem R) (settings : DualAscentSettings R) : DualVariables R :=
  ⟨initialDual settings problem.equalities, initialDual settings problem.inequalities⟩

/-- The duals of the equations after a move along their residual. -/
def raisedEquality (length : R) (dual : Option (Vec R)) (residual : Vec R) : Checked (Vec R) :=
  (dual.getD []).shiftScaled length residual

/-- The duals of the inequalities after a move along their residual, cut off at zero. -/
def raisedInequality (length : R) (dual : Option (Vec R)) (residual : Vec R) :
    Checked (Vec R) := do
  let moved ← (dual.getD []).shiftScaled length residual
  return moved.map fun v => Scalar.maxNum v 0.0

/-- A move along the residual of a block, if it takes part. -/
def raised (move : Vec R → Checked (Vec R)) : Option (Vec R) → Checked (Option (Vec R))
  | some residual => some <$> move residual
  | none => .ok none

/-- One update of the duals, with steps shortened by the factor `decay`. -/
def Ascent.update (ascent : Ascent R) (duals : DualVariables R) (decay : R) :
    Checked (DualVariables R) := do
  let problem := ascent.problem
  let place ← InnerDescent.minimize problem duals ascent.rate ascent.settings
  let lagrangian := Lagrangian.ofProblem problem duals
  let equality ← raised
    (raisedEquality (stepLength problem.equalityPenalty * decay) duals.equality)
    (← lagrangian.equalityResidual place.x)
  let inequality ← raised
    (raisedInequality (stepLength problem.inequalityPenalty * decay) duals.inequality)
    (← lagrangian.inequalityResidual place.x place.slack)
  return ⟨equality, inequality⟩

/-- How far the duals of one block moved; not at all, if there are none. -/
def blockChange (before after : Option (Vec R)) : Checked R :=
  match before, after with
  | some before, some after => return Vec.norm (← Vec.sub after before)
  | _, _ => .ok 0.0

/-- The larger of the moves of the two blocks. -/
def change (before after : DualVariables R) : Checked R := do
  let equality ← blockChange before.equality after.equality
  let inequality ← blockChange before.inequality after.inequality
  return Scalar.maxNum equality inequality

/-- The smallest move so far, with the duals after it. -/
structure Best (R : Type) where
  /-- Size of the move. -/
  change : R
  /-- The duals after it. -/
  duals : DualVariables R

/-- Whether a size lies above every finite one. -/
def isUnbounded (size : R) : Bool :=
  !Scalar.isFinite size && !Scalar.isNaN size && decide (0.0 < size)

/-- Keeps the duals after a move that is smaller than all before it. -/
def Best.keep (best : Option (Best R)) (change : R) (duals : DualVariables R) :
    Option (Best R) :=
  match best with
  | none => if isUnbounded change then none else some ⟨change, duals⟩
  | some kept => if kept.change ≤ change then some kept else some ⟨change, duals⟩

/-- How far an ascent has come. -/
structure Progress (R : Type) where
  /-- The current duals. -/
  duals : DualVariables R
  /-- Factor on the next step. -/
  decay : R
  /-- The smallest move so far. -/
  best : Option (Best R)
  /-- What was said, last notice first. -/
  said : List (Notice R)

/-- The estimate when the updates are used up. -/
def giveUp (settings : DualAscentSettings R) (progress : Progress R) :
    DualEstimate R × List (Notice R) :=
  let notice : Notice R :=
    ⟨.warn, "dual ascent did not converge; using the most stable estimate",
      [("max_outer_iterations", .count settings.maxOuter),
       ("change", .least (progress.best.map Best.change))]⟩
  let duals := (progress.best.map Best.duals).getD progress.duals
  (⟨duals, .notConverged settings.maxOuter⟩, (notice :: progress.said).reverse)

/-- Updates with the numbers from `outer` on, at most `remaining` of them. -/
def Ascent.climb (ascent : Ascent R) : (remaining outer : Nat) → Progress R →
    Checked (DualEstimate R × List (Notice R))
  | 0, _, progress => .ok (giveUp ascent.settings progress)
  | remaining + 1, outer, progress => do
    let duals ← ascent.update progress.duals progress.decay
    let change ← change progress.duals duals
    let notice : Notice R :=
      ⟨.debug, "dual ascent step", [("outer", .count outer), ("change", .scalar change)]⟩
    if change < ascent.settings.tolerance then
      return (⟨duals, .converged outer⟩, (notice :: progress.said).reverse)
    ascent.climb remaining (outer + 1)
      { duals
        decay := progress.decay * ascent.settings.stepDecay
        best := Best.keep progress.best change duals
        said := notice :: progress.said }

/-- Estimates duals for every block of a problem, whether or not it came with some. -/
def estimate (problem : Problem R) (settings : DualAscentSettings R)
    (radius : ConstraintBlock R → Checked R := ConstraintBlock.gramSpectralRadius) :
    Checked (DualEstimate R × List (Notice R)) := do
  let smoothness ← problem.effectiveSmoothness radius
  let ascent : Ascent R := ⟨problem, settings, 1.0 / smoothness⟩
  ascent.climb settings.maxOuter 1 ⟨initialDuals problem settings, 1.0, none, []⟩

/-- The duals for a run: those that came with the problem, if they are complete, and an estimate
otherwise. -/
def resolve (problem : Problem R) (settings : DualAscentSettings R)
    (radius : ConstraintBlock R → Checked R := ConstraintBlock.gramSpectralRadius) :
    Checked (DualEstimate R × List (Notice R)) :=
  if !problem.isConstrained then .ok (⟨⟨none, none⟩, .notRequired⟩, [])
  else if problem.hasAllDuals then
    .ok (⟨problem.suppliedDuals, .supplied⟩, [⟨.debug, "using supplied dual variables", []⟩])
  else estimate problem settings radius

end HopfieldDescent.DualAscent

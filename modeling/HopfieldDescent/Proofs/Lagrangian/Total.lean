import Mathlib
import HopfieldDescent.Proofs.Lagrangian.Fit
import HopfieldDescent.Proofs.Objective.Total

/-!
# The Lagrangian of blocks that suit their variables

On points with an entry for each variable, and slacks with an entry for each inequality, every part
of a Lagrangian returns: the residuals, the value, both gradients and the update of the slack.  All
that is asked of the objective is that it returns, which is `Objective.ReturnsOn`.

The lengths that a part needs are those that the parts before it return.  Nothing here depends on
the arithmetic of the scalars.
-/

open HopfieldDescent.Outcome (Returns)

namespace HopfieldDescent

variable {R : Type} [Scalar R] {n : ℕ} {x slack residual : Vec R}

/-! ## Blocks -/

namespace ConstraintBlock

variable {block : ConstraintBlock R}

/-- A point with an entry for each variable has a residual. -/
lemma returns_residual (hblock : block.Fits n) (hx : x.length = n) :
    Returns (block.residual x) fun r => r.length = block.height :=
  (DenseMatrix.returns_mulVec (hx.trans hblock.width_eq.symm)).bind fun _ hy =>
    Vec.returns_zipSpread hy hblock.length_rhs

/-- Weights of the constraints pull at each variable. -/
lemma returns_transposeMul (hblock : block.Fits n) {y : Vec R} (hy : y.length = block.height) :
    Returns (block.transposeMul y) fun pull => pull.length = n :=
  (DenseMatrix.returns_transpose_mulVec hy).imp fun _ hpull => hpull.trans hblock.width_eq

end ConstraintBlock

namespace PenalizedBlock

variable {p : PenalizedBlock R}

/-- The residual can be measured from a slack for each constraint. -/
lemma returns_slackResidual (hp : p.Fits n) (hx : x.length = n)
    (hslack : slack.length = p.block.height) :
    Returns (p.slackResidual x slack) fun r => r.length = p.block.height :=
  (ConstraintBlock.returns_residual hp.block hx).bind fun _ hr => Vec.returns_zipSpread hr hslack

/-- A residual has a value. -/
lemma returns_value (hp : p.Fits n) (hresidual : residual.length = p.block.height) :
    Returns (p.value residual) fun _ => True :=
  (Vec.returns_dot (hp.length_dual.trans hresidual.symm)).bind fun _ _ => .ok trivial

/-- A residual has a weight for each constraint. -/
lemma returns_multiplier (hp : p.Fits n) (hresidual : residual.length = p.block.height) :
    Returns (p.multiplier residual) fun weight => weight.length = p.block.height :=
  Vec.returns_zipSpread hp.length_dual ((Vec.length_scale _ _).trans hresidual)

end PenalizedBlock

/-! ## Objective and blocks -/

namespace Lagrangian

variable {l : Lagrangian R} {p : PenalizedBlock R}

omit [Scalar R] in
/-- Number of slacks, one for each inequality that takes part. -/
def slackDimension (l : Lagrangian R) : ℕ := l.inequality.elim 0 (·.block.height)

omit [Scalar R] in
/-- The slacks belong to the inequalities that take part. -/
lemma slackDimension_eq (hp : l.inequality = some p) : l.slackDimension = p.block.height := by
  rw [slackDimension, hp, Option.elim_some]

omit [Scalar R] in
/-- The Lagrangian of a problem has the slacks of the problem. -/
lemma slackDimension_ofProblem {problem : Problem R} {duals : DualVariables R}
    (hduals : duals.Fit problem) :
    (ofProblem problem duals).slackDimension = problem.slackDimension := by
  have hfit := hduals.inequality
  cases hblock : problem.inequalities with
  | none => simp [slackDimension, ofProblem, penalized, Problem.slackDimension, hblock]
  | some block =>
    rw [hblock, Option.map_some, Option.map_eq_some_iff] at hfit
    obtain ⟨dual, hdual, -⟩ := hfit
    simp [slackDimension, ofProblem, penalized, Problem.slackDimension, hblock, hdual]

omit [Scalar R] in
/-- That many slacks suit the inequalities. -/
lemma slackFits_of_length (hslack : slack.length = l.slackDimension) : l.SlackFits slack :=
  fun _ hp => hslack.trans (slackDimension_eq hp)

/-- The residual of the equations returns, if they take part. -/
lemma returns_equalityResidual (hl : l.Fits n) (hx : x.length = n) :
    Returns (l.equalityResidual x) fun residual =>
      residual.map List.length = l.equality.map (·.block.height) := by
  unfold equalityResidual
  split
  · rename_i p hp
    refine (ConstraintBlock.returns_residual (hl.equality p hp).block hx).map fun r hr => ?_
    rw [hp, Option.map_some, Option.map_some, hr]
  · rename_i hp
    exact .ok (by rw [hp]; rfl)

/-- The residual of the inequalities returns, if they take part. -/
lemma returns_inequalityResidual (hl : l.Fits n) (hx : x.length = n)
    (hslack : l.SlackFits slack) :
    Returns (l.inequalityResidual x slack) fun residual =>
      residual.map List.length = l.inequality.map (·.block.height) := by
  unfold inequalityResidual
  split
  · rename_i p hp
    refine (PenalizedBlock.returns_slackResidual (hl.inequality p hp) hx
      (hslack p hp)).map fun r hr => ?_
    rw [hp, Option.map_some, Option.map_some, hr]
  · rename_i hp
    exact .ok (by rw [hp]; rfl)

/-- Where the objective has a value, so has the Lagrangian. -/
lemma returns_value (hobjective : Returns (l.objective.value x) fun _ => True) (hl : l.Fits n)
    (hx : x.length = n) (hslack : l.SlackFits slack) :
    Returns (l.value x slack) fun _ => True := by
  -- the inequalities come last, whatever the equations have added
  have hinequality (p : PenalizedBlock R) (hp : l.inequality = some p) (f : R) :
      Returns (do return f + (← p.value (← p.slackResidual x slack))) fun _ => True := by
    have hfits := hl.inequality p hp
    refine (PenalizedBlock.returns_slackResidual hfits hx (hslack p hp)).bind fun r hr => ?_
    exact (PenalizedBlock.returns_value hfits hr).bind fun _ _ => .ok trivial
  unfold value
  refine hobjective.bind fun f _ => ?_
  dsimp only
  split
  · rename_i p hp
    refine (ConstraintBlock.returns_residual (hl.equality p hp).block hx).bind fun r hr => ?_
    refine (PenalizedBlock.returns_value (hl.equality p hp) hr).bind fun _ _ => ?_
    split
    · exact hinequality _ ‹_› _
    · exact .ok trivial
  · split
    · exact hinequality _ ‹_› f
    · exact .ok trivial

/-- Where the objective has a gradient, so has the Lagrangian. -/
lemma returns_gradient
    (hobjective : Returns (l.objective.gradient x) fun gradient => gradient.length = n)
    (hl : l.Fits n) (hx : x.length = n) (hslack : l.SlackFits slack) :
    Returns (l.gradient x slack) fun gradient => gradient.length = n := by
  -- each block shifts the gradient before it by a pull with an entry for each variable
  have hinequality (p : PenalizedBlock R) (hp : l.inequality = some p) {g : Vec R}
      (hg : g.length = n) : Returns (do
        let weight ← p.multiplier (← p.slackResidual x slack)
        g.shift (← p.block.transposeMul weight)) fun g' => g'.length = n := by
    have hfits := hl.inequality p hp
    refine (PenalizedBlock.returns_slackResidual hfits hx (hslack p hp)).bind fun r hr => ?_
    refine (PenalizedBlock.returns_multiplier hfits hr).bind fun weight hweight => ?_
    exact (ConstraintBlock.returns_transposeMul hfits.block hweight).bind fun pull hpull =>
      Vec.returns_zipOnto hg hpull
  unfold gradient
  refine hobjective.bind fun f hf => ?_
  dsimp only
  split
  · rename_i p hp
    refine (ConstraintBlock.returns_residual (hl.equality p hp).block hx).bind fun r hr => ?_
    refine (PenalizedBlock.returns_multiplier (hl.equality p hp) hr).bind fun weight hweight => ?_
    refine (ConstraintBlock.returns_transposeMul (hl.equality p hp).block hweight).bind
      fun pull hpull => ?_
    refine (Vec.returns_zipOnto hf hpull).bind fun g hg => ?_
    split
    · exact hinequality _ ‹_› hg
    · exact .ok hg
  · split
    · exact hinequality _ ‹_› hf
    · exact .ok hf

/-- The gradient by the slack has an entry for each slack. -/
lemma returns_slackGradient (hl : l.Fits n) (hx : x.length = n)
    (hslack : slack.length = l.slackDimension) :
    Returns (l.slackGradient x slack) fun gradient => gradient.length = l.slackDimension := by
  unfold slackGradient
  split
  · rename_i p hp
    refine (PenalizedBlock.returns_slackResidual (hl.inequality p hp) hx
      (hslack.trans (slackDimension_eq hp))).bind fun r hr =>
        (PenalizedBlock.returns_multiplier (hl.inequality p hp) hr).bind fun weight hweight =>
          .ok ?_
    rw [Vec.length_neg, hweight, slackDimension_eq hp]
  · rename_i hp
    exact .ok (by rw [slackDimension, hp]; rfl)

/-- An update of the slack keeps the number of slacks. -/
lemma returns_updateSlack (hl : l.Fits n) (hx : x.length = n)
    (hslack : slack.length = l.slackDimension) :
    Returns (l.updateSlack x slack) fun slack' => slack'.length = l.slackDimension := by
  unfold updateSlack
  split
  · exact (returns_slackGradient hl hx hslack).bind fun _ hgradient =>
      Vec.returns_zipExact hslack hgradient
  · rename_i hp
    exact .ok (by rw [slackDimension, hp]; rfl)

end Lagrangian

end HopfieldDescent

import HopfieldDescent.Problem

/-!
# The augmented Lagrangian

The objective plus, for each block of constraints, the inner product of its duals with the residual
and half the penalty times the squared residual.  Inequalities get one slack variable each, at most
zero, and their residual is measured from the slack:

  `L(x, s) = f(x) + λ·c + (ρ/2)‖c‖² + μ·d + (σ/2)‖d‖²`,
  `c = A x − a`, `d = B x − b − s`, `s ≤ 0`.

A block without duals is left out.
-/

namespace HopfieldDescent

/-- The duals of both blocks; a block has duals exactly when it is part of the Lagrangian. -/
structure DualVariables (R : Type) where
  /-- Duals of the equations. -/
  equality : Option (Vec R)
  /-- Duals of the inequalities. -/
  inequality : Option (Vec R)

/-- A block of constraints with its duals and its penalty. -/
structure PenalizedBlock (R : Type) where
  /-- The constraints. -/
  block : ConstraintBlock R
  /-- The duals. -/
  dual : Vec R
  /-- The penalty. -/
  penalty : R

namespace PenalizedBlock

variable {R : Type} [Scalar R]

/-- What the block adds to the Lagrangian at a residual. -/
def value (p : PenalizedBlock R) (residual : Vec R) : Checked R :=
  return (← Vec.dot p.dual residual) + 0.5 * p.penalty * Vec.inner residual residual

/-- The derivative of that by the residual. -/
def multiplier (p : PenalizedBlock R) (residual : Vec R) : Checked (Vec R) :=
  Vec.add p.dual (residual.scale p.penalty)

/-- The residual measured from a slack. -/
def slackResidual (p : PenalizedBlock R) (x slack : Vec R) : Checked (Vec R) := do
  Vec.sub (← p.block.residual x) slack

end PenalizedBlock

/-- An objective with its penalised blocks. -/
structure Lagrangian (R : Type) where
  /-- The objective. -/
  objective : Objective R
  /-- The equations, if they take part. -/
  equality : Option (PenalizedBlock R)
  /-- The inequalities, if they take part. -/
  inequality : Option (PenalizedBlock R)

namespace Lagrangian

variable {R : Type}

/-- A block with its duals, when both are there. -/
def penalized (block : Option (ConstraintBlock R)) (dual : Option (Vec R)) (penalty : R) :
    Option (PenalizedBlock R) :=
  match block, dual with
  | some block, some dual => some ⟨block, dual, penalty⟩
  | _, _ => none

/-- The Lagrangian of a problem at fixed duals. -/
def ofProblem (problem : Problem R) (duals : DualVariables R) : Lagrangian R where
  objective := problem.objective
  equality := penalized problem.equalities duals.equality problem.equalityPenalty
  inequality := penalized problem.inequalities duals.inequality problem.inequalityPenalty

variable [Scalar R]

/-- The residual of the equations. -/
def equalityResidual (l : Lagrangian R) (x : Vec R) : Checked (Option (Vec R)) :=
  match l.equality with
  | some p => some <$> p.block.residual x
  | none => .ok none

/-- The residual of the inequalities, measured from the slack. -/
def inequalityResidual (l : Lagrangian R) (x slack : Vec R) : Checked (Option (Vec R)) :=
  match l.inequality with
  | some p => some <$> p.slackResidual x slack
  | none => .ok none

/-- The value at a point and a slack. -/
def value (l : Lagrangian R) (x slack : Vec R) : Checked R := do
  let objective ← l.objective.value x
  let withEqualities ← match l.equality with
    | some p => pure (objective + (← p.value (← p.block.residual x)))
    | none => pure objective
  match l.inequality with
  | some p => return withEqualities + (← p.value (← p.slackResidual x slack))
  | none => return withEqualities

/-- The gradient by the point. -/
def gradient (l : Lagrangian R) (x slack : Vec R) : Checked (Vec R) := do
  let objective ← l.objective.gradient x
  let withEqualities ← match l.equality with
    | some p =>
      let weight ← p.multiplier (← p.block.residual x)
      objective.shift (← p.block.transposeMul weight)
    | none => pure objective
  match l.inequality with
  | some p =>
    let weight ← p.multiplier (← p.slackResidual x slack)
    withEqualities.shift (← p.block.transposeMul weight)
  | none => return withEqualities

/-- The gradient by the slack, empty without inequalities. -/
def slackGradient (l : Lagrangian R) (x slack : Vec R) : Checked (Vec R) :=
  match l.inequality with
  | some p => do return (← p.multiplier (← p.slackResidual x slack)).neg
  | none => .ok []

/-- A gradient step in the slack that reaches the minimum over all slacks, cut off at zero. -/
def updateSlack (l : Lagrangian R) (x slack : Vec R) : Checked (Vec R) :=
  match l.inequality with
  | some p => do
    let rate := 1.0 / p.penalty
    let gradient ← l.slackGradient x slack
    Vec.zipExact (fun s g => Scalar.minNum (s - rate * g) 0.0) slack gradient
  | none => .ok []

end Lagrangian

end HopfieldDescent

import HopfieldDescent.Lagrangian

/-!
# Inner descent

Between two updates of the duals, the Lagrangian is minimised over the box and over slacks of at
most zero.  Each step goes against both gradients and projects the result back; the steps end once
the distance moved, divided by the rate, is below a tolerance.
-/

namespace HopfieldDescent.InnerDescent

variable {R : Type} [Scalar R]

/-- A point with its slack. -/
structure Place (R : Type) where
  /-- The point. -/
  x : Vec R
  /-- The slack. -/
  slack : Vec R

/-- The nearest value of an interval, which has to have its ends in order. -/
def project (lower upper v : R) : Checked R :=
  if lower ≤ upper then .ok (Scalar.clamp lower upper v) else .error .emptyInterval

/-- The nearest point of a box. -/
def projectOntoBox (lower upper x : Vec R) : Checked (Vec R) := do
  let projections ← Vec.zipExact3 (fun v l u => project l u v) x lower upper
  projections.mapM id

/-- What stays fixed during an inner descent. -/
structure Descent (R : Type) where
  /-- What is minimised. -/
  lagrangian : Lagrangian R
  /-- Lower bounds of the box. -/
  lower : Vec R
  /-- Upper bounds of the box. -/
  upper : Vec R
  /-- Length of a step relative to the gradient. -/
  rate : R
  /-- The steps end below this size. -/
  tolerance : R

/-- One projected step, and its size: the distance moved, divided by the rate. -/
def Descent.step (descent : Descent R) (place : Place R) : Checked (Place R × R) := do
  let gradient ← descent.lagrangian.gradient place.x place.slack
  let slackGradient ← descent.lagrangian.slackGradient place.x place.slack
  let moved ← place.x.shiftScaled (-descent.rate) gradient
  let x ← projectOntoBox descent.lower descent.upper moved
  let movedSlack ← place.slack.shiftScaled (-descent.rate) slackGradient
  let slack := movedSlack.map fun s => Scalar.minNum s 0.0
  let distance := Vec.norm (← Vec.sub x place.x)
  let slackDistance := Vec.norm (← Vec.sub slack place.slack)
  return (⟨x, slack⟩, Scalar.hypot distance slackDistance / descent.rate)

/-- At most so many steps, up to the first small one. -/
def Descent.run (descent : Descent R) : (steps : Nat) → Place R → Checked (Place R)
  | 0, place => .ok place
  | steps + 1, place => do
    let (next, size) ← descent.step place
    if size < descent.tolerance then
      return next
    descent.run steps next

/-- The inner descent of a problem at fixed duals, from its start point and slack zero. -/
def minimize (problem : Problem R) (duals : DualVariables R) (rate : R)
    (settings : DualAscentSettings R) : Checked (Place R) :=
  let descent : Descent R :=
    { lagrangian := .ofProblem problem duals
      lower := problem.lower
      upper := problem.upper
      rate
      tolerance := settings.tolerance }
  descent.run settings.maxInner ⟨problem.start, Vec.zeros problem.slackDimension⟩

end HopfieldDescent.InnerDescent

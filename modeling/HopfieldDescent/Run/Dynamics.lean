import HopfieldDescent.Direction
import HopfieldDescent.Lagrangian
import HopfieldDescent.Problem.StartPoint
import HopfieldDescent.StepLength
import HopfieldDescent.Trajectory

/-!
# One step of a run

A run moves a hidden state.  Each step picks a direction and a length, moves the hidden state, and
squashes it into the box; the slack of the inequalities follows.  Coordinates near a bound may then
be absorbed, that is, set onto the bound.  The gradient is the one before absorption.

Nothing here knows how many steps there may be, who watches, or when to stop.
-/

namespace HopfieldDescent

variable {R G : Type} [Scalar R]

/-- What stays fixed during a run. -/
structure Dynamics (R : Type) where
  /-- The problem. -/
  problem : Problem R
  /-- The settings. -/
  config : Config R
  /-- What decreases. -/
  lagrangian : Lagrangian R
  /-- The squashing into the box. -/
  map : BoxMap R
  /-- Lipschitz constant of the gradient, penalties included. -/
  smoothness : R

/-- A point of a run, with the random source for the next step. -/
structure Position (R G : Type) where
  /-- The point in the box. -/
  x : Vec R
  /-- The hidden state. -/
  hidden : Vec R
  /-- The slack of the inequalities. -/
  slack : Vec R
  /-- The augmented objective. -/
  objective : R
  /-- The gradient from which the next direction is found. -/
  gradient : Vec R
  /-- Length of the gradient weighted by the proxy distance. -/
  stationarity : R
  /-- The random source. -/
  source : G

/-- A point reached by a trial step. -/
structure Candidate (R : Type) where
  /-- The hidden state. -/
  hidden : Vec R
  /-- The point in the box. -/
  x : Vec R
  /-- The slack of the inequalities. -/
  slack : Vec R
  /-- The augmented objective. -/
  objective : R

/-- Why a run fails. -/
inductive RunError where
  /-- The objective or its gradient left the finite numbers at an iterate. -/
  | nonFinite (iteration : Nat)
deriving DecidableEq, Repr

/-- The text shown for a failure. -/
def RunError.message : RunError → String
  | .nonFinite iteration =>
    s!"objective or gradient is not finite at iteration {iteration}"

namespace Dynamics

/-- What stays fixed during a run at the given duals. -/
def ofProblem (problem : Problem R) (config : Config R) (duals : DualVariables R)
    (radius : ConstraintBlock R → Checked R := ConstraintBlock.gramSpectralRadius) :
    Checked (Dynamics R) :=
  return {
    problem
    config
    lagrangian := .ofProblem problem duals
    map := problem.boxMap config.activation
    smoothness := ← problem.effectiveSmoothness radius }

/-- Length of the gradient weighted by the proxy distance; saturated coordinates do not count. -/
def stationarity (d : Dynamics R) (x gradient : Vec R) : Checked R := do
  return Vec.norm (← Vec.mul (← d.map.proxyDistance x) gradient)

/-- Whether an objective and a gradient are finite. -/
def isFinite (objective : R) (gradient : Vec R) : Bool :=
  Scalar.isFinite objective && Vec.isFinite gradient

/-- A coordinate set onto the bound on its side of the midpoint, if it is nearer than `distance` to
either bound. -/
def absorbed (distance x lower upper midpoint : R) : R :=
  if Scalar.minNum (x - lower) (upper - x) < distance then
    if x < midpoint then lower else upper
  else x

/-- Absorbs the coordinates of a point, if the settings ask for it. -/
def absorb (d : Dynamics R) (x : Vec R) : Checked (Vec R) :=
  match d.config.absorption with
  | some distance =>
    Vec.zipExact4 (absorbed distance) x d.problem.lower d.problem.upper d.problem.midpoint
  | none => .ok x

/-- The point reached from a hidden state and a slack by a step in a direction. -/
def candidate (d : Dynamics R) (hidden slack direction : Vec R) (step : R) :
    Checked (Candidate R) := do
  let hidden ← hidden.shiftScaled step direction
  let x ← d.map.activate hidden
  let slack ← d.lagrangian.updateSlack x slack
  let objective ← d.lagrangian.value x slack
  return { hidden, x, slack, objective }

/-- The length of the step with the given number, and the point it leads to. -/
def chosenStep (d : Dynamics R) (iteration : Nat) (p : Position R G) (direction : Vec R) :
    Checked (R × Candidate R) := do
  let proxy ← d.map.proxyDistance p.x
  match d.config.step with
  | .classic =>
    let plain ← StepLength.closedForm proxy p.gradient direction d.problem.gain d.smoothness
    let step := match d.config.direction with
      | .stochastic => StepLength.dampened plain d.smoothness iteration
      | _ => plain
    return (step, ← d.candidate p.hidden p.slack direction step)
  | .armijo =>
    let slope ← Vec.dot (← Vec.mul proxy p.gradient) direction
    let trial := fun step => do
      let candidate ← d.candidate p.hidden p.slack direction step
      return (candidate.objective, candidate)
    StepLength.backtrack trial p.objective slope StepLength.maxHalvings
      (Vec.norm p.gradient / d.smoothness)

variable [RandomSource G R]

/-- The position at the start point, with a random stand-in for a gradient that vanishes. -/
def start (d : Dynamics R) (source : G) : Checked (Except RunError (Position R G)) := do
  let x := d.problem.start
  let hidden ← d.map.inverse x
  let slack := Vec.zeros d.problem.slackDimension
  let objective ← d.lagrangian.value x slack
  let gradient ← d.lagrangian.gradient x slack
  if !isFinite objective gradient then
    return .error (.nonFinite 0)
  let (gradient, source) :=
    if Vec.isZero gradient then
      StartPoint.perturbedGradient d.problem.dimension d.problem.smoothness source
    else (gradient, source)
  let stationarity ← d.stationarity x gradient
  return .ok { x, hidden, slack, objective, gradient, stationarity, source }

/-- The step from the iterate with the given number, and the position after it. -/
def move (d : Dynamics R) (iteration : Nat) (p : Position R G) :
    Checked (Except RunError (R × Position R G)) := do
  let (direction, source) ← Direction.find d.problem d.map d.config p.x p.gradient p.source
  let (step, candidate) ← d.chosenStep iteration p direction
  let gradient ← d.lagrangian.gradient candidate.x candidate.slack
  if !isFinite candidate.objective gradient then
    return .error (.nonFinite (iteration + 1))
  let x ← d.absorb candidate.x
  let stationarity ← d.stationarity x gradient
  return .ok (step,
    { x
      hidden := candidate.hidden
      slack := candidate.slack
      objective := candidate.objective
      gradient
      stationarity
      source })

end Dynamics

omit [Scalar R] in
/-- What a trajectory keeps of a position. -/
def Position.iterate (p : Position R G) : Iterate R := ⟨p.x, p.hidden, p.objective, p.slack⟩

end HopfieldDescent

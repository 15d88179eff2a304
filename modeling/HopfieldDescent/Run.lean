import HopfieldDescent.Dual.Ascent
import HopfieldDescent.Observer
import HopfieldDescent.Run.Dynamics
import HopfieldDescent.Trajectory

/-!
# Runs

A run resolves the duals, starts at the start point of the problem, and makes steps until it has
converged, the room in the trajectory is used up, or an observer asks for an end.  Before each step
convergence is looked at first, room second; the observer hears of the step afterwards.
-/

namespace HopfieldDescent

/-- Why a run ended. -/
inductive RunStatus where
  /-- The stationarity fell below the precision. -/
  | converged
  /-- There was no room for another iterate. -/
  | maxIterations
  /-- An observer asked for the end. -/
  | stoppedByObserver
deriving DecidableEq, Repr

/-- The words for a status in a notice. -/
def RunStatus.describe : RunStatus → String
  | .converged => "Converged"
  | .maxIterations => "MaxIters"
  | .stoppedByObserver => "StoppedByObserver"

/-- The result of a run that did not fail. -/
structure Solution (R : Type) where
  /-- Why the run ended. -/
  status : RunStatus
  /-- Every iterate and every step. -/
  trajectory : Trajectory R
  /-- The duals that were used. -/
  duals : DualVariables R
  /-- How they were obtained. -/
  dualStatus : DualStatus
  /-- Number of the last iterate. -/
  iterations : Nat
  /-- Stationarity at the last iterate. -/
  stationarity : R

/-- All that comes out of a run. -/
structure RunReport (R σ : Type) where
  /-- The solution, or the failure. -/
  outcome : Except RunError (Solution R)
  /-- The state of the observer after the last event. -/
  observer : σ
  /-- What was said before the first event. -/
  opening : List (Notice R)
  /-- What was said after the last event. -/
  closing : List (Notice R)

/-- Where a run ended. -/
structure RunEnd (R G : Type) where
  /-- Why it ended. -/
  status : RunStatus
  /-- Number of the last iterate. -/
  iterations : Nat
  /-- The position there. -/
  position : Position R G
  /-- What was recorded. -/
  trajectory : Trajectory R

variable {R G σ : Type} [Scalar R] [RandomSource G R]

/-- Steps from the iterate with the given number on, at most `remaining` of them. -/
def Dynamics.iterate (d : Dynamics R) (observer : Observer σ (Event R) Action) :
    (remaining iteration : Nat) → Position R G → Trajectory R → σ →
    Checked (Except RunError (RunEnd R G) × σ)
  | remaining, iteration, position, trajectory, watching =>
    if position.stationarity < d.config.precision then
      .ok (.ok ⟨.converged, iteration, position, trajectory⟩, watching)
    else match remaining with
      | 0 => .ok (.ok ⟨.maxIterations, iteration, position, trajectory⟩, watching)
      | remaining + 1 => do
        match ← d.move iteration position with
        | .error failure => return (.error failure, watching)
        | .ok (step, next) =>
          let trajectory ← trajectory.record (iteration + 1) next.iterate
          let trajectory ← trajectory.recordStep iteration step
          let event : Event R :=
            .iteration (iteration + 1) next.x next.hidden next.objective step next.stationarity
          match observer.observe watching event with
          | (some .stopEarly, watching) =>
            return (.ok ⟨.stoppedByObserver, iteration + 1, next, trajectory⟩, watching)
          | (none, watching) =>
            d.iterate observer remaining (iteration + 1) next trajectory watching

omit [RandomSource G R] in
/-- A trajectory with room for so many iterates of a run, and for slacks if there are
inequalities. -/
def Dynamics.blankTrajectory (d : Dynamics R) (room : Nat) : Trajectory R :=
  .withCapacity d.problem.dimension
    (d.problem.inequalities.map fun _ => d.problem.slackDimension) room

/-- The events of a run from its first position on: the duals, if there are constraints, and then
the steps. -/
def Dynamics.watch (d : Dynamics R) (observer : Observer σ (Event R) Action)
    (estimate : DualEstimate R) (position : Position R G) (watching : σ) :
    Checked (Except RunError (RunEnd R G) × σ) := do
  let room := d.config.maxIterations
  let trajectory ← (d.blankTrajectory room).record 0 position.iterate
  if d.problem.isConstrained then
    match observer.observe watching (.dualsResolved estimate) with
    | (some .stopEarly, watching) =>
      return (.ok ⟨.stoppedByObserver, 0, position, trajectory⟩, watching)
    | (none, watching) => d.iterate observer (room - 1) 0 position trajectory watching
  else d.iterate observer (room - 1) 0 position trajectory watching

omit [Scalar R] [RandomSource G R] in
/-- The end of a run as its solution. -/
def RunEnd.solution (e : RunEnd R G) (estimate : DualEstimate R) : Checked (Solution R) :=
  return {
    status := e.status
    trajectory := ← e.trajectory.trimmed (e.iterations + 1)
    duals := estimate.duals
    dualStatus := estimate.status
    iterations := e.iterations
    stationarity := e.position.stationarity }

omit [Scalar R] [RandomSource G R] in
/-- What is said at the end of a run. -/
def RunEnd.notice (e : RunEnd R G) : Notice R :=
  ⟨.debug, "hopfield solve finished",
    [("status", .word e.status.describe), ("iters", .count e.iterations),
     ("stationarity", .scalar e.position.stationarity)]⟩

omit [Scalar R] [RandomSource G R] in
/-- The report of a run that has started. -/
def RunReport.ofEnd (estimate : DualEstimate R) (opening : List (Notice R)) :
    Except RunError (RunEnd R G) → σ → Checked (RunReport R σ)
  | .error failure, watching => .ok ⟨.error failure, watching, opening, []⟩
  | .ok final, watching => do
    let solution ← final.solution estimate
    return ⟨.ok solution, watching, opening, [final.notice]⟩

/-- Runs a problem under the eyes of an observer; `G` is the random source in use. -/
def solve (G : Type) [RandomSource G R] (problem : Problem R) (config : Config R)
    (observer : Observer σ (Event R) Action) (watching : σ)
    (radius : ConstraintBlock R → Checked R := ConstraintBlock.gramSpectralRadius) :
    Checked (RunReport R σ) := do
  let source : G := RandomSource.ofSeed config.seed
  let (estimate, opening) ← DualAscent.resolve problem config.dualAscent radius
  let d ← Dynamics.ofProblem problem config estimate.duals radius
  match ← d.start source with
  | .error failure => return ⟨.error failure, watching, opening, []⟩
  | .ok position =>
    let (result, watching) ← d.watch observer estimate position watching
    RunReport.ofEnd estimate opening result watching

/-- Runs a problem unwatched. -/
def solveUnobserved (G : Type) [RandomSource G R] (problem : Problem R) (config : Config R) :
    Checked (RunReport R Unit) :=
  solve G problem config .silent ()

end HopfieldDescent

import HopfieldDescent.Vec

/-!
# Trajectories

The history of a run: the iterates, from the start point on, and between each two of them the step
that leads from one to the next.  Room for both is set aside beforehand, and every place is written
by its number.  A write outside the room, or of an iterate that does not have the lengths set aside
for it, is a breach.  At the end of a run the places that have not been written are cut off.
-/

namespace HopfieldDescent

/-- What is recorded of an iterate. -/
structure Iterate (R : Type) where
  /-- The point in the box. -/
  x : Vec R
  /-- The hidden state. -/
  hidden : Vec R
  /-- The augmented objective. -/
  objective : R
  /-- The slack of the inequalities. -/
  slack : Vec R

/-- The history of a run. -/
structure Trajectory (R : Type) where
  /-- Number of variables. -/
  dimension : Nat
  /-- Number of slacks, where slacks mean anything: where there are inequalities. -/
  slackDimension : Option Nat
  /-- The iterates, from the start point on. -/
  iterates : Array (Iterate R)
  /-- The step from each iterate to the next. -/
  steps : Array R

namespace Trajectory

variable {R : Type}

/-- What fills the places that have not been written: not a number, where there is such a thing. -/
def blank [Scalar R] : R := 0.0 / 0.0

/-- An iterate that has not been written. -/
def blankIterate [Scalar R] (dimension slacks : Nat) : Iterate R where
  x := List.replicate dimension blank
  hidden := List.replicate dimension blank
  objective := blank
  slack := List.replicate slacks blank

/-- Room for so many iterates, and for the steps between them. -/
def withCapacity [Scalar R] (dimension : Nat) (slackDimension : Option Nat) (capacity : Nat) :
    Trajectory R where
  dimension
  slackDimension
  iterates := .replicate capacity (blankIterate dimension (slackDimension.getD 0))
  steps := .replicate (capacity - 1) blank

/-- Number of iterates. -/
def size (t : Trajectory R) : Nat := t.iterates.size

/-- Whether slacks mean anything. -/
def hasSlack (t : Trajectory R) : Bool := t.slackDimension.isSome

/-- The condition that an iterate has the lengths set aside for it. -/
def checkLengths (t : Trajectory R) (iterate : Iterate R) : Checked Unit := do
  Breach.sameLength t.dimension iterate.x.length
  Breach.sameLength t.dimension iterate.hidden.length
  match t.slackDimension with
  | some slacks => Breach.sameLength slacks iterate.slack.length
  | none => .ok ()

/-- Writes the iterate with the given number. -/
def record (t : Trajectory R) (number : Nat) (iterate : Iterate R) : Checked (Trajectory R) :=
  if number < t.iterates.size then do
    t.checkLengths iterate
    return { t with iterates := t.iterates.setIfInBounds number iterate }
  else .error (.capacity t.iterates.size)

/-- Writes the step from the iterate with the given number to the next. -/
def recordStep (t : Trajectory R) (number : Nat) (step : R) : Checked (Trajectory R) :=
  if number < t.steps.size then
    .ok { t with steps := t.steps.setIfInBounds number step }
  else .error (.capacity t.steps.size)

/-- The first iterates, and the steps between them. -/
def upTo (t : Trajectory R) (size : Nat) : Trajectory R :=
  { t with iterates := t.iterates.take size, steps := t.steps.take (size - 1) }

/-- Cuts off the places after the first ones; there have to be as many as are kept. -/
def trimmed (t : Trajectory R) (size : Nat) : Checked (Trajectory R) :=
  if size ≤ t.iterates.size ∧ size - 1 ≤ t.steps.size then .ok (t.upTo size)
  else .error (.capacity t.iterates.size)

/-- The last iterate. -/
def last? (t : Trajectory R) : Option (Iterate R) := t.iterates.back?

/-- The slack of an iterate, where slacks mean anything. -/
def slackOf (t : Trajectory R) (iterate : Iterate R) : Option (Vec R) :=
  if t.hasSlack then some iterate.slack else none

end Trajectory

end HopfieldDescent

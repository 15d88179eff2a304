import HopfieldDescent.Observer

/-!
# Stalled runs

A run stalls when the objective stops improving.  The observer keeps the best objective so far and
counts the events in a row that did not beat it by more than a tolerance; after as many as its
patience it asks for an end.  Events without an objective are passed over.
-/

namespace HopfieldDescent

/-- The state of a stall observer. -/
structure Stall (R : Type) where
  /-- How many events in a row may fail. -/
  patience : Nat
  /-- By how much an event has to beat the best one. -/
  tolerance : R
  /-- The best objective so far, infinite before the first. -/
  best : R
  /-- How many events in a row have failed. -/
  stalled : Nat

namespace Stall

variable {R ε α : Type} [UnboundedScalar R]

/-- A stall observer that has seen nothing. -/
def fresh (patience : Nat) (tolerance : R) : Stall R :=
  ⟨patience, tolerance, UnboundedScalar.infinity, 0⟩

/-- Takes in an objective. -/
def update (stall : Stall R) (objective : R) : Stall R :=
  { stall with
    best := Scalar.minNum stall.best objective
    stalled := if objective < stall.best - stall.tolerance then 0 else stall.stalled + 1 }

/-- Whether patience has run out. -/
def isOver (stall : Stall R) : Bool := decide (stall.patience ≤ stall.stalled)

/-- Takes in the objective of an event, if it has one, and says whether to stop. -/
def see (stall : Stall R) (objective : Option R) : Bool × Stall R :=
  match objective with
  | some value =>
    if Scalar.isNaN value then (false, stall)
    else
      let next := stall.update value
      (next.isOver, next)
  | none => (false, stall)

/-- The observer of stalled runs. -/
def observer [HasObjective ε R] [CanStopEarly α] : Observer (Stall R) ε α :=
  ⟨fun stall event =>
    let (stop, next) := stall.see (HasObjective.objective? event)
    (if stop then some CanStopEarly.stopEarly else none, next)⟩

end Stall

end HopfieldDescent

import HopfieldDescent.Dual

/-!
# Events of a run

What a run tells while it goes on, and what may be answered.  With constraints there is one event
when the duals are known, before the first step; then there is one event after every step.
-/

namespace HopfieldDescent

/-- What a run tells. -/
inductive Event (R : Type) where
  /-- The duals for the run are known. -/
  | dualsResolved (estimate : DualEstimate R)
  /-- A step has been made, to the iterate with the given number. -/
  | iteration (number : Nat) (x hidden : Vec R) (objective step stationarity : R)

/-- What may be answered to an event. -/
inductive Action where
  /-- The run shall end where it is. -/
  | stopEarly
deriving DecidableEq, Repr

namespace Event

variable {R : Type}

/-- The number of the iterate, after a step. -/
def number? : Event R → Option Nat
  | .iteration number _ _ _ _ _ => some number
  | .dualsResolved _ => none

/-- The augmented objective, after a step. -/
def objective? : Event R → Option R
  | .iteration _ _ _ objective _ _ => some objective
  | .dualsResolved _ => none

/-- The stationarity, after a step. -/
def stationarity? : Event R → Option R
  | .iteration _ _ _ _ _ stationarity => some stationarity
  | .dualsResolved _ => none

end Event

end HopfieldDescent

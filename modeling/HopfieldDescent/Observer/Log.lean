import HopfieldDescent.Notice
import HopfieldDescent.Observer

/-!
# Logged runs

An observer that turns events into notices and never interferes.
-/

namespace HopfieldDescent.Log

variable {R : Type}

/-- What is said about an event; of the steps, every one whose number is divisible by `every`. -/
def noticeOf? (every : Nat) : Event R → Option (Notice R)
  | .dualsResolved ⟨_, .notConverged n⟩ =>
    some ⟨.warn, "dual ascent did not converge", [("outer_iterations", .count n)]⟩
  | .dualsResolved estimate =>
    some ⟨.info, "dual variables resolved", [("status", .word estimate.status.describe)]⟩
  | .iteration number _ _ objective step stationarity =>
    if 0 < every ∧ number % every = 0 then
      some ⟨.info, "hopfield iteration",
        [("iter", .count number), ("objective", .scalar objective), ("step_size", .scalar step),
         ("stationarity", .scalar stationarity)]⟩
    else none

/-- The observer, whose state is what it has said so far. -/
def observer (every : Nat) : Observer (Array (Notice R)) (Event R) Action :=
  ⟨fun said event =>
    (none, match noticeOf? every event with
      | some notice => said.push notice
      | none => said)⟩

end HopfieldDescent.Log

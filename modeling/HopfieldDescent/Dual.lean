import HopfieldDescent.Lagrangian

/-!
# Where duals come from

An estimate is a pair of dual vectors with the way it was obtained.
-/

namespace HopfieldDescent

/-- How duals were obtained. -/
inductive DualStatus where
  /-- There are no constraints. -/
  | notRequired
  /-- The caller gave duals for every block. -/
  | supplied
  /-- The dual ascent settled after so many updates. -/
  | converged (outerIterations : Nat)
  /-- The dual ascent used up its updates; the duals that moved least are used. -/
  | notConverged (outerIterations : Nat)
deriving DecidableEq, Repr

/-- The words for a status in a notice. -/
def DualStatus.describe : DualStatus → String
  | .notRequired => "NotRequired"
  | .supplied => "Supplied"
  | .converged n => "Converged \x7b outer_iterations: " ++ toString n ++ " \x7d"
  | .notConverged n => "DidNotConverge \x7b outer_iterations: " ++ toString n ++ " \x7d"

/-- Duals, and how they were obtained. -/
structure DualEstimate (R : Type) where
  /-- The duals. -/
  duals : DualVariables R
  /-- How they were obtained. -/
  status : DualStatus

namespace Problem

variable {R : Type}

/-- Whether every block of the problem came with duals. -/
def hasAllDuals (problem : Problem R) : Bool :=
  (problem.equalities.isNone || problem.equalityDual.isSome) &&
    (problem.inequalities.isNone || problem.inequalityDual.isSome)

/-- The duals that came with the problem. -/
def suppliedDuals (problem : Problem R) : DualVariables R :=
  ⟨problem.equalityDual, problem.inequalityDual⟩

end Problem

end HopfieldDescent

/-!
# Refused settings

Why a name is not known, or a combination of settings is not accepted.
-/

namespace HopfieldDescent

/-- Why settings are refused. -/
inductive ConfigError where
  /-- No activation has this name. -/
  | unknownActivation (name : String)
  /-- No direction rule has this name. -/
  | unknownDirection (name : String)
  /-- No step rule has this name. -/
  | unknownStepRule (name : String)
  /-- No start ascent has this name. -/
  | unknownStartAscent (name : String)
  /-- No stopping criterion has this name. -/
  | unknownStoppingCriterion (name : String)
  /-- No gain scope has this name. -/
  | unknownGainScope (name : String)
  /-- The weight of the binary pull is not a proportion. -/
  | gamma
  /-- The angular slack is out of range. -/
  | theta
  /-- The distance at which the start ascent stops is negative or not finite. -/
  | ascentStop
  /-- The absorption distance is negative or not finite. -/
  | absorption
  /-- Not even the start point may be recorded. -/
  | maxIterations
  /-- The stopping precision is not a positive number. -/
  | precision
  /-- A gain is not a positive number. -/
  | gain
  /-- The tolerance of the dual ascent is not a positive number. -/
  | dualTolerance
  /-- One of the loops of the dual ascent may not run at all. -/
  | dualIterations
  /-- The decay of the dual steps is not a positive proportion. -/
  | dualDecay
  /-- The first dual value is not finite. -/
  | initialDual
deriving DecidableEq, Repr

/-- The text shown for a refusal. -/
def ConfigError.message : ConfigError → String
  | .unknownActivation name => "unknown activation type `" ++ name ++ "`"
  | .unknownDirection name => "unknown direction type `" ++ name ++ "`"
  | .unknownStepRule name => "unknown step type `" ++ name ++ "`"
  | .unknownStartAscent name => "unknown initial ascent type `" ++ name ++ "`"
  | .unknownStoppingCriterion name => "unknown stopping criterion type `" ++ name ++ "`"
  | .unknownGainScope name => "unknown beta scope `" ++ name ++ "`"
  | .gamma => "gamma must lie in [0, 1]"
  | .theta => "theta must lie in [0, 1]"
  | .ascentStop => "ascent_stop_criterion must be finite and non-negative"
  | .absorption => "absorption_criterion must be finite and non-negative"
  | .maxIterations => "max_iterations must be at least 1"
  | .precision => "precision_stopping_criterion must be finite and positive"
  | .gain => "beta must be finite and positive"
  | .dualTolerance => "dual ascent tolerance must be finite and positive"
  | .dualIterations => "dual ascent iteration caps must be at least 1"
  | .dualDecay => "dual ascent step decay must lie in (0, 1]"
  | .initialDual => "initial dual value must be finite"

end HopfieldDescent

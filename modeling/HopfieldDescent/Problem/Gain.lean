import HopfieldDescent.Problem

/-!
# Gains of the coordinates

A single gain is given to the coordinates in its scope and one to the others; gains for every
coordinate are taken as they are.
-/

namespace HopfieldDescent.Config

variable {R : Type} [Scalar R]

/-- The gains that the settings ask for, if their number fits. -/
def requestedGains (config : Config R) (binary : List Bool) : Option (Vec R) :=
  match config.gain with
  | .uniform value =>
    some (binary.map fun isBinary => if config.gainScope.covers isBinary then value else 1.0)
  | .perCoordinate values => if values.length = binary.length then some values else none

/-- The gain of each coordinate; each has to be a positive number. -/
def coordinateGains (config : Config R) (binary : List Bool) :
    Except (SetupError R) (Vec R) :=
  match config.requestedGains binary with
  | some gains => if gains.all Scalar.isPositive then .ok gains else .error .invalidGain
  | none => .error .invalidGain

end HopfieldDescent.Config

import HopfieldDescent.Config.Choice
import HopfieldDescent.Scalar
import HopfieldDescent.Vec

/-!
# Settings and configurations

`Settings` are a draft: any values at all may stand in it.  `Settings.build` looks at the ranges in
a fixed order and either accepts the draft as a `Config` or names the first setting out of range.
A configuration can be opened again as a draft.

The settings of the dual ascent are accepted on their own, before they enter a draft.
-/

namespace HopfieldDescent

variable {R : Type}

/-- Steepness of the activation. -/
inductive Gain (R : Type) where
  /-- One value, spread over the coordinates by the gain scope. -/
  | uniform (value : R)
  /-- One value for every coordinate. -/
  | perCoordinate (values : Vec R)

/-- Settings of the dual ascent. -/
structure DualAscentSettings (R : Type) where
  /-- Both loops stop below this change. -/
  tolerance : R
  /-- Cap on updates of the duals. -/
  maxOuter : Nat
  /-- Cap on inner descent steps before each update. -/
  maxInner : Nat
  /-- Factor on the dual step after each update. -/
  stepDecay : R
  /-- The value from which every dual starts. -/
  initialDual : R

namespace DualAscentSettings

variable [Scalar R]

/-- The settings in use unless others are given. -/
def standard : DualAscentSettings R := ⟨1e-3, 100, 10000, 0.9, 1.0⟩

/-- Accepts settings within their ranges, or names the first one out of range. -/
def check (s : DualAscentSettings R) : Except ConfigError (DualAscentSettings R) :=
  if !Scalar.isPositive s.tolerance then .error .dualTolerance
  else if s.maxOuter = 0 ∨ s.maxInner = 0 then .error .dualIterations
  else if !(decide (0.0 < s.stepDecay) && decide (s.stepDecay ≤ 1.0)) then .error .dualDecay
  else if !Scalar.isFinite s.initialDual then .error .initialDual
  else .ok s

end DualAscentSettings

/-- A draft of a configuration. -/
structure Settings (R : Type) where
  /-- Squashing function. -/
  activation : Activation
  /-- Weight of the binary pull against plain descent. -/
  gamma : R
  /-- Angle by which the direction stays clear of the edge of descent. -/
  theta : R
  /-- Distance from the bounds at which the start ascent stops. -/
  ascentStop : Option R
  /-- Distance from a bound within which a coordinate snaps onto it. -/
  absorption : Option R
  /-- Cap on recorded iterates, the start point included. -/
  maxIterations : Nat
  /-- What has to become small. -/
  stopping : StoppingCriterion
  /-- How the direction is chosen. -/
  direction : DirectionRule
  /-- How long a step is. -/
  step : StepRule
  /-- Which coordinates the start ascent moves. -/
  startAscent : StartAscent
  /-- Below this stationarity a run has converged. -/
  precision : R
  /-- Steepness of the activation. -/
  gain : Gain R
  /-- Where a single gain applies. -/
  gainScope : GainScope
  /-- How the duals are estimated. -/
  dualAscent : DualAscentSettings R
  /-- Start of the random draws. -/
  seed : UInt64

/-- Settings that have been accepted. -/
structure Config (R : Type) extends Settings R

variable [Scalar R]

/-- The draft from which every other one starts. -/
def Settings.standard : Settings R where
  activation := .sine
  gamma := 0.9
  theta := 0.01
  ascentStop := some 0.01
  absorption := none
  maxIterations := 500
  stopping := .gradient
  direction := .binary
  step := .classic
  startAscent := .binaryNeutralAscent
  precision := 1e-6
  gain := .uniform 1.0
  gainScope := .continuousOnly
  dualAscent := .standard
  seed := 0

/-- Whether every gain is a positive number. -/
def Gain.isPositive : Gain R → Bool
  | .uniform value => Scalar.isPositive value
  | .perCoordinate values => values.all Scalar.isPositive

/-- The settings of a draft as a configuration, without a look at their ranges. -/
def Settings.assemble (s : Settings R) : Config R where
  activation := s.activation
  gamma := s.gamma
  theta := s.theta
  ascentStop := s.ascentStop
  absorption := s.absorption
  maxIterations := s.maxIterations
  stopping := s.stopping
  direction := s.direction
  step := s.step
  startAscent := s.startAscent
  precision := s.precision
  gain := s.gain
  gainScope := s.gainScope
  dualAscent := s.dualAscent
  seed := s.seed

omit [Scalar R] in
/-- Nothing is changed on the way from a draft to a configuration. -/
@[simp] theorem Settings.assemble_eq (s : Settings R) : s.assemble = ⟨s⟩ := rfl

/-- Accepts a draft within the ranges, or names the first setting out of range. -/
def Settings.build (s : Settings R) : Except ConfigError (Config R) :=
  if !Scalar.inUnitInterval s.gamma then .error .gamma
  else if !Scalar.inUnitInterval s.theta then .error .theta
  else if !s.ascentStop.all Scalar.isNonnegative then .error .ascentStop
  else if !s.absorption.all Scalar.isNonnegative then .error .absorption
  else if s.maxIterations = 0 then .error .maxIterations
  else if !Scalar.isPositive s.precision then .error .precision
  else if !s.gain.isPositive then .error .gain
  else .ok s.assemble

namespace Config

/-- The configuration in use unless another is given. -/
def standard : Config R := Settings.standard.assemble

/-- The draft that holds the settings of a configuration. -/
def reopen (config : Config R) : Settings R where
  activation := config.activation
  gamma := config.gamma
  theta := config.theta
  ascentStop := config.ascentStop
  absorption := config.absorption
  maxIterations := config.maxIterations
  stopping := config.stopping
  direction := config.direction
  step := config.step
  startAscent := config.startAscent
  precision := config.precision
  gain := config.gain
  gainScope := config.gainScope
  dualAscent := config.dualAscent
  seed := config.seed

omit [Scalar R] in
/-- Nothing is changed on the way back. -/
@[simp] theorem reopen_eq (config : Config R) : config.reopen = config.toSettings := rfl

/-- The distance at which the start ascent really stops.  With absorption it lies beyond the
absorption distance, so that the start point is not absorbed at once. -/
def effectiveAscentStop (config : Config R) : R :=
  match config.ascentStop, config.absorption with
  | some ascent, some absorption => if ascent ≤ absorption then 2.0 * absorption else ascent
  | some ascent, none => ascent
  | none, _ => 0.0

/-- Whether coordinates near a bound snap onto it. -/
def absorbs (config : Config R) : Bool := config.absorption.isSome

end Config

end HopfieldDescent

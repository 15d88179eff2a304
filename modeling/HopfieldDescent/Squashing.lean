import HopfieldDescent.Config.Choice
import HopfieldDescent.Vec

/-!
# Squashing functions

A squashing function maps a hidden coordinate to the unit interval; `gain` is its steepness at the
centre.  With it come an inverse and a *proxy distance*, the slope of the function at a given value
(up to a constant factor), which vanishes where the function saturates.

All of them are centred: one half is mapped to one half.
-/

namespace HopfieldDescent

/-- A function on hidden coordinates, its inverse and its slope, each with the gain as second
argument. -/
structure Squashing (R : Type) where
  /-- From a hidden coordinate to the unit interval. -/
  activate : R → R → R
  /-- From the unit interval to a hidden coordinate. -/
  inverse : R → R → R
  /-- Slope at a value of the unit interval. -/
  proxy : R → R → R

variable {R : Type} [Scalar R]

/-! ## Clipped line -/

namespace PiecewiseLinear

/-- The line of slope `gain` through the centre, clipped to the unit interval. -/
def activate (z gain : R) : R := Scalar.clamp 0.0 1.0 (gain * (z - 0.5) + 0.5)

/-- The line read backwards on the closed unit interval, the nearer end outside it. -/
def inverse (z gain : R) : R :=
  if 0.0 ≤ z ∧ z ≤ 1.0 then (z - 0.5) / gain + 0.5
  else if z < 0.0 then 0.0
  else 1.0

/-- The slope of the line, and zero where it is clipped. -/
def proxy (z gain : R) : R := if 0.0 < z ∧ z < 1.0 then gain else 0.0

end PiecewiseLinear

/-! ## Sine wave -/

namespace SineWave

/-- A sine from its lowest to its highest point, constant outside. -/
def activate (z gain : R) : R :=
  let halfWindow := Scalar.quarterPi / gain
  if 0.5 + halfWindow < z then 1.0
  else if z < 0.5 - halfWindow then 0.0
  else 0.5 * Scalar.sin (2.0 * gain * (z - 0.5)) + 0.5

/-- The inverse sine on the closed unit interval, the nearer end outside it. -/
def inverse (z gain : R) : R :=
  if 0.0 ≤ z ∧ z ≤ 1.0 then Scalar.arcsin (2.0 * z - 1.0) / (2.0 * gain) + 0.5
  else if z < 0.0 then 0.0
  else 1.0

/-- Twice the gain times the geometric mean of the distances to the two ends. -/
def proxy (z gain : R) : R :=
  let z := Scalar.clamp 0.0 1.0 z
  2.0 * gain * Scalar.sqrt z * Scalar.sqrt (1.0 - z)

end SineWave

/-! ## Two exponentials -/

namespace ExponentialBranches

/-- Exponential growth up to the centre, and its point reflection from there on. -/
def activate (z gain : R) : R :=
  if 0.5 < z then 1.0 - Scalar.exp (2.0 * gain * (0.5 - z) - Scalar.logTwo)
  else Scalar.exp (2.0 * gain * (z - 0.5) - Scalar.logTwo)

/-- The logarithmic branches on the open unit interval, the nearer end outside it. -/
def inverse (z gain : R) : R :=
  if z ≤ 0.0 then 0.0
  else if 1.0 ≤ z then 1.0
  else if z < 0.5 then 0.5 + Scalar.log (2.0 * z) / (2.0 * gain)
  else 0.5 - Scalar.log (2.0 * (1.0 - z)) / (2.0 * gain)

/-- The gain times the distance to the nearer end. -/
def proxy (z gain : R) : R :=
  let z := Scalar.clamp 0.0 1.0 z
  gain * Scalar.minNum z (1.0 - z)

end ExponentialBranches

/-! ## Hyperbolic tangent -/

namespace HyperbolicTangent

/-- The hyperbolic tangent, moved to the unit interval. -/
def activate (z gain : R) : R := 0.5 * (Scalar.tanh (2.0 * gain * (z - 0.5)) + 1.0)

/-- The inverse hyperbolic tangent: half the logarithm of the ratio of `1 + y` to `1 - y`, which is
one plus twice `y` over `1 - y`. -/
def artanh (y : R) : R := 0.5 * Scalar.logOnePlus (2.0 * y / (1.0 - y))

/-- The inverse hyperbolic tangent on the open unit interval, the nearer end outside it. -/
def inverse (z gain : R) : R :=
  if z ≤ 0.0 then 0.0
  else if 1.0 ≤ z then 1.0
  else artanh (2.0 * z - 1.0) / (2.0 * gain) + 0.5

/-- Four times the gain times the product of the distances to the two ends. -/
def proxy (z gain : R) : R :=
  let z := Scalar.clamp 0.0 1.0 z
  4.0 * gain * z * (1.0 - z)

end HyperbolicTangent

/-- The squashing function of each kind; the identity leaves values alone and has no slope to
follow. -/
def Activation.squashing : Activation → Squashing R
  | .piecewiseLinear => ⟨PiecewiseLinear.activate, PiecewiseLinear.inverse, PiecewiseLinear.proxy⟩
  | .sine => ⟨SineWave.activate, SineWave.inverse, SineWave.proxy⟩
  | .exponential =>
    ⟨ExponentialBranches.activate, ExponentialBranches.inverse, ExponentialBranches.proxy⟩
  | .hyperbolicTangent =>
    ⟨HyperbolicTangent.activate, HyperbolicTangent.inverse, HyperbolicTangent.proxy⟩
  | .identity => ⟨fun z _ => z, fun z _ => z, fun _ _ => 0.0⟩

namespace Activation

/-- Squashes each coordinate with its own gain. -/
def activate (kind : Activation) (z gains : Vec R) : Checked (Vec R) :=
  Vec.zipExact kind.squashing.activate z gains

/-- Inverts each coordinate with its own gain. -/
def inverse (kind : Activation) (z gains : Vec R) : Checked (Vec R) :=
  Vec.zipExact kind.squashing.inverse z gains

/-- The proxy distance of each coordinate with its own gain. -/
def proxyDistance (kind : Activation) (z gains : Vec R) : Checked (Vec R) :=
  Vec.zipExact kind.squashing.proxy z gains

end Activation

end HopfieldDescent

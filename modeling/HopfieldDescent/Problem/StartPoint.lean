import HopfieldDescent.Problem
import HopfieldDescent.Random

/-!
# Start points

A run starts from the point that a caller gives, if it lies strictly inside the box, and from the
centre otherwise.  Before that, the point climbs: bounded gradient *ascent* carries it away from
flat regions, until it comes within the stop distance of a bound or the gradient fades.  At a point
where the gradient vanishes altogether a small random vector stands in for it.  At the end the point
is moved back into the box shrunk by the stop distance.
-/

namespace HopfieldDescent.StartPoint

variable {R G : Type} [Scalar R]

/-- Cap on ascent steps. -/
def maxSteps : Nat := 1000

/-- The norm below which a gradient has faded, for a single variable. -/
def gradientFloor : R := 1e-6

/-- A random stand-in for a gradient that vanishes, small against the smoothness coefficient. -/
def perturbedGradient [RandomSource G R] (n : Nat) (smoothness : R) (source : G) : Vec R × G :=
  let (shares, source) := RandomSource.draws n source
  (shares.map fun share => smoothness / 10.0 * (share - 0.5), source)

/-- The point from which the ascent starts. -/
def seedPoint (lower upper : Vec R) (given : Option (Vec R)) : Checked (Vec R) :=
  match given with
  | some point =>
    if Vec.strictlyInside lower upper point then .ok point else boxMidpoint lower upper
  | none => boxMidpoint lower upper

/-- One for each coordinate that the ascent may move, zero for the others. -/
def freedom (rule : StartAscent) (binary : List Bool) : Vec R :=
  match rule with
  | .ascent => binary.map fun _ => 1.0
  | .binaryNeutralAscent => binary.map fun isBinary => if isBinary then 0.0 else 1.0

/-- What stays fixed during an ascent. -/
structure Ascent (R : Type) where
  /-- What is climbed. -/
  objective : Objective R
  /-- Lower end of the shrunk box. -/
  low : Vec R
  /-- Upper end of the shrunk box. -/
  high : Vec R
  /-- Factor on each coordinate of a step. -/
  free : Vec R
  /-- Length of a step relative to the gradient. -/
  rate : R
  /-- The norm below which the gradient has faded. -/
  floor : R

namespace Ascent

/-- Whether the ascent ends at a point with the given gradient. -/
def isOver (ascent : Ascent R) (x gradient : Vec R) : Bool :=
  !Vec.strictlyInside ascent.low ascent.high x || decide (Vec.norm gradient ≤ ascent.floor)

/-- Climbs at most `steps` times from a point with the given gradient. -/
def climb (ascent : Ascent R) : (steps : Nat) → (x gradient : Vec R) → Checked (Vec R)
  | 0, x, _ => .ok x
  | steps + 1, x, gradient =>
    if ascent.isOver x gradient then .ok x
    else do
      let x ← x.shiftScaled ascent.rate (← gradient.mul ascent.free)
      ascent.climb steps x (← ascent.objective.gradient x)

/-- The nearest point of the shrunk box, the upper end winning where the ends have crossed. -/
def settle (ascent : Ascent R) (x : Vec R) : Checked (Vec R) :=
  Vec.zipExact3 (fun x low high => Scalar.minNum (Scalar.maxNum x low) high)
    x ascent.low ascent.high

end Ascent

/-- The start point of a problem with the given parts. -/
def compute [RandomSource G R] (config : Config R) (objective : Objective R)
    (lower upper : Vec R) (binary : List Bool) (smoothness : R) (given : Option (Vec R))
    (source : G) : Checked (Vec R × G) := do
  let stop := config.effectiveAscentStop
  let n := lower.length
  let ascent : Ascent R :=
    { objective
      low := lower.map (· + stop)
      high := upper.map (· - stop)
      free := freedom config.startAscent binary
      rate := 1.0 / smoothness
      floor := gradientFloor / Scalar.ofNat n }
  let x ← seedPoint lower upper given
  let gradient ← objective.gradient x
  let (gradient, source) :=
    if Vec.isZero gradient then perturbedGradient n smoothness source else (gradient, source)
  let x ← ascent.climb maxSteps x gradient
  return (← ascent.settle x, source)

end HopfieldDescent.StartPoint

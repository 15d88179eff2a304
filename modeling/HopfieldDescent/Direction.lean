import HopfieldDescent.Problem
import HopfieldDescent.Random

/-!
# Search directions

The direction in which the hidden state moves is a vector of length one, or zero.  The plain rules
go against the gradient.  The binary rules blend plain descent with a pull of binary coordinates
towards a bound, and then bend the blend towards the descent direction weighted by the proxy
distance, until the angle between the two is well below a right one.

With absorption, binary coordinates that sit on a bound do not move any more.
-/

namespace HopfieldDescent.Direction

variable {R G : Type} [Scalar R]

/-- What is taken off each random factor of the stochastic rule. -/
def stochasticShift : R := 0.3

/-- Zero at binary coordinates on a bound, one elsewhere. -/
def absorptionMask (problem : Problem R) (x : Vec R) : Checked (Vec R) :=
  Vec.zipExact4 (fun x l u isBinary => if isBinary && (x == l || x == u) then 0.0 else 1.0)
    x problem.lower problem.upper problem.binary

/-- A vector with the masked coordinates set to zero, if there is a mask. -/
def masked (v : Vec R) (mask : Option (Vec R)) : Checked (Vec R) :=
  match mask with
  | some mask => Vec.zipOnto (· * ·) v mask
  | none => .ok v

/-- The negative gradient with the masked coordinates set to zero. -/
def descent (gradient : Vec R) (mask : Option (Vec R)) : Checked (Vec R) :=
  match mask with
  | some mask => gradient.neg.mul mask
  | none => .ok gradient.neg

/-- How far a point is from the midpoint, in the sense of the rule. -/
def offset (problem : Problem R) (map : BoxMap R) (rule : DirectionRule) (x : Vec R) :
    Checked (Vec R) :=
  match rule with
  | .softBinary => do Vec.sub (← map.activate x) problem.midpoint
  | _ => Vec.zipExact (fun x m => Scalar.signum (x - m)) x problem.midpoint

/-- The offset at binary coordinates, zero elsewhere. -/
def binaryPull (problem : Problem R) (map : BoxMap R) (rule : DirectionRule) (x : Vec R) :
    Checked (Vec R) := do
  Vec.zipExact (fun o isBinary => if isBinary then o else 0.0)
    (← offset problem map rule x) problem.binary

/-- How much of the unit vector `g` the blend `w` still needs for the angle between them to be at
least `theta` below a right one. -/
def bend (theta : R) (g w : Vec R) : R :=
  let along := Vec.inner g w
  let spread := Scalar.sqrt (Scalar.maxNum (Vec.inner w w - along * along) 0.0)
  Scalar.maxNum (-along + Scalar.tan theta * spread) 0.0

/-- The pull blended with descent, bent towards the weighted descent. -/
def blended (map : BoxMap R) (gamma theta : R) (x gradient pull : Vec R)
    (mask : Option (Vec R)) : Checked (Vec R) := do
  let weighted := Vec.neg (← Vec.mul (← map.proxyDistance x) gradient)
  let b := Vec.normalize (← masked pull mask)
  let h := Vec.normalize (← masked gradient.neg mask)
  let g := Vec.normalize weighted
  let w ← Vec.add (b.scale gamma) (h.scale (1.0 - gamma))
  Breach.sameLength g.length w.length
  masked (← w.shiftScaled (bend theta g w) g) mask

/-- The unit direction at a point, or zero; only the stochastic rule draws random numbers. -/
def find [RandomSource G R] (problem : Problem R) (map : BoxMap R) (config : Config R)
    (x gradient : Vec R) (source : G) : Checked (Vec R × G) := do
  let mask ← if config.absorbs then some <$> absorptionMask problem x else .ok none
  match config.direction with
  | .classic => return (Vec.normalize (← descent gradient mask), source)
  | .stochastic =>
    let d ← descent gradient mask
    let (shares, source) := RandomSource.draws d.length source
    return (Vec.normalize (List.zipWith (fun d share => -d * (share - stochasticShift)) d shares),
      source)
  | .binary | .softBinary =>
    let pull ← binaryPull problem map config.direction x
    return (Vec.normalize
      (← blended map config.gamma config.theta x gradient pull mask), source)

end HopfieldDescent.Direction

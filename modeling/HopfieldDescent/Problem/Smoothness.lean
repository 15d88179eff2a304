import HopfieldDescent.Problem
import HopfieldDescent.Random

/-!
# Sampled smoothness

Without a known Lipschitz constant of the gradient, one is guessed from below: between two random
points of the box, the gradient changes by some multiple of their distance, and the largest multiple
over as many pairs as there are variables is the estimate.
-/

namespace HopfieldDescent.Smoothness

variable {R G : Type} [Scalar R]

/-- How much the gradient changes from `p` to `q`, relative to their distance; zero for points that
coincide. -/
def changeRatio (objective : Objective R) (p q : Vec R) : Checked R := do
  let distance := Vec.norm (← Vec.sub p q)
  if distance == 0.0 then
    return 0.0
  let change ← Vec.sub (← objective.gradient p) (← objective.gradient q)
  return Vec.norm change / distance

variable [RandomSource G R]

/-- The change ratios of `count` random pairs of points. -/
def sampledRatios (objective : Objective R) (lower upper : Vec R) :
    (count : Nat) → G → Checked (Vec R × G)
  | 0, source => .ok ([], source)
  | count + 1, source => do
    let (p, source) ← RandomSource.pointOfBox lower upper source
    let (q, source) ← RandomSource.pointOfBox lower upper source
    let ratio ← changeRatio objective p q
    let (ratios, source) ← sampledRatios objective lower upper count source
    return (ratio :: ratios, source)

/-- The largest change ratio over as many random pairs as there are variables. -/
def estimate (objective : Objective R) (lower upper : Vec R) (source : G) :
    Checked (R × G) := do
  let (ratios, source) ← sampledRatios objective lower upper lower.length source
  return (Vec.peak ratios, source)

end HopfieldDescent.Smoothness

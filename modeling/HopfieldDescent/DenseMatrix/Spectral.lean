import HopfieldDescent.DenseMatrix

/-!
# Spectral radius of a symmetric matrix

The largest absolute eigenvalue is estimated by power iteration: a unit vector is multiplied by the
matrix again and again, and the length of the product is the estimate.  One start alone can be
orthogonal to the dominant eigenvector, so the iteration runs from one uneven vector and from every
basis vector, and the largest estimate wins.
-/

namespace HopfieldDescent.DenseMatrix

variable {R : Type} [Scalar R]

/-- How many products one power iteration forms at most. -/
def powerRounds : Nat := 1000

/-- Relative change of the estimate at which a power iteration has settled. -/
def powerTolerance : R := 1e-12

/-- Power iteration with at most `rounds` further products: `v` is the current unit vector and
`estimate` the length of the last product.  A product of length zero ends it with zero. -/
def powerIteration (a : DenseMatrix R) : (rounds : Nat) → (v : Vec R) → (estimate : R) → Checked R
  | 0, _, estimate => .ok estimate
  | rounds + 1, v, estimate => do
    let product ← a.mulVec v
    let next := Vec.norm product
    if next == 0.0 then
      return 0.0
    if Scalar.abs (next - estimate) ≤ powerTolerance * next then
      return next
    powerIteration a rounds (product.map (· / next)) next

/-- A vector with entries growing from one towards two. -/
def unevenVector (n : Nat) : Vec R :=
  (List.range n).map fun i => 1.0 + Scalar.ofNat i / Scalar.ofNat n

/-- The basis vector of direction `k`. -/
def basisVector (n k : Nat) : Vec R :=
  (List.range n).map fun i => if i = k then 1.0 else 0.0

/-- The vectors from which power iteration starts, each scaled to length one. -/
def powerStarts (n : Nat) : List (Vec R) :=
  (unevenVector n :: (List.range n).map (basisVector n)).map Vec.normalize

/-- Estimate of the largest absolute eigenvalue of a symmetric matrix; zero for one without
rows. -/
def spectralRadius (a : DenseMatrix R) : Checked R :=
  if a.height = 0 then .ok 0.0
  else do
    let estimates ← (powerStarts a.height).mapM fun start => a.powerIteration powerRounds start 0.0
    return Vec.peak estimates

/-- Estimate of the squared operator norm: the spectral radius of the Gram matrix. -/
def gramSpectralRadius (a : DenseMatrix R) : Checked R := a.gram.spectralRadius

end HopfieldDescent.DenseMatrix

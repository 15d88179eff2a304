import HopfieldDescent.Vec

/-!
# Step lengths

Two rules for how far the hidden state moves along its direction: a closed formula, in which the
slope is divided by a bound on the curvature, and backtracking, which halves a first guess until the
objective has decreased by half of what the slope promises.
-/

namespace HopfieldDescent.StepLength

variable {R : Type} [Scalar R]

/-- A denominator below this counts as zero. -/
def curvatureFloor : R := 2.220446049250313e-16

/-- The slope over the bound on the curvature: the smoothness coefficient times the squared length
of the direction scaled by the gains, plus twelve times the gradient weighted by the squares of its
entries.  Zero where the bound degenerates. -/
def closedForm (proxy gradient direction gain : Vec R) (smoothness : R) : Checked R := do
  let squares ← Vec.zipExact (fun d gain => Scalar.square (gain * d)) direction gain
  let curvatures ← Vec.zipExact (fun square g => square * Scalar.abs g) squares gradient
  let slopes ← Vec.zipExact3 (fun sigma g d => sigma * g * d) proxy gradient direction
  let bound := smoothness * Vec.sum squares + 12.0 * Vec.sum curvatures
  return if Scalar.isFinite bound ∧ curvatureFloor < bound then -Vec.sum slopes / bound else 0.0

/-- A step blended towards the reciprocal of the smoothness coefficient, the less so the larger the
iteration number. -/
def dampened (step smoothness : R) (iteration : Nat) : R :=
  let root := Scalar.sqrt (Scalar.ofNat (max iteration 1))
  (1.0 - 1.0 / root) * step + 1.0 / (smoothness * root)

/-- Cap on halvings. -/
def maxHalvings : Nat := 64

/-- Whether a trial value lies far enough below the current one. -/
def accepts (current slope step value : R) : Bool :=
  decide (value ≤ current + 0.5 * step * slope)

/-- Tries a step and halves it until the trial is accepted; the last trial is taken as it is.  A
trial may have effects, so each step is tried once and in order. -/
def backtrack {m : Type → Type} [Monad m] {T : Type} (trial : R → m (R × T))
    (current slope : R) : (halvings : Nat) → (step : R) → m (R × T)
  | 0, step => do
    let (_, candidate) ← trial step
    return (step, candidate)
  | halvings + 1, step => do
    let (value, candidate) ← trial step
    if accepts current slope step value then
      return (step, candidate)
    backtrack trial current slope halvings (step * 0.5)

end HopfieldDescent.StepLength

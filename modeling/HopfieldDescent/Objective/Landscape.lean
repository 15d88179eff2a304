import HopfieldDescent.Objective

/-!
# Landscapes

Objectives with a known shape, on which a method can be tried: flat and linear ones, wells, the
curved valley, and a few that stop being finite somewhere.  Sums run over the coordinates in order.
-/

namespace HopfieldDescent.Landscape

variable {R : Type} [Scalar R]

/-- Zero everywhere. -/
def flat : Objective R :=
  .ofFunctions (fun _ => .ok 0.0) (fun x => .ok (x.map fun _ => 0.0))

/-- A multiple of the sum of squares. -/
def sumOfSquares (scale : R) : Objective R :=
  .ofFunctions (fun x => .ok (scale * Vec.sum (x.map fun v => v * v)))
    (fun x => .ok (x.map fun v => 2.0 * scale * v))

/-- The linear form with the given coefficients. -/
def linear (c : Vec R) : Objective R :=
  .ofFunctions (fun x => .ok (Vec.inner c x)) (fun _ => .ok c)

/-- The sum of the fourth powers of the distances from a centre. -/
def quartic (c : Vec R) : Objective R :=
  .ofFunctions
    (fun x => .ok (Vec.sum (List.zipWith (fun v a => (v - a) * (v - a) * (v - a) * (v - a)) x c)))
    (fun x => .ok (List.zipWith (fun v a => 4.0 * (v - a) * (v - a) * (v - a)) x c))

/-- In each coordinate a well at one and a well at minus one. -/
def doubleWell : Objective R :=
  .ofFunctions
    (fun x => .ok (Vec.sum (x.map fun v => (v * v - 1.0) * (v * v - 1.0))))
    (fun x => .ok (x.map fun v => 4.0 * v * (v * v - 1.0)))

/-- A narrow valley along a parabola: each pair of neighbours adds one term. -/
def valleyValue : Vec R → R → R
  | p :: q :: rest, total =>
    let t := q - p * p
    let u := 1.0 - p
    valleyValue (q :: rest) (total + (100.0 * t * t + u * u))
  | _, total => total

/-- The gradient of the valley: `carried` is what the pair before adds to the first coordinate. -/
def valleyGradient (carried : R) : Vec R → Vec R
  | p :: q :: rest =>
    let t := q - p * p
    let u := 1.0 - p
    (carried + (-400.0 * p * t - 2.0 * u)) :: valleyGradient (0.0 + 200.0 * t) (q :: rest)
  | _ :: rest => carried :: rest
  | [] => []

/-- The curved valley. -/
def valley : Objective R :=
  .ofFunctions (fun x => .ok (valleyValue x 0.0)) (fun x => .ok (valleyGradient 0.0 x))

/-- The sum of the reciprocals of the distances from a pole. -/
def pole (c : R) : Objective R :=
  .ofFunctions (fun x => .ok (Vec.sum (x.map fun v => 1.0 / (v - c))))
    (fun x => .ok (x.map fun v => -1.0 / ((v - c) * (v - c))))

/-- A half space on one side of a value of the first coordinate. -/
structure Beyond (R : Type) where
  /-- The value. -/
  threshold : R
  /-- Whether the half space lies above it. -/
  above : Bool

/-- Whether a point lies in the half space. -/
def Beyond.holds (side : Beyond R) (x : Vec R) : Checked Bool :=
  match x with
  | first :: _ =>
    .ok (if side.above then decide (side.threshold < first) else decide (first < side.threshold))
  | [] => .error (.lengths 0 1)

/-- A linear form that takes one bad value throughout a half space. -/
def wall (c : Vec R) (side : Beyond R) (bad : R) : Objective R :=
  .ofFunctions (fun x => return if ← side.holds x then bad else Vec.inner c x) (fun _ => .ok c)

omit [Scalar R] in
/-- A vector with another last entry; there has to be one. -/
def replaceLast (v : Vec R) (entry : R) : Checked (Vec R) :=
  match v with
  | [] => .error (.lengths 0 1)
  | _ :: _ => .ok (v.dropLast ++ [entry])

/-- A linear form whose gradient has one bad entry, the last one, throughout a half space. -/
def gradientWall (c : Vec R) (side : Beyond R) (bad : R) : Objective R :=
  .ofFunctions (fun x => .ok (Vec.inner c x))
    (fun x => do if ← side.holds x then replaceLast c bad else return c)

end HopfieldDescent.Landscape

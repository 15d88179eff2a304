import HopfieldDescent.Scalar

/-!
# Double precision scalars

The instance on which the library runs: binary floating point of 64 bits, with the library
functions of the platform.
-/

namespace HopfieldDescent

namespace Double

/-- Length of the hypotenuse over two sides that are neither far apart nor of extreme size.  The
square root of the rounded sum of squares is corrected once, by what its square misses; the two
forms of the residue avoid differences of large squares. -/
def moderateHypot (longer shorter : Float) : Float :=
  let length := (longer * longer + shorter * shorter).sqrt
  let residue :=
    if length ≤ 2.0 * shorter then
      let excess := length - shorter
      longer * (2.0 * excess - longer) + (excess - 2.0 * (longer - shorter)) * excess
    else
      let excess := length - longer
      2.0 * excess * (longer - 2.0 * shorter) +
        ((4.0 * excess - shorter) * shorter + excess * excess)
  length - residue / (2.0 * length)

/-- Length of the hypotenuse.  A side that is tiny against the other only tips the rounding, and
sides of extreme size are scaled by a power of two, so that no square overflows or vanishes. -/
def hypot (a b : Float) : Float :=
  let a := a.abs
  let b := b.abs
  let longer := if a < b then b else a
  let shorter := if a < b then a else b
  if a.isInf || b.isInf then 1.0 / 0.0
  else if shorter ≤ longer.scaleB (-54) then longer + shorter
  else if Float.scaleB 1.0 511 < longer then
    (moderateHypot (longer.scaleB (-600)) (shorter.scaleB (-600))).scaleB 600
  else if shorter < Float.scaleB 1.0 (-459) then
    (moderateHypot (longer.scaleB 600) (shorter.scaleB 600)).scaleB (-600)
  else moderateHypot longer shorter

/-- Logarithm of one plus a value.  The sum loses digits of a small value; the ratio of the value to
what the sum really added makes up for them. -/
def logOnePlus (v : Float) : Float :=
  let sum := 1.0 + v
  if sum == 1.0 then v
  else if sum.isInf then sum.log
  else sum.log * (v / (sum - 1.0))

end Double

instance : Scalar Float where
  decidableLT := fun a b => Float.decLt a b
  decidableLE := fun a b => Float.decLe a b
  ofNat := Float.ofNat
  isNaN := Float.isNaN
  isFinite := Float.isFinite
  abs := Float.abs
  sqrt := Float.sqrt
  hypot := Double.hypot
  exp := Float.exp
  log := Float.log
  logOnePlus := Double.logOnePlus
  sin := Float.sin
  arcsin := Float.asin
  tan := Float.tan
  tanh := Float.tanh
  quarterPi := 0.785398163397448309615660845819875721
  logTwo := 0.693147180559945309417232121458176568

instance : UnboundedScalar Float where
  infinity := 1.0 / 0.0

end HopfieldDescent

/-!
# Scalars

Every numeric routine of the library is written once, over an arbitrary type of scalars.  The
class below supplies the operations and no laws: double precision arithmetic is one instance, and
the same definitions can be read over the exact reals.  Expressions keep the order and the grouping
in which they are written, because rounded arithmetic does not reassociate.

Comparison may be partial.  A scalar can be *not a number*, and then every comparison with it is
false; `maxNum` and `minNum` treat such an operand as missing, while `clamp` lets it through.
-/

namespace HopfieldDescent

/-- The operations of a real number type, without any law about them. -/
class Scalar (R : Type) extends Add R, Sub R, Mul R, Div R, Neg R, LT R, LE R, BEq R,
    OfScientific R where
  /-- Strict comparison can be decided. -/
  decidableLT : DecidableLT R
  /-- Weak comparison can be decided. -/
  decidableLE : DecidableLE R
  /-- The scalar nearest to a natural number. -/
  ofNat : Nat → R
  /-- Whether the value is not a number. -/
  isNaN : R → Bool
  /-- Whether the value is a number and not infinite. -/
  isFinite : R → Bool
  /-- Absolute value. -/
  abs : R → R
  /-- Square root. -/
  sqrt : R → R
  /-- Length of the hypotenuse over two sides, without overflow on the way. -/
  hypot : R → R → R
  /-- Exponential. -/
  exp : R → R
  /-- Natural logarithm. -/
  log : R → R
  /-- Natural logarithm of one plus the value, accurate for small values. -/
  logOnePlus : R → R
  /-- Sine. -/
  sin : R → R
  /-- Inverse sine. -/
  arcsin : R → R
  /-- Tangent. -/
  tan : R → R
  /-- Hyperbolic tangent. -/
  tanh : R → R
  /-- A quarter of the circle constant. -/
  quarterPi : R
  /-- The natural logarithm of two. -/
  logTwo : R

attribute [reducible, instance] Scalar.decidableLT Scalar.decidableLE

/-- Scalars with a value above all others, the starting point of a running minimum. -/
class UnboundedScalar (R : Type) extends Scalar R where
  /-- The value above all others. -/
  infinity : R

namespace Scalar

variable {R : Type} [Scalar R]

/-- The larger of two values; an operand that is not a number counts as missing. -/
def maxNum (a b : R) : R := if a < b then b else if isNaN a then b else a

/-- The smaller of two values; an operand that is not a number counts as missing. -/
def minNum (a b : R) : R := if b < a then b else if isNaN a then b else a

/-- The nearest value of the interval from `lo` to `hi`; a value that is not a number stays. -/
def clamp (lo hi v : R) : R := if v < lo then lo else if hi < v then hi else v

/-- One, minus one or zero, by the sign of the value. -/
def signum (v : R) : R := if 0.0 < v then 1.0 else if v < 0.0 then -1.0 else 0.0

/-- The value times itself. -/
def square (v : R) : R := v * v

/-- Whether a value is finite and above zero. -/
def isPositive (v : R) : Bool := isFinite v && decide (0.0 < v)

/-- Whether a value is finite and not below zero. -/
def isNonnegative (v : R) : Bool := isFinite v && decide (0.0 ≤ v)

/-- Whether a value lies in the closed unit interval. -/
def inUnitInterval (v : R) : Bool := decide (0.0 ≤ v) && decide (v ≤ 1.0)

end Scalar

end HopfieldDescent

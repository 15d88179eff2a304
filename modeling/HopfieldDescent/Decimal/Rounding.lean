/-!
# Exact decimal rounding of doubles

A finite double is a whole coefficient times a power of two, so its decimal digits can be found in
whole numbers alone.  This module takes a double apart and rounds a quotient of natural numbers to
the nearest whole number, a half going to the even neighbour.
-/

namespace HopfieldDescent.Decimal

/-- What a double stands for. -/
inductive DoubleValue where
  /-- Not a number. -/
  | notNumber
  /-- Beyond every finite value, on one side. -/
  | infinite (negative : Bool)
  /-- `coefficient` times two to the power `exponent`, with a sign that zero has too. -/
  | finite (negative : Bool) (coefficient : Nat) (exponent : Int)
deriving DecidableEq, Repr

/-- The sign, the eleven exponent bits and the fifty-two fraction bits of a double, read as the
value they encode. -/
def DoubleValue.ofBits (bits : Nat) : DoubleValue :=
  let negative := bits / Nat.pow 2 63 % 2 == 1
  let biased := bits / Nat.pow 2 52 % Nat.pow 2 11
  let fraction := bits % Nat.pow 2 52
  if biased = 2047 then
    if fraction = 0 then .infinite negative else .notNumber
  else if biased = 0 then .finite negative fraction (-1074)
  else .finite negative (Nat.pow 2 52 + fraction) (Int.ofNat biased - 1075)

/-- The value of a double. -/
def DoubleValue.of (v : Float) : DoubleValue := .ofBits v.toBits.toNat

/-- A nonnegative rational number, as a quotient of natural numbers. -/
structure Ratio where
  /-- Upper number. -/
  num : Nat
  /-- Lower number. -/
  den : Nat
deriving DecidableEq, Repr

namespace Ratio

/-- The ratio times `base` to a power of either sign. -/
def scale (r : Ratio) (base : Nat) (power : Int) : Ratio :=
  if 0 ≤ power then ⟨r.num * Nat.pow base power.toNat, r.den⟩
  else ⟨r.num, r.den * Nat.pow base (-power).toNat⟩

/-- A coefficient times a power of two. -/
def ofBinary (coefficient : Nat) (exponent : Int) : Ratio :=
  scale ⟨coefficient, 1⟩ 2 exponent

/-- The nearest whole number; halfway, the even one of the two neighbours. -/
def round (r : Ratio) : Nat :=
  let floor := r.num / r.den
  let twice := 2 * (r.num % r.den)
  if r.den < twice ∨ (twice = r.den ∧ floor % 2 = 1) then floor + 1 else floor

end Ratio

/-- Number of decimal digits of a natural number. -/
def digitCount (n : Nat) : Nat := (Nat.toDigits 10 n).length

/-- The exponent of the leading decimal digit of a ratio that is not zero: ten to this power is not
above the ratio, ten to the next one is. -/
def leadingExponent (r : Ratio) : Int :=
  let guess := Int.ofNat (digitCount r.num) - Int.ofNat (digitCount r.den)
  let atGuess := r.scale 10 (-guess)
  if atGuess.den ≤ atGuess.num then guess else guess - 1

end HopfieldDescent.Decimal

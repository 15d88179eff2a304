import HopfieldDescent.Decimal.Text

/-!
# Shortest positional text

The shortest decimal that reads back as the same double, written without an exponent.  The reals
that round to a double form an interval around it, whose ends belong to it when the coefficient is
even.  For growing digit counts the two decimals next to the value are tested against the interval;
the first count with a hit is the shortest, and of two hits the nearer one is written, or, at equal
distance, the one of larger size.
-/

namespace HopfieldDescent.Decimal

/-- Whether the decimal `n` times ten to the power `exponent` rounds to the double with the given
coefficient and binary exponent. -/
def readsBack (coefficient : Nat) (binaryExponent : Int) (n : Nat) (exponent : Int) : Bool :=
  -- Everything is measured in quarters of the coefficient's unit.
  let candidate := (Ratio.scale ⟨n, 1⟩ 10 exponent).scale 2 (2 - binaryExponent)
  let narrow := coefficient = Nat.pow 2 52 ∧ -1074 < binaryExponent
  let low := if narrow then 4 * coefficient - 1 else 4 * coefficient - 2
  let high := 4 * coefficient + 2
  if coefficient % 2 = 0 then
    decide (low * candidate.den ≤ candidate.num) && decide (candidate.num ≤ high * candidate.den)
  else
    decide (low * candidate.den < candidate.num) && decide (candidate.num < high * candidate.den)

/-- Digits and exponent of the shortest decimal with at least `digits` digits, of which at most
`budget` more are tried; seventeen always suffice. -/
def shortestFrom (coefficient : Nat) (binaryExponent : Int) :
    (budget digits : Nat) → Nat × Int
  | budget, digits =>
    let ratio := Ratio.ofBinary coefficient binaryExponent
    let exponent := leadingExponent ratio - Int.ofNat digits + 1
    let scaled := ratio.scale 10 (-exponent)
    let below := scaled.num / scaled.den
    let aboveIsNearer := decide (scaled.den ≤ 2 * (scaled.num % scaled.den))
    let nearest := if aboveIsNearer then below + 1 else below
    let other := if aboveIsNearer then below else below + 1
    if readsBack coefficient binaryExponent nearest exponent then (nearest, exponent)
    else if readsBack coefficient binaryExponent other exponent then (other, exponent)
    else match budget with
      | 0 => (nearest, exponent)
      | budget + 1 => shortestFrom coefficient binaryExponent budget (digits + 1)

/-- A whole number times a power of ten in positional notation. -/
def positional (n : Nat) (exponent : Int) : List Char :=
  if 0 ≤ exponent then Nat.toDigits 10 (n * Nat.pow 10 exponent.toNat)
  else
    let places := (-exponent).toNat
    let written := paddedDigits (places + 1) n
    let whole := written.take (written.length - places)
    let fraction := written.drop (written.length - places)
    let kept := (fraction.reverse.dropWhile (· == '0')).reverse
    if kept.isEmpty then whole else whole ++ '.' :: kept

/-- The shortest positional text of a double; a zero keeps its sign. -/
def shortest (v : Float) : String :=
  match DoubleValue.of v with
  | .notNumber => "NaN"
  | .infinite negative => String.ofList (signed negative "inf".toList)
  | .finite negative coefficient exponent =>
    if coefficient = 0 then String.ofList (signed negative ['0'])
    else
      let (n, power) := shortestFrom coefficient exponent 17 1
      String.ofList (signed negative (positional n power))

end HopfieldDescent.Decimal

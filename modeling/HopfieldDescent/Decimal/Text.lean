import HopfieldDescent.Decimal.Rounding

/-!
# Number texts

A `NumberFormat` says how a double is written: in scientific notation with a fixed number of
places, and, for formats that care about absolute rather than relative accuracy, in fixed notation
below a threshold.  Digits are those of the exact binary value, rounded once.
-/

namespace HopfieldDescent.Decimal

/-- How doubles are written. -/
structure NumberFormat where
  /-- Digits after the point in scientific notation. -/
  places : Nat
  /-- Values of smaller size are written in fixed notation. -/
  fixedBelow : Float
  /-- Digits after the point in fixed notation. -/
  fixedPlaces : Nat

/-- Directly computed values: nine significant digits. -/
def NumberFormat.direct : NumberFormat := ⟨8, 0.0, 0⟩

/-- Results of long iterations: seven significant digits, and nine places for small values. -/
def NumberFormat.iterated : NumberFormat := ⟨6, 0.0037, 9⟩

/-- The decimal digits of `n`, padded with zeros in front to at least `width` of them. -/
def paddedDigits (width n : Nat) : List Char :=
  let digits := Nat.toDigits 10 n
  List.replicate (width - digits.length) '0' ++ digits

/-- A sign in front of the digits of a negative value. -/
def signed (negative : Bool) (digits : List Char) : List Char :=
  if negative then '-' :: digits else digits

/-- One digit, a point, `places` digits and the exponent, for a ratio that is not zero.  Rounding
may carry into the next power of ten. -/
def scientific (places : Nat) (r : Ratio) : List Char :=
  let leading := leadingExponent r
  let rounded := (r.scale 10 (Int.ofNat places - leading)).round
  let (digits, exponent) :=
    if rounded = Nat.pow 10 (places + 1) then (Nat.pow 10 places, leading + 1)
    else (rounded, leading)
  let written := paddedDigits (places + 1) digits
  written.take 1 ++ '.' :: written.drop 1 ++ 'e' :: (toString exponent).toList

/-- Whole part, a point and `places` digits; nothing when all those digits are zero. -/
def fixed? (places : Nat) (r : Ratio) : Option (List Char) :=
  let rounded := (r.scale 10 places).round
  if rounded = 0 then none
  else some (Nat.toDigits 10 (rounded / Nat.pow 10 places) ++
    '.' :: paddedDigits places (rounded % Nat.pow 10 places))

/-- The text of a double. Both zeros, and every value that rounds to zero, are written alike. -/
def NumberFormat.write (format : NumberFormat) (v : Float) : String :=
  match DoubleValue.of v with
  | .notNumber => "NaN"
  | .infinite negative => String.ofList (signed negative "inf".toList)
  | .finite negative coefficient exponent =>
    if coefficient = 0 then "0"
    else
      let ratio := Ratio.ofBinary coefficient exponent
      if v.abs < format.fixedBelow then
        match fixed? format.fixedPlaces ratio with
        | some digits => String.ofList (signed negative digits)
        | none => "0"
      else String.ofList (signed negative (scientific format.places ratio))

end HopfieldDescent.Decimal

import HopfieldDescent.Breach
import HopfieldDescent.Scalar

/-!
# Vectors

A vector is a list of scalars.  Operations on two vectors come in three kinds, by how strict they
are about lengths:

* `zipExact` pairs entries and asks for equal lengths;
* `zipOnto` updates its left operand, and a right operand of one entry is repeated to fit;
* `zipSpread` combines two vectors, and either one of them, if it has one entry, is repeated.

`inner` is the plain sum of products, added from the first entry on; `dot` is the same behind a
check of the lengths.
-/

namespace HopfieldDescent

/-- A vector of scalars. -/
abbrev Vec (R : Type) := List R

namespace Vec

section Pairing

variable {α β γ : Type}

/-- Combines the entries of two vectors of one length. -/
def zipExact (f : α → β → γ) (v : List α) (w : List β) : Checked (List γ) := do
  Breach.sameLength v.length w.length
  return List.zipWith f v w

/-- Combines each entry of `v` with its partner in `w`; a single entry of `w` is everyone's
partner. -/
def zipOnto (f : α → β → γ) (v : List α) (w : List β) : Checked (List γ) :=
  if v.length = w.length then .ok (List.zipWith f v w)
  else match w with
    | [b] => .ok (v.map fun a => f a b)
    | _ => .error (.lengths v.length w.length)

/-- Combines the entries of two vectors; a single entry on either side is everyone's partner. -/
def zipSpread (f : α → β → γ) (v : List α) (w : List β) : Checked (List γ) :=
  if v.length = w.length then .ok (List.zipWith f v w)
  else match v, w with
    | [a], w => .ok (w.map fun b => f a b)
    | v, [b] => .ok (v.map fun a => f a b)
    | v, w => .error (.lengths v.length w.length)

/-- Combines the entries of three vectors of one length. -/
def zipExact3 {δ : Type} (f : α → β → γ → δ) (u : List α) (v : List β) (w : List γ) :
    Checked (List δ) := do
  let pairs ← zipExact Prod.mk v w
  zipExact (fun a (b, c) => f a b c) u pairs

/-- Combines the entries of four vectors of one length. -/
def zipExact4 {δ ε : Type} (f : α → β → γ → δ → ε) (t : List α) (u : List β) (v : List γ)
    (w : List δ) : Checked (List ε) := do
  let triples ← zipExact3 (fun b c d => (b, c, d)) u v w
  zipExact (fun a (b, c, d) => f a b c d) t triples

end Pairing

variable {R : Type} [Scalar R]

/-- The vector of `n` zeros. -/
def zeros (n : Nat) : Vec R := List.replicate n 0.0

/-- Entrywise sum. -/
def add (v w : Vec R) : Checked (Vec R) := zipSpread (· + ·) v w

/-- Entrywise difference. -/
def sub (v w : Vec R) : Checked (Vec R) := zipSpread (· - ·) v w

/-- Entrywise product. -/
def mul (v w : Vec R) : Checked (Vec R) := zipSpread (· * ·) v w

/-- Every entry times `a`. -/
def scale (v : Vec R) (a : R) : Vec R := v.map (· * a)

/-- Every entry with its sign changed. -/
def neg (v : Vec R) : Vec R := v.map fun a => -a

/-- Moves `v` by `w`, without changing the length of `v`. -/
def shift (v w : Vec R) : Checked (Vec R) := zipOnto (· + ·) v w

/-- Moves `v` by `a` times `w`, without changing the length of `v`. -/
def shiftScaled (v : Vec R) (a : R) (w : Vec R) : Checked (Vec R) :=
  zipOnto (fun x y => x + a * y) v w

/-- The entries added up from the first one on. -/
def sum (v : Vec R) : R := v.foldl (· + ·) 0.0

/-- The products of partners added up from the first one on. -/
def inner (v w : Vec R) : R := sum (List.zipWith (· * ·) v w)

/-- The inner product of two vectors of one length. -/
def dot (v w : Vec R) : Checked R := do
  Breach.sameLength v.length w.length
  return inner v w

/-- Euclidean length. -/
def norm (v : Vec R) : R := Scalar.sqrt (inner v v)

/-- The vector of length one in the same direction; a vector of length zero stays as it is. -/
def normalize (v : Vec R) : Vec R :=
  let length := norm v
  if length == 0.0 then v else v.map (· / length)

/-- The largest entry, and zero when every entry is below zero or there is none. -/
def peak (v : Vec R) : R := v.foldl Scalar.maxNum 0.0

/-- Whether every entry is equal to zero. -/
def isZero (v : Vec R) : Bool := v.all (· == 0.0)

/-- Whether every entry is finite. -/
def isFinite (v : Vec R) : Bool := v.all Scalar.isFinite

/-- Whether each entry lies strictly between its bounds, as far as all three vectors reach. -/
def strictlyInside (lower upper v : Vec R) : Bool :=
  (List.zip v (List.zip lower upper)).all fun (x, l, u) => decide (l < x) && decide (x < u)

end Vec

end HopfieldDescent

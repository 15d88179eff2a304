import HopfieldDescent.Squashing

/-!
# Squashing into a box

A squashing function of the unit interval is carried over to an interval between two bounds by the
affine map that takes the bounds to zero and one.  A `BoxMap` does so in every coordinate, and thus
takes hidden states to points of a box and back.
-/

namespace HopfieldDescent

/-- A squashing function together with the box and the gains it is used with. -/
structure BoxMap (R : Type) where
  /-- The function on the unit interval. -/
  squashing : Squashing R
  /-- Lower bounds of the box. -/
  lower : Vec R
  /-- Upper bounds of the box. -/
  upper : Vec R
  /-- The gain of each coordinate. -/
  gain : Vec R

namespace BoxMap

variable {R : Type} [Scalar R]

/-- Where `v` lies between two bounds, the lower one being zero and the upper one being one. -/
def normalized (lower upper v : R) : R := (v - lower) / (upper - lower)

/-- A function of the unit interval carried over to the interval between two bounds. -/
def lifted (f : R → R → R) (v lower upper gain : R) : R :=
  lower + (upper - lower) * f (normalized lower upper v) gain

/-- The point of the box that belongs to a hidden state. -/
def activate (map : BoxMap R) (hidden : Vec R) : Checked (Vec R) :=
  Vec.zipExact4 (lifted map.squashing.activate) hidden map.lower map.upper map.gain

/-- The hidden state that belongs to a point of the box. -/
def inverse (map : BoxMap R) (x : Vec R) : Checked (Vec R) :=
  Vec.zipExact4 (lifted map.squashing.inverse) x map.lower map.upper map.gain

/-- The proxy distance in each coordinate of a point of the box. -/
def proxyDistance (map : BoxMap R) (x : Vec R) : Checked (Vec R) :=
  Vec.zipExact4 (fun x l u gain => map.squashing.proxy (normalized l u x) gain)
    x map.lower map.upper map.gain

end BoxMap

end HopfieldDescent

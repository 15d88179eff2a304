import HopfieldDescent.Vec

/-!
# Random numbers

A random source is a state from which uniform numbers of the half-open unit interval are drawn one
after the other.  The algorithms take the source as a parameter and hand its state on, so the order
of their draws is part of their definition.
-/

namespace HopfieldDescent

/-- A state from which random scalars are drawn. -/
class RandomSource (G : Type) (R : outParam Type) where
  /-- The state that belongs to a seed. -/
  ofSeed : UInt64 → G
  /-- The next number, and the state after it. -/
  next : G → R × G

namespace RandomSource

variable {G R : Type} [RandomSource G R]

/-- The next `n` numbers in the order of their draws, and the state after them. -/
def draws : (n : Nat) → G → Vec R × G
  | 0, source => ([], source)
  | n + 1, source =>
    let (first, source) := next source
    let (others, source) := draws n source
    (first :: others, source)

/-- As many numbers are drawn as were asked for. -/
theorem length_draws (n : Nat) (source : G) : (draws n source).1.length = n := by
  induction n generalizing source with
  | zero => rfl
  | succ n ih => simp [draws, ih]

/-- A random point of a box, one draw for each coordinate. -/
def pointOfBox [Scalar R] (lower upper : Vec R) (source : G) : Checked (Vec R × G) := do
  let (shares, source) := draws lower.length source
  let point ← Vec.zipExact3 (fun l u share => l + (u - l) * share) lower upper shares
  return (point, source)

end RandomSource

end HopfieldDescent

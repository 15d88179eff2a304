import HopfieldDescent.Vec

/-!
# Objectives

What is minimised: a function with its gradient.  The gradient is never found by differences, so it
has to be exact.  An objective that knows the Lipschitz constant of its gradient says so.
-/

namespace HopfieldDescent

/-- A function on vectors with its gradient. -/
structure Objective (R : Type) where
  /-- The function. -/
  value : Vec R → Checked R
  /-- Its gradient. -/
  gradient : Vec R → Checked (Vec R)
  /-- A Lipschitz constant of the gradient, if one is known. -/
  smoothness : Checked (Option R)

/-- An objective from a function and its gradient alone. -/
def Objective.ofFunctions {R : Type} (value : Vec R → Checked R)
    (gradient : Vec R → Checked (Vec R)) : Objective R :=
  ⟨value, gradient, .ok none⟩

end HopfieldDescent

import Mathlib
import HopfieldDescent.Objective.Landscape
import HopfieldDescent.Objective.Quadratic
import HopfieldDescent.Proofs.DenseMatrix.Total

/-!
# Objectives that return

What the algorithms ask of an objective in `n` variables is that it returns at every point with `n`
coordinates, and that the gradient has `n` entries as well.  Linear forms are of this kind.  The
forms of a quadratic objective fit each other by construction (`Quadratic.size_of_ofForms`).
-/

open HopfieldDescent.Outcome (Returns)

namespace HopfieldDescent

variable {R : Type} {n : ℕ}

/-- At points with `n` coordinates the objective has a value, and a gradient of their length. -/
structure Objective.ReturnsOn (objective : Objective R) (n : ℕ) : Prop where
  /-- The value. -/
  value : ∀ x : Vec R, x.length = n → Returns (objective.value x) fun _ => True
  /-- The gradient. -/
  gradient : ∀ x : Vec R, x.length = n →
    Returns (objective.gradient x) fun gradient => gradient.length = n
  /-- What is known of the Lipschitz constant. -/
  smoothness : Returns objective.smoothness fun _ => True

variable [Scalar R]

/-- A linear form returns on its variables. -/
lemma Landscape.returnsOn_linear (c : Vec R) : (linear c).ReturnsOn c.length :=
  ⟨fun _ _ => .ok trivial, fun _ _ => .ok rfl, .ok trivial⟩

namespace Quadratic

variable {f : Quadratic R} {matrix : DenseMatrix R} {linear : Vec R}

/-- The forms of an objective belong to the same variables. -/
lemma size_of_ofForms (h : ofForms matrix linear = .ok f) :
    f.matrix.height = f.dimension ∧ f.matrix.width = f.dimension := by
  unfold ofForms at h
  split_ifs at h with hsquare hlinear hsymmetric
  · obtain rfl := Except.ok.inj h
    exact ⟨hlinear.symm, hsquare.symm.trans hlinear.symm⟩
  · obtain rfl := Except.ok.inj h
    have htranspose : matrix.transpose.rows.length = matrix.width := matrix.height_transpose
    have hrows : matrix.rows.length = matrix.height := rfl
    refine ⟨?_, hsquare.symm.trans hlinear.symm⟩
    simp only [dimension, DenseMatrix.height, DenseMatrix.symmetrize, List.length_zipWith,
      htranspose]
    omega

end Quadratic

end HopfieldDescent

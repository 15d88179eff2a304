import HopfieldDescent.DenseMatrix.Spectral
import HopfieldDescent.Objective

/-!
# Quadratic objectives

Half a quadratic form plus a linear one.  The matrix is replaced by the mean of itself and its
transpose unless the two agree; the form stays the same, and the gradient becomes a single product.
-/

namespace HopfieldDescent

/-- Half the quadratic form of `matrix` plus the linear form of `linear`. -/
structure Quadratic (R : Type) where
  /-- The matrix of the quadratic form. -/
  matrix : DenseMatrix R
  /-- The coefficients of the linear form. -/
  linear : Vec R

/-- Why a matrix and a vector make no quadratic objective. -/
inductive QuadraticError where
  /-- The matrix is not square. -/
  | notSquare (rows columns : Nat)
  /-- The linear form has another number of variables than the matrix. -/
  | linearTerm (entries size : Nat)
deriving DecidableEq, Repr

/-- The text shown for a refusal. -/
def QuadraticError.message : QuadraticError → String
  | .notSquare rows columns => s!"H must be square, got {rows}x{columns}"
  | .linearTerm entries size => s!"q has {entries} entries but H is {size}x{size}"

namespace Quadratic

variable {R : Type} [Scalar R]

/-- The objective of a matrix, symmetric or not, and a linear form. -/
def ofForms (matrix : DenseMatrix R) (linear : Vec R) : Except QuadraticError (Quadratic R) :=
  if square : matrix.height = matrix.width then
    if linear.length = matrix.height then
      .ok ⟨if matrix.isSymmetric then matrix else matrix.symmetrize square, linear⟩
    else .error (.linearTerm linear.length matrix.height)
  else .error (.notSquare matrix.height matrix.width)

omit [Scalar R] in
/-- Number of variables. -/
def dimension (f : Quadratic R) : Nat := f.linear.length

/-- Half the quadratic form plus the linear form. -/
def value (f : Quadratic R) (x : Vec R) : Checked R := do
  let image ← f.matrix.mulVec x
  return 0.5 * (← Vec.dot x image) + (← Vec.dot f.linear x)

/-- The matrix times the point, plus the linear coefficients. -/
def gradient (f : Quadratic R) (x : Vec R) : Checked (Vec R) := do
  Vec.add (← f.matrix.mulVec x) f.linear

/-- The operator norm of the matrix, which is the Lipschitz constant of the gradient. -/
def smoothness (f : Quadratic R) : Checked R := f.matrix.spectralRadius

/-- The objective, with the Lipschitz constant of its gradient. -/
def toObjective (f : Quadratic R) : Objective R :=
  ⟨f.value, f.gradient, some <$> f.smoothness⟩

end Quadratic

end HopfieldDescent

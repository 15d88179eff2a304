import HopfieldDescent.DenseMatrix.Spectral

/-!
# Blocks of linear constraints

A matrix and a right-hand side.  Whether the rows are equations or inequalities is up to whoever
uses the block; the block itself only measures by how much a point misses the right-hand side.
-/

namespace HopfieldDescent

/-- Rows of coefficients with a right-hand side for each. -/
structure ConstraintBlock (R : Type) where
  /-- The coefficients. -/
  matrix : DenseMatrix R
  /-- The right-hand side. -/
  rhs : Vec R

/-- Why coefficients make no block, or a block does not suit a problem. -/
inductive ConstraintError where
  /-- Rows and right-hand sides differ in number. -/
  | rowMismatch (rows rhs : Nat)
  /-- There is no row. -/
  | empty
  /-- Some coefficient or right-hand side is not finite. -/
  | nonFinite
  /-- The rows have another number of coefficients than the problem has variables. -/
  | columnMismatch (columns dimension : Nat)
deriving DecidableEq, Repr

/-- The text shown for a refusal. -/
def ConstraintError.message : ConstraintError → String
  | .rowMismatch rows rhs =>
    s!"constraint matrix has {rows} rows but right-hand side has {rhs} entries"
  | .empty => "constraint block has no rows"
  | .nonFinite => "constraint coefficients must be finite"
  | .columnMismatch columns dimension =>
    s!"constraint matrix has {columns} columns but the problem has {dimension} variables"

namespace ConstraintBlock

variable {R : Type} [Scalar R]

/-- The block of a matrix and a right-hand side. -/
def ofSystem (matrix : DenseMatrix R) (rhs : Vec R) :
    Except ConstraintError (ConstraintBlock R) :=
  if matrix.height ≠ rhs.length then .error (.rowMismatch matrix.height rhs.length)
  else if matrix.height = 0 then .error .empty
  else if !(Vec.isFinite matrix.entries && Vec.isFinite rhs) then .error .nonFinite
  else .ok ⟨matrix, rhs⟩

omit [Scalar R] in
/-- Number of constraints. -/
def height (block : ConstraintBlock R) : Nat := block.matrix.height

omit [Scalar R] in
/-- Number of variables. -/
def width (block : ConstraintBlock R) : Nat := block.matrix.width

omit [Scalar R] in
/-- Refuses a block for another number of variables. -/
def checkColumns (block : ConstraintBlock R) (dimension : Nat) : Except ConstraintError Unit :=
  if block.width = dimension then .ok () else .error (.columnMismatch block.width dimension)

/-- The matrix times the point, less the right-hand side. -/
def residual (block : ConstraintBlock R) (x : Vec R) : Checked (Vec R) := do
  Vec.sub (← block.matrix.mulVec x) block.rhs

/-- The transposed matrix times a vector with one entry for each constraint. -/
def transposeMul (block : ConstraintBlock R) (y : Vec R) : Checked (Vec R) :=
  block.matrix.transpose.mulVec y

/-- Estimate of the squared operator norm of the matrix. -/
def gramSpectralRadius (block : ConstraintBlock R) : Checked R := block.matrix.gramSpectralRadius

end ConstraintBlock

end HopfieldDescent

import Mathlib
import HopfieldDescent.Proofs.DenseMatrix.PowerIteration

/-!
# The symmetric part of a matrix

`DenseMatrix.toSquare` reads a list of rows as a square matrix of a given size, so that a matrix and
its transpose are matrices of one type.  A matrix that passes for symmetric is, and the mean of a
square matrix and its transpose is the symmetric part.  A quadratic form sees nothing else of its
matrix.
-/

open scoped Matrix

namespace HopfieldDescent

variable {n : ℕ}

namespace DenseMatrix

variable {a : DenseMatrix ℝ}

/-- The square matrix with the given rows, of which `n` columns are taken. -/
def toSquare (a : DenseMatrix ℝ) (n : ℕ) : Matrix (Fin n) (Fin n) ℝ :=
  Matrix.of fun i => Vec.coords n (a.rows[(i : ℕ)]?.getD [])

/-- A square list of rows has the products of its matrix. -/
lemma represents_toSquare (hheight : a.height = n) (hwidth : a.width = n) :
    a.Represents (a.toSquare n) := by
  subst hheight
  have hsame : a.toSquare a.height = a.toMatrix a.height := by
    ext i j
    have hrow : a.rows[(i : ℕ)]? = some a.rows[i] := List.getElem?_eq_getElem i.isLt
    simp [toSquare, toMatrix, hrow]
  rw [hsame]
  exact represents_toMatrix hwidth

/-- The transposed list of rows is the transposed matrix. -/
lemma toSquare_transpose (hheight : a.height = n) (hwidth : a.width = n) :
    a.transpose.toSquare n = (a.toSquare n)ᵀ := by
  ext j i
  have hcolumn : a.transpose.rows[(j : ℕ)]? = some (a.rows.map fun row => row[(j : ℕ)]?.getD 0) :=
    getElem?_columns a.length_of_mem (hwidth ▸ j.isLt)
  have hi : (i : ℕ) < a.rows.length := hheight.symm ▸ i.isLt
  simp [toSquare, Vec.coords, hcolumn, List.getElem?_eq_getElem hi]

/-- A matrix that passes for symmetric is symmetric. -/
lemma isSymm_toSquare (hheight : a.height = n) (hwidth : a.width = n)
    (h : a.isSymmetric = true) : (a.toSquare n).IsSymm := by
  have hrows : a.rows = a.transpose.rows := eq_of_beq h
  rw [Matrix.IsSymm, ← toSquare_transpose hheight hwidth, toSquare, ← hrows]
  rfl

/-- The mean of a matrix and its transpose. -/
lemma toSquare_symmetrize (square : a.height = a.width) (hheight : a.height = n) :
    (a.symmetrize square).toSquare n = (1 / 2 : ℝ) • (a.toSquare n + (a.toSquare n)ᵀ) := by
  have hwidth : a.width = n := square.symm.trans hheight
  rw [← toSquare_transpose hheight hwidth]
  ext i j
  have hi : (i : ℕ) < a.rows.length := hheight.symm ▸ i.isLt
  have hi' : (i : ℕ) < a.transpose.rows.length := by
    rw [show a.transpose.rows.length = a.width from a.height_transpose, hwidth]
    exact i.isLt
  have hrow := List.getElem?_eq_getElem hi
  have hcolumn := List.getElem?_eq_getElem hi'
  have hlength : a.rows[(i : ℕ)].length = n :=
    (a.length_of_mem _ (List.getElem_mem hi)).trans hwidth
  have hlength' : a.transpose.rows[(i : ℕ)].length = n :=
    (a.transpose.length_of_mem _ (List.getElem_mem hi')).trans hheight
  have hmean : (a.symmetrize square).rows[(i : ℕ)]? =
      some (List.zipWith (fun p q => 0.5 * (p + q)) a.rows[(i : ℕ)] a.transpose.rows[(i : ℕ)]) := by
    simp only [symmetrize, List.getElem?_zipWith, hrow, hcolumn]
  simp only [toSquare, Matrix.of_apply, hmean, hrow, hcolumn, Option.getD_some,
    Vec.coords_zipWith hlength hlength', Matrix.smul_apply, Matrix.add_apply, smul_eq_mul,
    Scalar.literal_half]

end DenseMatrix

/-! ## Quadratic forms -/

variable {A : Matrix (Fin n) (Fin n) ℝ}

/-- The mean of a matrix and its transpose is symmetric. -/
lemma isSymm_mean (A : Matrix (Fin n) (Fin n) ℝ) : ((1 / 2 : ℝ) • (A + Aᵀ)).IsSymm := by
  rw [Matrix.IsSymm, Matrix.transpose_smul, Matrix.transpose_add, Matrix.transpose_transpose,
    add_comm]

/-- A quadratic form is that of the mean of its matrix and the transpose. -/
lemma dotProduct_mean_mulVec (A : Matrix (Fin n) (Fin n) ℝ) (v : Fin n → ℝ) :
    v ⬝ᵥ ((1 / 2 : ℝ) • (A + Aᵀ)) *ᵥ v = v ⬝ᵥ A *ᵥ v := by
  have htranspose : v ⬝ᵥ Aᵀ *ᵥ v = v ⬝ᵥ A *ᵥ v := by
    rw [Matrix.mulVec_transpose, dotProduct_comm, ← Matrix.dotProduct_mulVec]
  rw [Matrix.smul_mulVec, Matrix.add_mulVec, dotProduct_smul, dotProduct_add, htranspose,
    smul_eq_mul]
  ring

/-- A quadratic form of a symmetric matrix at a sum of two vectors. -/
lemma dotProduct_mulVec_add (hA : A.IsSymm) (v w : Fin n → ℝ) :
    (v + w) ⬝ᵥ A *ᵥ (v + w) = v ⬝ᵥ A *ᵥ v + 2 * (A *ᵥ v ⬝ᵥ w) + w ⬝ᵥ A *ᵥ w := by
  have hmixed : v ⬝ᵥ A *ᵥ w = A *ᵥ v ⬝ᵥ w := dotProduct_mulVec_comm hA v w
  rw [Matrix.mulVec_add, add_dotProduct, dotProduct_add, dotProduct_add, hmixed,
    dotProduct_comm w (A *ᵥ v)]
  ring

end HopfieldDescent

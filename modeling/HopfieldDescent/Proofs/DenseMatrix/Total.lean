import Mathlib
import HopfieldDescent.DenseMatrix.Spectral
import HopfieldDescent.Proofs.Vec.Pairing

/-!
# Matrices that fit their vectors

A product returns when the vector has an entry for each column, and has an entry for each row.  A
power iteration multiplies by a square matrix again and again, so that every product fits the next
one; hence the estimate of a spectral radius always returns.
-/

open HopfieldDescent.Outcome (Returns)

namespace HopfieldDescent.DenseMatrix

variable {R : Type} [Scalar R] {a : DenseMatrix R} {v : Vec R}

/-- A matrix multiplies a vector that has an entry for each column. -/
lemma returns_mulVec (hv : v.length = a.width) :
    Returns (a.mulVec v) fun w => w.length = a.height :=
  ⟨_, Outcome.bind_eq_ok.2 ⟨(), Breach.sameLength_eq_ok.2 hv.symm, rfl⟩, List.length_map _⟩

omit [Scalar R] in
/-- The transposed matrix has a row for each column. -/
lemma height_transpose (a : DenseMatrix R) : a.transpose.height = a.width :=
  length_columns a.width a.rows a.length_of_mem

/-- The transposed matrix multiplies a vector that has an entry for each row. -/
lemma returns_transpose_mulVec (hv : v.length = a.height) :
    Returns (a.transpose.mulVec v) fun w => w.length = a.width :=
  (returns_mulVec hv).imp fun _ hw => hw.trans a.height_transpose

/-- A power iteration of a square matrix returns. -/
lemma returns_powerIteration (hsquare : a.height = a.width) (rounds : ℕ) (estimate : R)
    (hv : v.length = a.width) : Returns (a.powerIteration rounds v estimate) fun _ => True := by
  induction rounds generalizing v estimate with
  | zero => exact .ok trivial
  | succ rounds ih =>
    rw [powerIteration]
    refine (returns_mulVec hv).bind fun product hproduct => ?_
    dsimp only
    split_ifs
    · exact .ok trivial
    · exact .ok trivial
    · exact ih _ (by rw [List.length_map, hproduct, hsquare])

/-- Every vector from which power iteration starts has the size of the matrix. -/
lemma length_of_mem_powerStarts {n : ℕ} (hv : v ∈ powerStarts n) : v.length = n := by
  obtain ⟨w, hw, rfl⟩ := List.mem_map.1 hv
  rw [Vec.length_normalize]
  rcases List.mem_cons.1 hw with rfl | hw
  · simp [unevenVector]
  · obtain ⟨k, -, rfl⟩ := List.mem_map.1 hw
    simp [basisVector]

/-- The estimate of a spectral radius of a square matrix returns. -/
lemma returns_spectralRadius (hsquare : a.height = a.width) :
    Returns a.spectralRadius fun _ => True := by
  unfold spectralRadius
  split_ifs
  · exact .ok trivial
  · refine (Returns.mapM fun start hstart => ?_).bind fun _ _ => .ok trivial
    exact returns_powerIteration hsquare _ _ ((length_of_mem_powerStarts hstart).trans hsquare)

/-- The estimate of a squared operator norm returns. -/
lemma returns_gramSpectralRadius (a : DenseMatrix R) :
    Returns a.gramSpectralRadius fun _ => True :=
  returns_spectralRadius (List.length_map _)

end HopfieldDescent.DenseMatrix

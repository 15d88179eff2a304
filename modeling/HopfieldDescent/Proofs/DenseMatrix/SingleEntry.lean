import Mathlib
import HopfieldDescent.Lagrangian
import HopfieldDescent.Proofs.DenseMatrix.Matrix

/-!
# Matrices of a single entry

The Gram matrix of a single entry is its square, and a power iteration settles on it at the second
product.  The estimated radius is therefore exact.  As a constraint, a single entry adds a quadratic
polynomial to the Lagrangian.
-/

open scoped Matrix

namespace HopfieldDescent

namespace DenseMatrix

variable {a : ℝ}

/-- A repeated estimate is within the tolerance, and the first one is not. -/
lemma powerTolerance_mem_Ico : (powerTolerance : ℝ) ∈ Set.Ico 0 1 := by
  unfold powerTolerance
  norm_num

/-- A power iteration on a single positive entry settles on it. -/
lemma powerIteration_ofRow (ha : 0 < a) (rounds : ℕ) :
    (ofRow [a]).powerIteration (rounds + 2) [1] 0 = .ok a := by
  obtain ⟨htolerance, htolerance'⟩ := powerTolerance_mem_Ico
  have hmulVec : (ofRow [a]).mulVec [1] = .ok [a] := by
    simp [mulVec, ofRow, Breach.sameLength, Vec.inner, Vec.sum]
  have hnorm : Vec.norm [a] = a := by
    simp [Vec.norm, Vec.inner, Vec.sum, ha.le]
  have hzero : (a == 0.0) = false := by simpa using ha.ne'
  have hfirst : ¬|a - 0| ≤ powerTolerance * a := by
    rw [sub_zero, abs_of_pos ha, not_le]
    exact mul_lt_of_lt_one_left ha htolerance'
  have hsecond : |a - a| ≤ powerTolerance * a := by
    rw [sub_self, abs_zero]
    exact mul_nonneg htolerance ha.le
  simp only [powerIteration, hmulVec, hnorm, hzero, Outcome.ok_bind, Scalar.abs_real,
    if_neg hfirst, if_pos hsecond, List.map_cons, List.map_nil, div_self ha.ne',
    Bool.false_eq_true, if_false]
  rfl

/-- The estimated radius of a single entry is its square. -/
lemma gramSpectralRadius_ofRow (ha : a ≠ 0) : (ofRow [a]).gramSpectralRadius = .ok (a ^ 2) := by
  have hpos : 0 < a ^ 2 := by positivity
  have hgram : (ofRow [a]).gram = ofRow [a ^ 2] := by
    simp [gram, ofRow, transpose, columns, Vec.inner, Vec.sum, sq]
  have hstarts : (powerStarts 1 : List (Vec ℝ)) = [[1], [1]] := by
    simp [powerStarts, unevenVector, basisVector, Vec.normalize, Vec.norm, Vec.inner, Vec.sum]
  have hheight : (ofRow [a ^ 2]).height = 1 := rfl
  simp only [gramSpectralRadius, spectralRadius, hgram, hheight, hstarts, List.mapM_cons,
    List.mapM_nil, powerRounds, Scalar.literal_zero, powerIteration_ofRow hpos 998,
    Outcome.ok_bind]
  simp [Vec.peak, hpos.le]
  rfl

end DenseMatrix

/-- The Gram matrix of a single entry has its square as the only eigenvalue. -/
lemma isGreatest_spectrum_gram {M : Matrix (Fin 1) (Fin 1) ℝ} :
    IsGreatest (spectrum ℝ (Mᵀ * M)) (M 0 0 ^ 2) := by
  have hgram : Mᵀ * M = algebraMap ℝ (Matrix (Fin 1) (Fin 1) ℝ) (M 0 0 ^ 2) := by
    ext i j
    obtain rfl := Subsingleton.elim i 0
    obtain rfl := Subsingleton.elim j 0
    simp [Matrix.mul_apply, Matrix.algebraMap_eq_diagonal, sq]
  rw [hgram, spectrum.scalar_eq]
  exact isGreatest_singleton

/-- The estimated radius of a single entry is exact. -/
lemma ConstraintBlock.exactRadius_ofRow {a : ℝ} (ha : a ≠ 0) (rhs : Vec ℝ) :
    ExactRadius ⟨.ofRow [a], rhs⟩ gramSpectralRadius := by
  intro r hr
  obtain rfl := Except.ok.inj ((DenseMatrix.gramSpectralRadius_ofRow ha).symm.trans hr)
  exact isGreatest_spectrum_gram

/-- The largest eigenvalue of a single entry is its square. -/
lemma ConstraintBlock.largestEigenvalue_ofRow (a : ℝ) (rhs : Vec ℝ) :
    largestEigenvalue ⟨.ofRow [a], rhs⟩ = .ok (a ^ 2) :=
  congrArg Except.ok isGreatest_spectrum_gram.csSup_eq

/-! ## A single entry as a constraint -/

variable {a b : ℝ}

/-- The residual of a single row. -/
@[simp] lemma ConstraintBlock.residual_ofRow (x : ℝ) :
    residual ⟨.ofRow [a], [b]⟩ [x] = .ok [a * x - b] := by
  simp [residual, DenseMatrix.mulVec, DenseMatrix.ofRow, Breach.sameLength, Vec.inner, Vec.sum,
    Vec.sub, Vec.zipSpread, Outcome.ok_bind]

/-- A single row pulls in proportion to its entry. -/
@[simp] lemma ConstraintBlock.transposeMul_ofRow (rhs : Vec ℝ) (m : ℝ) :
    transposeMul ⟨.ofRow [a], rhs⟩ [m] = .ok [a * m] := by
  simp [transposeMul, DenseMatrix.mulVec, DenseMatrix.ofRow, DenseMatrix.transpose,
    DenseMatrix.columns, DenseMatrix.height, Breach.sameLength, Vec.inner, Vec.sum]

namespace PenalizedBlock

/-- The residual of a single row, measured from the slack. -/
@[simp] lemma slackResidual_ofRow (dual : Vec ℝ) (penalty x s : ℝ) :
    slackResidual ⟨⟨.ofRow [a], [b]⟩, dual, penalty⟩ [x] [s] = .ok [a * x - b - s] := by
  simp [slackResidual, Vec.sub, Vec.zipSpread, Outcome.ok_bind]

/-- What a single row adds to the Lagrangian. -/
@[simp] lemma value_singleton (block : ConstraintBlock ℝ) (dual penalty r : ℝ) :
    value ⟨block, [dual], penalty⟩ [r] = .ok (dual * r + penalty / 2 * r ^ 2) := by
  simp [value, Vec.dot, Breach.sameLength, Vec.inner, Vec.sum]
  ring

/-- The derivative of that. -/
@[simp] lemma multiplier_singleton (block : ConstraintBlock ℝ) (dual penalty r : ℝ) :
    multiplier ⟨block, [dual], penalty⟩ [r] = .ok [dual + r * penalty] := by
  simp [multiplier, Vec.add, Vec.scale, Vec.zipSpread]

end PenalizedBlock

end HopfieldDescent

import Mathlib
import HopfieldDescent.Proofs.Vec.Spread

/-!
# Products with a symmetric matrix

A symmetric matrix has a dominant eigenvector: a unit vector that the matrix scales by its operator
norm, up to the sign.

Multiplying a unit vector and scaling the product back to length one never makes the share along the
dominant eigenvector smaller, and never makes the next product shorter.  When the next product is
hardly longer, the square of the matrix hardly turns the vector, and the length of the product tells
the operator norm, the better the larger the share along the dominant eigenvector is
(`sq_le_of_settled`).
-/

open scoped Matrix Matrix.Norms.L2Operator

namespace HopfieldDescent

variable {n : ℕ} {A : Matrix (Fin n) (Fin n) ℝ} {u v p : Fin n → ℝ}

/-! ## Operator norms -/

/-- A symmetric matrix can be moved to the other side of a product. -/
lemma dotProduct_mulVec_comm (hA : A.IsSymm) (v w : Fin n → ℝ) :
    v ⬝ᵥ A *ᵥ w = A *ᵥ v ⬝ᵥ w := by
  rw [Matrix.dotProduct_mulVec, ← Matrix.mulVec_transpose, hA.eq]

/-- The Euclidean norm, as a dot product. -/
lemma euclideanNorm_eq_sqrt (w : EuclideanSpace ℝ (Fin n)) : ‖w‖ = √(w.ofLp ⬝ᵥ w.ofLp) := by
  rw [EuclideanSpace.norm_eq]
  congr 1
  refine Finset.sum_congr rfl fun i _ => ?_
  rw [Real.norm_eq_abs, sq_abs, sq]

/-- How long the product with a vector is. -/
noncomputable def stretch (A : Matrix (Fin n) (Fin n) ℝ) (v : Fin n → ℝ) : ℝ :=
  √(A *ᵥ v ⬝ᵥ A *ᵥ v)

lemma stretch_nonneg (A : Matrix (Fin n) (Fin n) ℝ) (v : Fin n → ℝ) : 0 ≤ stretch A v :=
  Real.sqrt_nonneg _

lemma stretch_sq (A : Matrix (Fin n) (Fin n) ℝ) (v : Fin n → ℝ) :
    stretch A v ^ 2 = A *ᵥ v ⬝ᵥ A *ᵥ v := Real.sq_sqrt (Vec.dotProduct_self_nonneg _)

/-- A vector is stretched by at most the operator norm. -/
lemma stretch_le (A : Matrix (Fin n) (Fin n) ℝ) (v : Fin n → ℝ) :
    stretch A v ≤ ‖A‖ * √(v ⬝ᵥ v) := by
  have h := Matrix.l2_opNorm_mulVec A (WithLp.toLp 2 v)
  rwa [euclideanNorm_eq_sqrt, euclideanNorm_eq_sqrt] at h

/-- A unit vector becomes at most as long as the operator norm. -/
lemma stretch_le_norm (hv : v ⬝ᵥ v = 1) : stretch A v ≤ ‖A‖ := by
  have h := stretch_le A v
  rwa [hv, Real.sqrt_one, mul_one] at h

/-- Scaled back, a product has length one. -/
lemma scaled_dotProduct_self (h : stretch A v ≠ 0) :
    ((stretch A v)⁻¹ • A *ᵥ v) ⬝ᵥ ((stretch A v)⁻¹ • A *ᵥ v) = 1 := by
  rw [smul_dotProduct, dotProduct_smul, smul_eq_mul, smul_eq_mul, ← stretch_sq]
  field_simp

/-- The operator norm of a symmetric matrix is its largest absolute eigenvalue. -/
lemma exists_abs_eigenvalue_eq_norm [NeZero n] (hA : A.IsHermitian) :
    ∃ i, |hA.eigenvalues i| = ‖A‖ ∧ ∀ j, |hA.eigenvalues j| ≤ ‖A‖ := by
  have hnorm : ‖A‖ = ‖hA.eigenvalues‖ := by
    conv_lhs => rw [hA.spectral_theorem, Unitary.conjStarAlgAut_apply]
    rw [← Unitary.coe_star, CStarRing.norm_mul_coe_unitary, CStarRing.norm_coe_unitary_mul,
      Matrix.l2_opNorm_diagonal]
    rfl
  have hle (j : Fin n) : |hA.eigenvalues j| ≤ ‖A‖ := hnorm ▸ norm_le_pi_norm hA.eigenvalues j
  obtain ⟨i, hi⟩ := Finite.exists_max fun i => |hA.eigenvalues i|
  refine ⟨i, le_antisymm (hle i) ?_, hle⟩
  rw [hnorm]
  exact (pi_norm_le_iff_of_nonneg (abs_nonneg _)).2 hi

/-- The operator norm of a positive matrix is its largest eigenvalue. -/
lemma isGreatest_spectrum_norm [NeZero n] (hA : A.PosSemidef) : IsGreatest (spectrum ℝ A) ‖A‖ := by
  obtain ⟨i, hi, hle⟩ := exists_abs_eigenvalue_eq_norm hA.1
  rw [hA.1.spectrum_real_eq_range_eigenvalues]
  refine ⟨⟨i, ?_⟩, ?_⟩
  · rw [← hi, abs_of_nonneg (hA.eigenvalues_nonneg i)]
  · rintro _ ⟨j, rfl⟩
    exact (le_abs_self _).trans (hle j)

/-! ## The dominant eigenvector -/

/-- A unit vector that a symmetric matrix scales by its operator norm, up to the sign. -/
structure IsDominant (A : Matrix (Fin n) (Fin n) ℝ) (u : Fin n → ℝ) : Prop where
  /-- The matrix is symmetric. -/
  symm : A.IsSymm
  /-- The vector has length one. -/
  unit : u ⬝ᵥ u = 1
  /-- The matrix scales the vector. -/
  scaled : ∃ μ : ℝ, A *ᵥ u = μ • u ∧ |μ| = ‖A‖

/-- A symmetric matrix has a dominant eigenvector. -/
lemma exists_isDominant [NeZero n] (hA : A.IsSymm) : ∃ u, IsDominant A u := by
  have hermitian : A.IsHermitian := by
    rw [Matrix.IsHermitian, Matrix.conjTranspose_eq_transpose_of_trivial, hA.eq]
  obtain ⟨i, hi, -⟩ := exists_abs_eigenvalue_eq_norm hermitian
  refine ⟨_, hA, ?_, _, hermitian.mulVec_eigenvectorBasis i, hi⟩
  have hlength := hermitian.eigenvectorBasis.orthonormal.1 i
  rwa [euclideanNorm_eq_sqrt, Real.sqrt_eq_one] at hlength

namespace IsDominant

variable (hu : IsDominant A u)

include hu

/-- A product has the operator norm times the share of the vector along a dominant one. -/
lemma abs_dotProduct_mulVec (v : Fin n → ℝ) : |u ⬝ᵥ A *ᵥ v| = ‖A‖ * |u ⬝ᵥ v| := by
  obtain ⟨μ, hμ, hnorm⟩ := hu.scaled
  rw [dotProduct_mulVec_comm hu.symm, hμ, smul_dotProduct, smul_eq_mul, abs_mul, hnorm]

/-- Two products scale the share along a dominant vector by the squared operator norm. -/
lemma dotProduct_mulVec_mulVec (v : Fin n → ℝ) : u ⬝ᵥ A *ᵥ A *ᵥ v = ‖A‖ ^ 2 * (u ⬝ᵥ v) := by
  obtain ⟨μ, hμ, hnorm⟩ := hu.scaled
  rw [dotProduct_mulVec_comm hu.symm, hμ, smul_dotProduct, dotProduct_mulVec_comm hu.symm, hμ,
    smul_dotProduct, smul_smul, smul_eq_mul, ← hnorm, sq_abs, sq]

/-- Scaled back, a product has the share of the vector along a dominant one, times the operator norm
in relation to its length. -/
lemma abs_dotProduct_scaled (v : Fin n → ℝ) :
    |u ⬝ᵥ (stretch A v)⁻¹ • A *ᵥ v| = (stretch A v)⁻¹ * (‖A‖ * |u ⬝ᵥ v|) := by
  rw [dotProduct_smul, smul_eq_mul, abs_mul, hu.abs_dotProduct_mulVec,
    abs_of_nonneg (inv_nonneg.2 (stretch_nonneg A v))]

/-- The share does not get smaller. -/
lemma abs_dotProduct_le_scaled (hv : v ⬝ᵥ v = 1) (h : stretch A v ≠ 0) :
    |u ⬝ᵥ v| ≤ |u ⬝ᵥ (stretch A v)⁻¹ • A *ᵥ v| := by
  have hpos : 0 < stretch A v := (stretch_nonneg A v).lt_of_ne' h
  rw [hu.abs_dotProduct_scaled, inv_mul_eq_div, le_div_iff₀ hpos, mul_comm]
  exact mul_le_mul_of_nonneg_right (stretch_le_norm hv) (abs_nonneg _)

/-- The next product is at least as long. -/
lemma le_stretch {ρ : ℝ} (hp : p ⬝ᵥ p = 1) (hv : v ⬝ᵥ v = 1) (h : A *ᵥ p = ρ • v) :
    ρ ≤ stretch A v := by
  have hρ : p ⬝ᵥ A *ᵥ v = ρ := by
    rw [dotProduct_mulVec_comm hu.symm, h, smul_dotProduct, hv, smul_eq_mul, mul_one]
  apply Real.le_sqrt_of_sq_le
  rw [← hρ]
  exact Vec.sq_dotProduct_le hp _

/-- The less a second product is longer than the first, the less the square of the matrix turns the
vector. -/
lemma sq_mul_le {ρ : ℝ} (hp : p ⬝ᵥ p = 1) (hv : v ⬝ᵥ v = 1) (h : A *ᵥ p = ρ • v) :
    (‖A‖ ^ 2 - ρ ^ 2) ^ 2 * (u ⬝ᵥ p) ^ 2 ≤ ρ ^ 2 * (stretch A v ^ 2 - ρ ^ 2) := by
  have hρ : A *ᵥ v ⬝ᵥ p = ρ := by
    rw [dotProduct_comm, dotProduct_mulVec_comm hu.symm, h, smul_dotProduct, hv, smul_eq_mul,
      mul_one]
  have htwice : A *ᵥ A *ᵥ p = ρ • A *ᵥ v := by rw [h, Matrix.mulVec_smul]
  have hturn : u ⬝ᵥ (A *ᵥ A *ᵥ p - ρ ^ 2 • p) = (‖A‖ ^ 2 - ρ ^ 2) * (u ⬝ᵥ p) := by
    rw [dotProduct_sub, hu.dotProduct_mulVec_mulVec, dotProduct_smul, smul_eq_mul, sub_mul]
  calc (‖A‖ ^ 2 - ρ ^ 2) ^ 2 * (u ⬝ᵥ p) ^ 2
      = (u ⬝ᵥ (A *ᵥ A *ᵥ p - ρ ^ 2 • p)) ^ 2 := by rw [hturn, mul_pow]
    _ ≤ (A *ᵥ A *ᵥ p - ρ ^ 2 • p) ⬝ᵥ (A *ᵥ A *ᵥ p - ρ ^ 2 • p) :=
        Vec.sq_dotProduct_le hu.unit _
    _ = ρ ^ 2 * (stretch A v ^ 2 - ρ ^ 2) := by
        rw [htwice, stretch_sq]
        simp only [sub_dotProduct, dotProduct_sub, smul_dotProduct, dotProduct_smul, smul_eq_mul,
          dotProduct_comm p, hρ, hp]
        ring

end IsDominant

/-! ## What a settled length tells -/

/-- A length that has settled up to the relative tolerance `t` is near the operator norm: `N` is the
norm, `ρ` and `r` are the lengths of two products in a row, and `c` is the squared share along a
dominant vector. -/
lemma sq_le_of_settled {N ρ r c t : ℝ} (hc : 0 < c) (ht : t ∈ Set.Icc 0 (1 / 6)) (hρ : 0 ≤ ρ)
    (hle : ρ ≤ r) (hsettled : r - ρ ≤ t * r)
    (hturn : (N ^ 2 - ρ ^ 2) ^ 2 * c ≤ ρ ^ 2 * (r ^ 2 - ρ ^ 2)) :
    N ^ 2 ≤ (1 + √(3 * t / c)) * r ^ 2 := by
  obtain ⟨ht₀, ht₁⟩ := ht
  -- the second length is not much longer
  have hlonger : r ^ 2 - ρ ^ 2 ≤ 3 * t * ρ ^ 2 := by
    have hshrunk : 0 ≤ (1 - t) * r := mul_nonneg (by linarith) (hρ.trans hle)
    have hfactor : 1 ≤ (1 + 3 * t) * (1 - t) ^ 2 := by
      have hcubic : 0 ≤ t * (1 - 5 * t + 3 * t ^ 2) :=
        mul_nonneg ht₀ (by linarith [sq_nonneg t])
      linarith
    have hbound : r ^ 2 ≤ (1 + 3 * t) * ρ ^ 2 := by
      calc r ^ 2 ≤ (1 + 3 * t) * (1 - t) ^ 2 * r ^ 2 :=
            le_mul_of_one_le_left (sq_nonneg r) hfactor
        _ = (1 + 3 * t) * ((1 - t) * r) ^ 2 := by ring
        _ ≤ (1 + 3 * t) * ρ ^ 2 :=
            mul_le_mul_of_nonneg_left (pow_le_pow_left₀ hshrunk (by linarith) 2) (by linarith)
    linarith
  have hsq : (N ^ 2 - ρ ^ 2) ^ 2 ≤ 3 * t / c * (ρ ^ 2) ^ 2 := by
    rw [div_mul_eq_mul_div, le_div_iff₀ hc]
    calc (N ^ 2 - ρ ^ 2) ^ 2 * c ≤ ρ ^ 2 * (r ^ 2 - ρ ^ 2) := hturn
      _ ≤ ρ ^ 2 * (3 * t * ρ ^ 2) := mul_le_mul_of_nonneg_left hlonger (sq_nonneg ρ)
      _ = 3 * t * (ρ ^ 2) ^ 2 := by ring
  have hdiff : N ^ 2 - ρ ^ 2 ≤ √(3 * t / c) * ρ ^ 2 := by
    have h := Real.le_sqrt_of_sq_le hsq
    rwa [Real.sqrt_mul (by positivity), Real.sqrt_sq (sq_nonneg ρ)] at h
  calc N ^ 2 ≤ (1 + √(3 * t / c)) * ρ ^ 2 := by linarith
    _ ≤ (1 + √(3 * t / c)) * r ^ 2 := by
        apply mul_le_mul_of_nonneg_left (pow_le_pow_left₀ hρ hle 2)
        positivity

end HopfieldDescent

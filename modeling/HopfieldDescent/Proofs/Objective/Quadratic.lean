import Mathlib
import HopfieldDescent.Proofs.DenseMatrix.Symmetric
import HopfieldDescent.Proofs.Objective.Total

/-!
# Quadratic objectives are exact

A square matrix and a linear form with an entry for each of its rows make a quadratic objective, and
nothing else is refused.  The objective stores the symmetric part of the matrix.  That leaves the
values alone, and it makes the gradient exact: a value differs from the one a step away by the
gradient along the step and half the quadratic form of the step, and by nothing more.

The operator norm of the stored matrix is a Lipschitz constant of the gradient.  The smoothness that
an objective reports is an estimate of that norm from below.
-/

open scoped Matrix Matrix.Norms.L2Operator

namespace HopfieldDescent.Quadratic

variable {n : ℕ} {f : Quadratic ℝ} {matrix : DenseMatrix ℝ} {linear x y : Vec ℝ}

/-- A matrix that is not square is refused, and so is a linear form that does not fit a square
one. -/
lemma ofForms_eq_error {error : QuadraticError} :
    ofForms matrix linear = .error error ↔
      (matrix.height ≠ matrix.width ∧ error = .notSquare matrix.height matrix.width) ∨
      (matrix.height = matrix.width ∧ linear.length ≠ matrix.height ∧
        error = .linearTerm linear.length matrix.height) := by
  by_cases hsquare : matrix.height = matrix.width
  · by_cases hlinear : linear.length = matrix.height
    · simp [ofForms, hsquare, hlinear]
    · rw [ofForms, dif_pos hsquare, if_neg hlinear, Except.error.injEq, eq_comm]
      simp only [ne_eq, hsquare, not_true_eq_false, false_and, false_or, true_and]
      exact (and_iff_right (hsquare ▸ hlinear)).symm
  · rw [ofForms, dif_neg hsquare, Except.error.injEq, eq_comm]
    simp only [ne_eq, hsquare, not_false_eq_true, true_and, false_and, or_false]

/-- Affine images of two points differ at most by the operator norm times the distance of the
points. -/
lemma norm_zipWith_sub_le {A : Matrix (Fin n) (Fin n) ℝ} {b : Fin n → ℝ} {gx gy : Vec ℝ}
    (hgx : gx.length = n) (hgy : gy.length = n) (hx : x.length = n) (hy : y.length = n)
    (hgxcoords : Vec.coords n gx = A *ᵥ Vec.coords n x + b)
    (hgycoords : Vec.coords n gy = A *ᵥ Vec.coords n y + b) :
    Vec.norm (List.zipWith (· - ·) gx gy) ≤ ‖A‖ * Vec.norm (List.zipWith (· - ·) x y) := by
  have himages : Vec.coords n (List.zipWith (· - ·) gx gy) =
      A *ᵥ (Vec.coords n x - Vec.coords n y) := by
    rw [Matrix.mulVec_sub, ← add_sub_add_right_eq_sub _ _ b, ← hgxcoords, ← hgycoords,
      Vec.coords_zipWith_sub hgx hgy]
  rw [Vec.norm_eq_sqrt (n := n) (by simp [hgx, hgy]), Vec.norm_eq_sqrt (n := n) (by simp [hx, hy]),
    himages, Vec.coords_zipWith_sub hx hy]
  exact stretch_le _ _

/-! ## What is stored -/

/-- An objective in `n` variables stores the symmetric part of a matrix, and a linear form. -/
structure Stores (f : Quadratic ℝ) (A : Matrix (Fin n) (Fin n) ℝ) (b : Fin n → ℝ) : Prop where
  /-- The products of the stored matrix are those of the symmetric part. -/
  represents : f.matrix.Represents (f.matrix.toSquare n)
  /-- The stored matrix is the symmetric part. -/
  toSquare_eq : f.matrix.toSquare n = (1 / 2 : ℝ) • (A + Aᵀ)
  /-- There is a linear coefficient for each variable. -/
  length_linear : f.linear.length = n
  /-- The linear coefficients. -/
  coords_linear : Vec.coords n f.linear = b

/-- Forms that fit make an objective. -/
lemma exists_stores (hheight : matrix.height = n) (hwidth : matrix.width = n)
    (hlinear : linear.length = n) :
    ∃ f, ofForms matrix linear = .ok f ∧ f.Stores (matrix.toSquare n) (Vec.coords n linear) := by
  have square : matrix.height = matrix.width := hheight.trans hwidth.symm
  have hok : ofForms matrix linear =
      .ok ⟨if matrix.isSymmetric then matrix else matrix.symmetrize square, linear⟩ := by
    rw [ofForms, dif_pos square, if_pos (hlinear.trans hheight.symm)]
  obtain ⟨hrows, hcolumns⟩ := size_of_ofForms hok
  refine ⟨_, hok, DenseMatrix.represents_toSquare (hrows.trans hlinear) (hcolumns.trans hlinear),
    ?_, hlinear, rfl⟩
  dsimp only
  split_ifs with hsymmetric
  · -- a symmetric matrix is its own symmetric part
    have hsymm := DenseMatrix.isSymm_toSquare hheight hwidth hsymmetric
    rw [hsymm.eq, ← two_smul ℝ, smul_smul]
    norm_num
  · exact DenseMatrix.toSquare_symmetrize square hheight

namespace Stores

variable {A : Matrix (Fin n) (Fin n) ℝ} {b : Fin n → ℝ}

/-- The stored matrix is symmetric. -/
lemma isSymm (h : f.Stores A b) : (f.matrix.toSquare n).IsSymm := by
  rw [h.toSquare_eq]
  exact isSymm_mean A

/-- The value, with the given matrix. -/
lemma value_eq (h : f.Stores A b) (hx : x.length = n) :
    f.value x = .ok (1 / 2 * (Vec.coords n x ⬝ᵥ A *ᵥ Vec.coords n x) + b ⬝ᵥ Vec.coords n x) := by
  obtain ⟨image, himage, hlength, hcoords⟩ := h.represents.exists_mulVec hx
  rw [value, himage, Outcome.ok_bind, Vec.dot_eq_dotProduct hx hlength, Outcome.ok_bind,
    Vec.dot_eq_dotProduct h.length_linear hx, Outcome.ok_bind, hcoords, h.toSquare_eq,
    dotProduct_mean_mulVec, h.coords_linear, Scalar.literal_half]
  rfl

/-- The gradient, with the stored matrix. -/
lemma exists_gradient (h : f.Stores A b) (hx : x.length = n) :
    ∃ gradient, f.gradient x = .ok gradient ∧ gradient.length = n ∧
      Vec.coords n gradient = f.matrix.toSquare n *ᵥ Vec.coords n x + b := by
  obtain ⟨image, himage, hlength, hcoords⟩ := h.represents.exists_mulVec hx
  refine ⟨List.zipWith (· + ·) image f.linear, ?_, by simp [hlength, h.length_linear], ?_⟩
  · rw [gradient, himage, Outcome.ok_bind]
    exact Vec.zipSpread_of_length_eq (hlength.trans h.length_linear.symm)
  · funext i
    rw [Vec.coords_zipWith hlength h.length_linear, hcoords, h.coords_linear, Pi.add_apply]

/-- The value a step away. -/
lemma expansion (h : f.Stores A b) (v w : Fin n → ℝ) :
    1 / 2 * ((v + w) ⬝ᵥ A *ᵥ (v + w)) + b ⬝ᵥ (v + w) =
      1 / 2 * (v ⬝ᵥ A *ᵥ v) + b ⬝ᵥ v + (f.matrix.toSquare n *ᵥ v + b) ⬝ᵥ w +
        1 / 2 * (w ⬝ᵥ A *ᵥ w) := by
  have hsum := dotProduct_mulVec_add h.isSymm v w
  simp only [h.toSquare_eq, dotProduct_mean_mulVec] at hsum ⊢
  rw [hsum, dotProduct_add, add_dotProduct]
  ring

end Stores

/-! ## What is promised -/

/-- What is promised of the objective of a matrix `A`, symmetric or not, and a linear form `b`. -/
structure Exact (f : Quadratic ℝ) (A : Matrix (Fin n) (Fin n) ℝ) (b : Fin n → ℝ) : Prop where
  /-- The stored matrix has a row for each variable. -/
  height_eq : f.matrix.height = n
  /-- The stored matrix has a column for each variable. -/
  width_eq : f.matrix.width = n
  /-- The stored matrix is symmetric. -/
  isSymm : (f.matrix.toSquare n).IsSymm
  /-- The value is that of the given forms. -/
  value_eq : ∀ x : Vec ℝ, x.length = n →
    f.value x = .ok (1 / 2 * (Vec.coords n x ⬝ᵥ A *ᵥ Vec.coords n x) + b ⬝ᵥ Vec.coords n x)
  /-- The gradient tells the value a step away, up to half the quadratic form of the step. -/
  expansion : ∀ x d : Vec ℝ, x.length = n → d.length = n → ∃ gradient y value value',
    f.gradient x = .ok gradient ∧ gradient.length = n ∧ Vec.add x d = .ok y ∧
      f.value x = .ok value ∧ f.value y = .ok value' ∧
      value' = value + Vec.coords n gradient ⬝ᵥ Vec.coords n d +
        1 / 2 * (Vec.coords n d ⬝ᵥ A *ᵥ Vec.coords n d)
  /-- The operator norm of the stored matrix is a Lipschitz constant of the gradient. -/
  lipschitz : ∀ x y : Vec ℝ, x.length = n → y.length = n → ∃ gx gy gradients points,
    f.gradient x = .ok gx ∧ f.gradient y = .ok gy ∧ Vec.sub gx gy = .ok gradients ∧
      Vec.sub x y = .ok points ∧ Vec.norm gradients ≤ ‖f.matrix.toSquare n‖ * Vec.norm points
  /-- The reported smoothness is at most that constant. -/
  smoothness_le : ∃ r, f.toObjective.smoothness = .ok (some r) ∧ r ≤ ‖f.matrix.toSquare n‖

/-- Forms are refused exactly when their shapes do not fit, the shape of the matrix first, and all
others make an exact objective. -/
theorem exact_of_ofForms :
    (∀ (matrix : DenseMatrix ℝ) (linear : Vec ℝ) (error : QuadraticError),
      ofForms matrix linear = .error error ↔
        (matrix.height ≠ matrix.width ∧ error = .notSquare matrix.height matrix.width) ∨
        (matrix.height = matrix.width ∧ linear.length ≠ matrix.height ∧
          error = .linearTerm linear.length matrix.height)) ∧
    ∀ (n : ℕ) (matrix : DenseMatrix ℝ) (linear : Vec ℝ), matrix.height = n → matrix.width = n →
      linear.length = n →
      ∃ f, ofForms matrix linear = .ok f ∧ f.Exact (matrix.toSquare n) (Vec.coords n linear) := by
  refine ⟨fun _ _ _ => ofForms_eq_error, fun n matrix linear hheight hwidth hlinear => ?_⟩
  obtain ⟨f, hok, hf⟩ := exists_stores hheight hwidth hlinear
  refine ⟨f, hok, hf.represents.height_eq, hf.represents.width_eq, hf.isSymm,
    fun x hx => hf.value_eq hx, fun x d hx hd => ?_, fun x y hx hy => ?_, ?_⟩
  · obtain ⟨gradient, hgradient, hlength, hcoords⟩ := hf.exists_gradient hx
    have hsum : Vec.coords n (List.zipWith (· + ·) x d) = Vec.coords n x + Vec.coords n d :=
      funext fun i => Vec.coords_zipWith hx hd i
    refine ⟨gradient, _, _, _, hgradient, hlength,
      Vec.zipSpread_of_length_eq (hx.trans hd.symm), hf.value_eq hx,
      hf.value_eq (by simp [hx, hd]), ?_⟩
    rw [hsum, hcoords]
    exact hf.expansion _ _
  · obtain ⟨gx, hgx, hgxn, hgxcoords⟩ := hf.exists_gradient hx
    obtain ⟨gy, hgy, hgyn, hgycoords⟩ := hf.exists_gradient hy
    exact ⟨gx, gy, _, _, hgx, hgy, Vec.zipSpread_of_length_eq (hgxn.trans hgyn.symm),
      Vec.zipSpread_of_length_eq (hx.trans hy.symm),
      norm_zipWith_sub_le hgxn hgyn hx hy hgxcoords hgycoords⟩
  · obtain ⟨r, hr, -⟩ := DenseMatrix.returns_spectralRadius
      (hf.represents.height_eq.trans hf.represents.width_eq.symm)
    refine ⟨r, Outcome.map_eq_ok.2 ⟨r, hr, rfl⟩, ?_⟩
    exact (DenseMatrix.estimatesNorm_of_spectralRadius hf.represents hf.isSymm hr).le_norm

/-- A matrix that is not symmetric. -/
noncomputable def skew : DenseMatrix ℝ := ⟨2, [[1, 1], [0, 1]], by simp⟩

/-- The objective of a matrix that is not symmetric has the value of that matrix. -/
theorem exact_of_ofForms_skew :
    skew.height = 2 ∧ skew.width = 2 ∧ ([1, -1] : Vec ℝ).length = 2 ∧
      ∃ f, ofForms skew [1, -1] = .ok f ∧
        f.Exact (skew.toSquare 2) (Vec.coords 2 [1, -1]) ∧ f.value [1, 1] = .ok (3 / 2) := by
  obtain ⟨f, hok, hf⟩ := exact_of_ofForms.2 2 skew [1, -1] rfl rfl rfl
  refine ⟨rfl, rfl, rfl, f, hok, hf, ?_⟩
  rw [hf.value_eq [1, 1] rfl]
  simp [skew, DenseMatrix.toSquare, Vec.coords, dotProduct, Matrix.mulVec, Fin.sum_univ_two]
  norm_num

end HopfieldDescent.Quadratic

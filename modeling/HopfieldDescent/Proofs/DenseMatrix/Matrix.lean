import Mathlib
import HopfieldDescent.ConstraintBlock
import HopfieldDescent.Proofs.Vec.Coordinates

/-!
# Dense matrices as matrices

`DenseMatrix.toMatrix` reads a list of rows as a matrix of Mathlib.  The product with a vector and
the product of the transposed matrix become the operations of Mathlib on coordinates.

The curvature of a penalty is bounded by the largest eigenvalue of the Gram matrix.  What measures
that eigenvalue is a parameter: `ConstraintBlock.ExactRadius` says that a radius finds it, and
`ConstraintBlock.BoundedBy`, which is all that is asked for, that a radius does not fall below it.
The eigenvalue itself (`ConstraintBlock.largestEigenvalue`) is such a radius for every block, and
an exact one if the block has a column at all.
-/

open scoped Matrix

namespace HopfieldDescent

namespace DenseMatrix

/-- The matrix with the given rows, of which `n` columns are taken. -/
def toMatrix (a : DenseMatrix ℝ) (n : ℕ) : Matrix (Fin a.height) (Fin n) ℝ :=
  Matrix.of fun i => Vec.coords n (a.rows[i])

/-- The product with a vector. -/
lemma mulVec_eq_ok {a : DenseMatrix ℝ} {n : ℕ} (hn : a.width = n) {v w : Vec ℝ} :
    a.mulVec v = .ok w ↔ v.length = n ∧ w.length = a.height ∧
      Vec.coords a.height w = a.toMatrix n *ᵥ Vec.coords n v := by
  subst hn
  simp only [mulVec, Outcome.bind_eq_ok, Breach.sameLength_eq_ok, Outcome.pure_eq_ok,
    exists_const]
  have hheight : (a.rows.map fun row => Vec.inner row v).length = a.height := List.length_map _
  have hproduct (hv : a.width = v.length) :
      Vec.coords a.height (a.rows.map fun row => Vec.inner row v) =
        a.toMatrix a.width *ᵥ Vec.coords a.width v := by
    funext i
    have hrow : (a.rows[i]).length = a.width := a.length_of_mem _ (List.getElem_mem _)
    rw [Vec.coords_eq_getElem hheight]
    simp only [Fin.getElem_fin, List.getElem_map]
    exact Vec.inner_eq_dotProduct hrow hv.symm
  constructor
  · rintro ⟨hv, rfl⟩
    exact ⟨hv.symm, hheight, hproduct hv⟩
  · rintro ⟨hv, hw, hcoords⟩
    exact ⟨hv.symm, Vec.eq_of_coords_eq hheight hw ((hproduct hv.symm).trans hcoords.symm)⟩

/-- Each column lists the entries of the rows at its place. -/
lemma getElem?_columns {width : ℕ} {rows : List (Vec ℝ)}
    (hrows : ∀ row ∈ rows, row.length = width) {j : ℕ} (hj : j < width) :
    (columns width rows)[j]? = some (rows.map fun row => row[j]?.getD 0) := by
  induction rows with
  | nil => simp [columns, hj]
  | cons row rows ih =>
    have hrow : row.length = width := hrows row List.mem_cons_self
    have hcolumns := ih fun r hr => hrows r (List.mem_cons_of_mem _ hr)
    have hrow' : row[j]? = some row[j] := List.getElem?_eq_getElem (hrow ▸ hj)
    unfold columns at hcolumns ⊢
    rw [List.foldr_cons, List.getElem?_zipWith, hcolumns, hrow']
    simp [hrow']

/-- The transposed matrix has the columns as its rows. -/
lemma exists_column {a : DenseMatrix ℝ} {n : ℕ} (hn : a.width = n) (j : Fin n) :
    ∃ column, a.transpose.rows[(j : ℕ)]? = some column ∧ column.length = a.height ∧
      Vec.coords a.height column = (a.toMatrix n)ᵀ j := by
  subst hn
  have hheight : (a.rows.map fun row => row[(j : ℕ)]?.getD 0).length = a.height :=
    List.length_map _
  refine ⟨_, getElem?_columns a.length_of_mem j.isLt, hheight, ?_⟩
  funext i
  rw [Vec.coords_eq_getElem hheight]
  simp [toMatrix, Vec.coords]

/-- The product of the transposed matrix with a vector. -/
lemma transpose_mulVec_eq_ok {a : DenseMatrix ℝ} {n : ℕ} (hn : a.width = n) {y w : Vec ℝ}
    (h : a.transpose.mulVec y = .ok w) :
    y.length = a.height ∧ w.length = n ∧
      Vec.coords n w = (a.toMatrix n)ᵀ *ᵥ Vec.coords a.height y := by
  simp only [mulVec, Outcome.bind_eq_ok, Breach.sameLength_eq_ok, Outcome.pure_eq_ok] at h
  obtain ⟨-, hlength, rfl⟩ := h
  have hcount : a.transpose.rows.length = a.width :=
    length_columns a.width a.rows a.length_of_mem
  refine ⟨hlength.symm, (List.length_map _).trans (hcount.trans hn), ?_⟩
  funext j
  obtain ⟨column, hcolumn, hheight, hcoords⟩ := exists_column hn j
  rw [Vec.coords, List.getElem?_map, hcolumn, Option.map_some, Option.getD_some,
    Vec.inner_eq_dotProduct hheight hlength.symm, hcoords]
  rfl

end DenseMatrix

/-! ## The largest eigenvalue of the Gram matrix -/

/-- The squared length of a product is bounded by the largest eigenvalue of the Gram matrix. -/
lemma mulVec_dotProduct_self_le {m n : ℕ} {M : Matrix (Fin m) (Fin n) ℝ} {r : ℝ}
    (hr : ∀ μ ∈ spectrum ℝ (Mᵀ * M), μ ≤ r) (v : Fin n → ℝ) :
    (M *ᵥ v) ⬝ᵥ (M *ᵥ v) ≤ r * (v ⬝ᵥ v) := by
  have hsymmetric : (algebraMap ℝ (Matrix (Fin n) (Fin n) ℝ) r - Mᵀ * M).IsHermitian := by
    rw [Matrix.IsHermitian, Matrix.conjTranspose_eq_transpose_of_trivial, Matrix.transpose_sub,
      Matrix.transpose_mul, Matrix.transpose_transpose, Matrix.algebraMap_eq_diagonal,
      Matrix.diagonal_transpose]
  have hpsd : (algebraMap ℝ (Matrix (Fin n) (Fin n) ℝ) r - Mᵀ * M).PosSemidef := by
    rw [hsymmetric.posSemidef_iff_eigenvalues_nonneg]
    intro i
    have hmem := hsymmetric.eigenvalues_mem_spectrum_real i
    rw [← spectrum.singleton_sub_eq] at hmem
    obtain ⟨_, rfl, μ, hμ, hsub⟩ := Set.mem_sub.1 hmem
    have hle := hr μ hμ
    rw [Pi.zero_apply, ← hsub]
    linarith
  have hscalar : algebraMap ℝ (Matrix (Fin n) (Fin n) ℝ) r *ᵥ v = r • v := by
    rw [Algebra.algebraMap_eq_smul_one, Matrix.smul_mulVec, Matrix.one_mulVec]
  have hquadratic := hpsd.dotProduct_mulVec_nonneg v
  rw [star_trivial, Matrix.sub_mulVec, hscalar, dotProduct_sub, dotProduct_smul,
    ← Matrix.mulVec_mulVec, Matrix.dotProduct_mulVec v Mᵀ, Matrix.vecMul_transpose,
    smul_eq_mul] at hquadratic
  linarith

/-- The peak of a vector is at most a bound when the bound is not negative and above each entry. -/
lemma Vec.peak_le_iff {v : Vec ℝ} {b : ℝ} : peak v ≤ b ↔ 0 ≤ b ∧ ∀ e ∈ v, e ≤ b := by
  have hfold (a : ℝ) : v.foldl Scalar.maxNum a ≤ b ↔ a ≤ b ∧ ∀ e ∈ v, e ≤ b := by
    induction v generalizing a with
    | nil => simp
    | cons e v ih =>
      rw [List.foldl_cons, ih, Scalar.maxNum_real, max_le_iff, List.forall_mem_cons, and_assoc]
  rw [peak, hfold, Scalar.literal_zero]

/-- The largest entry counts as zero when every entry is below. -/
lemma Vec.peak_nonneg (v : Vec ℝ) : 0 ≤ peak v := (peak_le_iff.1 le_rfl).1

/-- No entry is above the peak. -/
lemma Vec.le_peak {v : Vec ℝ} {e : ℝ} (he : e ∈ v) : e ≤ peak v := (peak_le_iff.1 le_rfl).2 e he

/-- The peak is zero or one of the entries. -/
lemma Vec.peak_eq_zero_or_mem (v : Vec ℝ) : peak v = 0 ∨ peak v ∈ v := by
  have hfold (a : ℝ) : v.foldl Scalar.maxNum a = a ∨ v.foldl Scalar.maxNum a ∈ v := by
    induction v generalizing a with
    | nil => exact .inl rfl
    | cons e v ih =>
      rw [List.foldl_cons, List.mem_cons, Scalar.maxNum_real]
      rcases ih (max a e) with h | h
      · rw [h]
        exact (max_choice a e).imp_right .inl
      · exact .inr (.inr h)
  rw [peak, Scalar.literal_zero]
  exact hfold 0

/-- No estimate of a radius is negative, whether it is exact or not. -/
lemma ConstraintBlock.gramSpectralRadius_nonneg {block : ConstraintBlock ℝ} {r : ℝ}
    (h : block.gramSpectralRadius = .ok r) : 0 ≤ r := by
  simp only [gramSpectralRadius, DenseMatrix.gramSpectralRadius, DenseMatrix.spectralRadius] at h
  split_ifs at h
  · obtain rfl := Except.ok.inj h
    exact Scalar.literal_zero.ge
  · obtain ⟨estimates, -, h⟩ := Outcome.bind_eq_ok.1 h
    obtain rfl := Outcome.pure_eq_ok.1 h
    exact Vec.peak_nonneg estimates

namespace ConstraintBlock

/-- The Gram matrix of the coefficients. -/
def gramMatrix (block : ConstraintBlock ℝ) : Matrix (Fin block.width) (Fin block.width) ℝ :=
  (block.matrix.toMatrix block.width)ᵀ * block.matrix.toMatrix block.width

/-- The largest eigenvalue of the Gram matrix, which is the squared operator norm of the
coefficients. -/
noncomputable def largestEigenvalue (block : ConstraintBlock ℝ) : Checked ℝ :=
  .ok (sSup (spectrum ℝ block.gramMatrix))

variable {block : ConstraintBlock ℝ} {radius : ConstraintBlock ℝ → Checked ℝ}

/-- A radius finds the largest eigenvalue of the Gram matrix of a block. -/
def ExactRadius (block : ConstraintBlock ℝ) (radius : ConstraintBlock ℝ → Checked ℝ) : Prop :=
  ∀ r, radius block = .ok r → IsGreatest (spectrum ℝ block.gramMatrix) r

/-- A radius is not negative and falls below no eigenvalue of the Gram matrix of a block. -/
def BoundedBy (block : ConstraintBlock ℝ) (radius : ConstraintBlock ℝ → Checked ℝ) : Prop :=
  ∀ r, radius block = .ok r → 0 ≤ r ∧ ∀ μ ∈ spectrum ℝ block.gramMatrix, μ ≤ r

/-- The Gram matrix is symmetric without negative eigenvalues. -/
lemma posSemidef_gramMatrix (block : ConstraintBlock ℝ) : block.gramMatrix.PosSemidef := by
  have h := Matrix.posSemidef_conjTranspose_mul_self (block.matrix.toMatrix block.width)
  rwa [Matrix.conjTranspose_eq_transpose_of_trivial] at h

/-- No eigenvalue of the Gram matrix is negative. -/
lemma nonneg_of_mem_spectrum {μ : ℝ} (hμ : μ ∈ spectrum ℝ block.gramMatrix) : 0 ≤ μ := by
  rw [block.posSemidef_gramMatrix.isHermitian.spectrum_real_eq_range_eigenvalues] at hμ
  obtain ⟨i, rfl⟩ := hμ
  exact block.posSemidef_gramMatrix.eigenvalues_nonneg i

/-- An exact radius is a bound. -/
lemma ExactRadius.boundedBy (h : block.ExactRadius radius) : block.BoundedBy radius :=
  fun r hr => ⟨nonneg_of_mem_spectrum (h r hr).1, fun _ hμ => (h r hr).2 hμ⟩

/-- The largest eigenvalue is exact, if there is a column at all. -/
lemma exactRadius_largestEigenvalue (hwidth : 0 < block.width) :
    block.ExactRadius largestEigenvalue := by
  rintro r hr
  obtain rfl := Except.ok.inj hr
  have hsymmetric := block.posSemidef_gramMatrix.isHermitian
  have hnonempty : (spectrum ℝ block.gramMatrix).Nonempty :=
    ⟨_, hsymmetric.eigenvalues_mem_spectrum_real ⟨0, hwidth⟩⟩
  exact ⟨hnonempty.csSup_mem Matrix.finite_real_spectrum,
    fun _ hμ => le_csSup Matrix.finite_real_spectrum.bddAbove hμ⟩

/-- The largest eigenvalue bounds every block.  Without a column there is none, and zero stands in
for it. -/
lemma boundedBy_largestEigenvalue (block : ConstraintBlock ℝ) :
    block.BoundedBy largestEigenvalue := by
  rcases Nat.eq_zero_or_pos block.width with hwidth | hwidth
  · have : IsEmpty (Fin block.width) := by
      rw [hwidth]
      exact Fin.isEmpty'
    simp [BoundedBy, largestEigenvalue, spectrum.of_subsingleton]
  · exact (exactRadius_largestEigenvalue hwidth).boundedBy

end ConstraintBlock

end HopfieldDescent

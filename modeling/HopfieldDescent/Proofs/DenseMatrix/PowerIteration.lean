import Mathlib
import HopfieldDescent.DenseMatrix.Spectral
import HopfieldDescent.Proofs.DenseMatrix.Dominant
import HopfieldDescent.Proofs.DenseMatrix.SingleEntry
import HopfieldDescent.Proofs.DenseMatrix.Total

/-!
# How good the estimated radius is

A power iteration of a symmetric matrix estimates its operator norm from below.  Round by round the
estimates grow, and the share of the vector along a dominant eigenvector does not get smaller
(`Round.next`).

There are two ways in which an iteration ends at a matrix that is not zero.  Either the estimate has
settled, and then the last two lengths tell how far below the norm it can be; or the rounds are used
up, and then the product of all lengths, each of which is at most the last one, is a power of the
norm times the share at the start.  Of the basis vectors, at least one has a squared share of at
least one over the dimension (`exists_share`).
-/

open scoped Matrix Matrix.Norms.L2Operator

namespace HopfieldDescent

namespace DenseMatrix

variable {n : ℕ} {a : DenseMatrix ℝ} {A : Matrix (Fin n) (Fin n) ℝ} {u p : Fin n → ℝ} {v : Vec ℝ}
  {c estimate r : ℝ} {rounds : ℕ}

/-- Products with a list of rows are products with a square matrix. -/
structure Represents (a : DenseMatrix ℝ) (A : Matrix (Fin n) (Fin n) ℝ) : Prop where
  /-- The number of rows. -/
  height_eq : a.height = n
  /-- The number of columns. -/
  width_eq : a.width = n
  /-- The products. -/
  coords_mulVec : ∀ v w : Vec ℝ, a.mulVec v = .ok w → Vec.coords n w = A *ᵥ Vec.coords n v

/-- There is a product with every vector that has an entry for each column. -/
lemma Represents.exists_mulVec (ha : a.Represents A) (hv : v.length = n) :
    ∃ w, a.mulVec v = .ok w ∧ w.length = n ∧ Vec.coords n w = A *ᵥ Vec.coords n v := by
  obtain ⟨w, hw, hlength⟩ := returns_mulVec (hv.trans ha.width_eq.symm)
  exact ⟨w, hw, hlength.trans ha.height_eq, ha.coords_mulVec v w hw⟩

/-! ## One round -/

/-- What a round of a power iteration may do: end with zero, end with a settled estimate, or go on
with the product, scaled to length one. -/
lemma powerIteration_succ_eq_ok (ha : a.Represents A) (hv : v.length = n)
    (h : a.powerIteration (rounds + 1) v estimate = .ok r) :
    (stretch A (Vec.coords n v) = 0 ∧ r = 0) ∨
    (stretch A (Vec.coords n v) ≠ 0 ∧ r = stretch A (Vec.coords n v) ∧
      |r - estimate| ≤ powerTolerance * r) ∨
    (stretch A (Vec.coords n v) ≠ 0 ∧ ∃ w : Vec ℝ, w.length = n ∧
      Vec.coords n w = (stretch A (Vec.coords n v))⁻¹ • A *ᵥ Vec.coords n v ∧
      a.powerIteration rounds w (stretch A (Vec.coords n v)) = .ok r) := by
  obtain ⟨product, hproduct, hlength, hcoords⟩ := ha.exists_mulVec hv
  rw [powerIteration, hproduct, Outcome.ok_bind] at h
  have hnorm : Vec.norm product = stretch A (Vec.coords n v) := by
    rw [Vec.norm_eq_sqrt hlength, hcoords, stretch]
  simp only [hnorm, Scalar.literal_zero, beq_iff_eq, Scalar.abs_real] at h
  split_ifs at h with hzero hsettled
  · left
    exact ⟨hzero, (Except.ok.inj h).symm⟩
  · right; left
    obtain rfl := Except.ok.inj h
    exact ⟨hzero, rfl, hsettled⟩
  · right; right
    refine ⟨hzero, _, (List.length_map _).trans hlength, ?_, h⟩
    funext i
    rw [Vec.coords_map hlength, hcoords, Pi.smul_apply, smul_eq_mul, div_eq_inv_mul]

/-- What holds between two rounds: the vector has length one and a squared share of at least `c`
along `u`, and it is the last product, scaled back by the estimate.  Before the first round the
estimate is zero. -/
structure Round (A : Matrix (Fin n) (Fin n) ℝ) (u : Fin n → ℝ) (c : ℝ) (v : Fin n → ℝ)
    (estimate : ℝ) : Prop where
  /-- The vector has length one. -/
  unit : v ⬝ᵥ v = 1
  /-- The vector has a share. -/
  share : c ≤ (u ⬝ᵥ v) ^ 2
  /-- The last product. -/
  last : estimate = 0 ∨ 0 < estimate ∧ ∃ p : Fin n → ℝ, p ⬝ᵥ p = 1 ∧ c ≤ (u ⬝ᵥ p) ^ 2 ∧
    A *ᵥ p = estimate • v

namespace Round

variable {x : Fin n → ℝ} (hu : IsDominant A u)

include hu

/-- The next product is at least as long as the last one. -/
lemma estimate_le_stretch (h : Round A u c x estimate) : estimate ≤ stretch A x := by
  rcases h.last with hfirst | ⟨-, p, hp, -, hlast⟩
  · rw [hfirst]
    exact stretch_nonneg A x
  · exact hu.le_stretch hp h.unit hlast

/-- A round leads to the next one. -/
lemma next (h : Round A u c x estimate) (hne : stretch A x ≠ 0) :
    Round A u c ((stretch A x)⁻¹ • A *ᵥ x) (stretch A x) := by
  refine ⟨scaled_dotProduct_self hne, ?_, .inr ⟨?_, x, h.unit, h.share, ?_⟩⟩
  · exact h.share.trans (sq_le_sq.2 (hu.abs_dotProduct_le_scaled h.unit hne))
  · exact (stretch_nonneg A x).lt_of_ne' hne
  · rw [smul_inv_smul₀ hne]

/-- A settled estimate is near the operator norm. -/
lemma sq_norm_le_of_settled (h : Round A u c x estimate) (hc : 0 < c) (hne : stretch A x ≠ 0)
    (hsettled : |stretch A x - estimate| ≤ powerTolerance * stretch A x) :
    ‖A‖ ^ 2 ≤ (1 + √(3 * powerTolerance / c)) * stretch A x ^ 2 := by
  have hpos : 0 < stretch A x := (stretch_nonneg A x).lt_of_ne' hne
  have hgrows := h.estimate_le_stretch hu
  rw [abs_of_nonneg (sub_nonneg.2 hgrows)] at hsettled
  rcases h.last with hfirst | ⟨hestimate, p, hp, hshare, hlast⟩
  · -- the first estimate never settles
    rw [hfirst, sub_zero] at hsettled
    have hlt := mul_lt_of_lt_one_left hpos powerTolerance_mem_Ico.2
    exact absurd hsettled (not_le.2 hlt)
  · have htolerance : (powerTolerance : ℝ) ∈ Set.Icc 0 (1 / 6) := by
      unfold powerTolerance
      norm_num
    apply sq_le_of_settled hc htolerance hestimate.le hgrows hsettled
    calc (‖A‖ ^ 2 - estimate ^ 2) ^ 2 * c
        ≤ (‖A‖ ^ 2 - estimate ^ 2) ^ 2 * (u ⬝ᵥ p) ^ 2 :=
          mul_le_mul_of_nonneg_left hshare (sq_nonneg _)
      _ ≤ estimate ^ 2 * (stretch A x ^ 2 - estimate ^ 2) := hu.sq_mul_le hp h.unit hlast

end Round

/-! ## Whole iterations -/

section Iteration

variable (hu : IsDominant A u) (ha : a.Represents A)

include hu ha

/-- Estimates grow. -/
lemma le_of_powerIteration (hv : v.length = n) (round : Round A u c (Vec.coords n v) estimate)
    (h : a.powerIteration rounds v estimate = .ok r) : estimate ≤ r := by
  induction rounds generalizing v estimate with
  | zero =>
    obtain rfl := Except.ok.inj h
    exact le_rfl
  | succ rounds ih =>
    have hgrows := round.estimate_le_stretch hu
    rcases powerIteration_succ_eq_ok ha hv h with ⟨hzero, rfl⟩ | ⟨-, rfl, -⟩ |
      ⟨hne, w, hw, hcoords, hrest⟩
    · rwa [hzero] at hgrows
    · exact hgrows
    · exact hgrows.trans (ih hw (hcoords ▸ round.next hu hne) hrest)

/-- The first product is already an estimate. -/
lemma stretch_le_of_powerIteration (hv : v.length = n)
    (round : Round A u c (Vec.coords n v) estimate)
    (h : a.powerIteration (rounds + 1) v estimate = .ok r) : stretch A (Vec.coords n v) ≤ r := by
  rcases powerIteration_succ_eq_ok ha hv h with ⟨hzero, rfl⟩ | ⟨-, rfl, -⟩ |
    ⟨hne, w, hw, hcoords, hrest⟩
  · exact hzero.le
  · exact le_rfl
  · exact le_of_powerIteration hu ha hw (hcoords ▸ round.next hu hne) hrest

/-- No estimate is above the operator norm. -/
lemma le_norm_of_powerIteration (hv : v.length = n)
    (round : Round A u c (Vec.coords n v) estimate) (hestimate : estimate ≤ ‖A‖)
    (h : a.powerIteration rounds v estimate = .ok r) : r ≤ ‖A‖ := by
  induction rounds generalizing v estimate with
  | zero =>
    obtain rfl := Except.ok.inj h
    exact hestimate
  | succ rounds ih =>
    rcases powerIteration_succ_eq_ok ha hv h with ⟨-, rfl⟩ | ⟨-, rfl, -⟩ |
      ⟨hne, w, hw, hcoords, hrest⟩
    · exact norm_nonneg A
    · exact stretch_le_norm round.unit
    · exact ih hw (hcoords ▸ round.next hu hne) (stretch_le_norm round.unit) hrest

/-- An iteration ends with an estimate near the norm, or it has used up its rounds: then each of
them has brought at most a factor of the final estimate. -/
lemma accurate_of_powerIteration (hc : 0 < c) (hv : v.length = n)
    (round : Round A u c (Vec.coords n v) estimate)
    (h : a.powerIteration rounds v estimate = .ok r) :
    ‖A‖ ^ 2 ≤ (1 + √(3 * powerTolerance / c)) * r ^ 2 ∨
      ‖A‖ ^ rounds * |u ⬝ᵥ Vec.coords n v| ≤ r ^ rounds := by
  induction rounds generalizing v estimate with
  | zero =>
    right
    rw [pow_zero, pow_zero, one_mul, ← sq_le_one_iff_abs_le_one, ← round.unit]
    exact Vec.sq_dotProduct_le hu.unit _
  | succ rounds ih =>
    rcases powerIteration_succ_eq_ok ha hv h with ⟨hzero, rfl⟩ | ⟨hne, rfl, hsettled⟩ |
      ⟨hne, w, hw, hcoords, hrest⟩
    · right
      have hproduct : A *ᵥ Vec.coords n v = 0 := by
        rw [← dotProduct_self_eq_zero, ← stretch_sq, hzero, sq, zero_mul]
      rw [pow_succ, mul_assoc, ← hu.abs_dotProduct_mulVec, hproduct, dotProduct_zero, abs_zero,
        mul_zero, zero_pow (Nat.succ_ne_zero rounds)]
    · left
      exact round.sq_norm_le_of_settled hu hc hne hsettled
    · -- the share grows by the norm over the length of this product, which the estimate bounds
      have hpos : 0 < stretch A (Vec.coords n v) := (stretch_nonneg _ _).lt_of_ne' hne
      have hnext := hcoords ▸ round.next hu hne
      have hle := le_of_powerIteration hu ha hw hnext hrest
      refine (ih hw hnext hrest).imp_right fun hrounds => ?_
      rw [hcoords, hu.abs_dotProduct_scaled] at hrounds
      calc ‖A‖ ^ (rounds + 1) * |u ⬝ᵥ Vec.coords n v|
          = stretch A (Vec.coords n v) * (‖A‖ ^ rounds *
              ((stretch A (Vec.coords n v))⁻¹ * (‖A‖ * |u ⬝ᵥ Vec.coords n v|))) := by
            field_simp
            ring
        _ ≤ stretch A (Vec.coords n v) * r ^ rounds := mul_le_mul_of_nonneg_left hrounds hpos.le
        _ ≤ r * r ^ rounds :=
            mul_le_mul_of_nonneg_right hle (pow_nonneg (hpos.le.trans hle) rounds)
        _ = r ^ (rounds + 1) := (pow_succ' r rounds).symm

end Iteration

/-! ## The starts -/

/-- The coordinates of a basis vector. -/
lemma coords_basisVector (k : Fin n) : Vec.coords n (basisVector n k) = Pi.single k 1 := by
  funext i
  simp [Vec.coords, basisVector, Pi.single_apply, Fin.ext_iff]

/-- A basis vector has length one. -/
lemma norm_basisVector (k : Fin n) : Vec.norm (basisVector n k : Vec ℝ) = 1 := by
  rw [Vec.norm_eq_sqrt (n := n) (by simp [basisVector]), coords_basisVector]
  simp

/-- Scaling leaves a basis vector as it is. -/
lemma coords_normalize_basisVector (k : Fin n) :
    Vec.coords n (Vec.normalize (basisVector n k)) = Pi.single k 1 := by
  have h := Vec.coords_eq_norm_smul (n := n) (v := basisVector n k) (by simp [basisVector])
  rw [norm_basisVector, one_smul, coords_basisVector] at h
  exact h.symm

/-- Every start has length one. -/
lemma dotProduct_self_of_mem_powerStarts [NeZero n] (hv : v ∈ powerStarts n) :
    Vec.coords n v ⬝ᵥ Vec.coords n v = 1 := by
  obtain ⟨start, hstart, rfl⟩ := List.mem_map.1 hv
  have hlength : start.length = n := (Vec.length_normalize start).symm.trans
    (length_of_mem_powerStarts hv)
  apply Vec.normalize_dotProduct_self hlength
  rcases List.mem_cons.1 hstart with rfl | hbasis
  · intro hzero
    -- the first entry of the uneven vector is one
    have hfirst := congrFun (Vec.coords_eq_zero_of_norm hlength hzero) 0
    simp [Vec.coords, unevenVector, NeZero.pos n] at hfirst
  · obtain ⟨k, hk, rfl⟩ := List.mem_map.1 hbasis
    rw [norm_basisVector ⟨k, List.mem_range.1 hk⟩]
    exact one_ne_zero

/-- The first product from a basis vector is a column. -/
lemma stretch_single (A : Matrix (Fin n) (Fin n) ℝ) (k : Fin n) :
    stretch A (Pi.single k 1) = √(∑ i, A i k ^ 2) := by
  rw [stretch, Matrix.mulVec_single_one]
  congr 1
  exact Finset.sum_congr rfl fun i _ => (sq (A i k)).symm

/-- Some basis vector has at least its part of the squared length of a dominant vector. -/
lemma exists_share [NeZero n] (hu : IsDominant A u) :
    ∃ k : Fin n, 1 / (n : ℝ) ≤ (u ⬝ᵥ Pi.single k 1) ^ 2 := by
  have hn : (n : ℝ) ≠ 0 := Nat.cast_ne_zero.2 (NeZero.ne n)
  have hsum : ∑ k : Fin n, 1 / (n : ℝ) ≤ ∑ k, (u ⬝ᵥ Pi.single k 1) ^ 2 := by
    simp only [dotProduct_single_one, Finset.sum_const, Finset.card_univ, Fintype.card_fin,
      nsmul_eq_mul, mul_one_div_cancel hn]
    rw [← hu.unit]
    exact (Finset.sum_congr rfl fun k _ => (sq (u k)).symm).le
  obtain ⟨k, -, hk⟩ := Finset.exists_le_of_sum_le Finset.univ_nonempty hsum
  exact ⟨k, hk⟩

/-! ## The largest estimate -/

/-- What the largest estimate is worth: it is the operator norm at most, at least as long as every
column, and near the norm up to a factor that grows slowly with the dimension `n`. -/
structure EstimatesNorm (A : Matrix (Fin n) (Fin n) ℝ) (r : ℝ) : Prop where
  /-- The estimate is at most the norm. -/
  le_norm : r ≤ ‖A‖
  /-- No column is longer. -/
  column_le : ∀ k, √(∑ i, A i k ^ 2) ≤ r
  /-- Only the zero matrix is estimated as zero. -/
  eq_zero_iff : r = 0 ↔ A = 0
  /-- The estimate has settled, or it is that of a thousand products. -/
  norm_le : ‖A‖ ^ 2 ≤ (1 + √(3 * 1e-12 * n)) * r ^ 2 ∨ ‖A‖ ^ 2000 ≤ n * r ^ 2000

/-- Every start has an estimate, and the result is the largest one. -/
lemma exists_estimates (hheight : a.height = n) (hn : n ≠ 0) (h : a.spectralRadius = .ok r) :
    ∃ estimates : Vec ℝ, r = Vec.peak estimates ∧
      (powerStarts n).mapM (fun start => a.powerIteration powerRounds start 0) = .ok estimates := by
  rw [spectralRadius, if_neg (hheight ▸ hn), hheight] at h
  obtain ⟨estimates, hestimates, hpeak⟩ := Outcome.bind_eq_ok.1 h
  rw [Scalar.literal_zero] at hestimates
  exact ⟨estimates, (Outcome.pure_eq_ok.1 hpeak).symm, hestimates⟩

/-- An iteration whose start has a squared share of one over the dimension ends near the norm. -/
lemma norm_le_of_share [NeZero n] (hu : IsDominant A u) (ha : a.Represents A) (hv : v.length = n)
    (round : Round A u (1 / n) (Vec.coords n v) 0)
    (h : a.powerIteration powerRounds v 0 = .ok r) :
    ‖A‖ ^ 2 ≤ (1 + √(3 * 1e-12 * n)) * r ^ 2 ∨ ‖A‖ ^ 2000 ≤ n * r ^ 2000 := by
  have hn : (0 : ℝ) < n := Nat.cast_pos.2 (NeZero.pos n)
  rcases accurate_of_powerIteration hu ha (one_div_pos.2 hn) hv round h with hsettled | hrounds
  · left
    rwa [div_div_eq_mul_div, div_one, powerTolerance] at hsettled
  · right
    have hsq : ‖A‖ ^ 2000 * (u ⬝ᵥ Vec.coords n v) ^ 2 ≤ r ^ 2000 := by
      have hnonneg : 0 ≤ ‖A‖ ^ powerRounds * |u ⬝ᵥ Vec.coords n v| :=
        mul_nonneg (pow_nonneg (norm_nonneg A) _) (abs_nonneg _)
      have h := pow_le_pow_left₀ hnonneg hrounds 2
      rwa [mul_pow, sq_abs, ← pow_mul, ← pow_mul] at h
    have hshare : ‖A‖ ^ 2000 * (1 / n) ≤ r ^ 2000 :=
      (mul_le_mul_of_nonneg_left round.share (pow_nonneg (norm_nonneg A) _)).trans hsq
    rwa [mul_one_div, div_le_iff₀ hn, mul_comm] at hshare

/-- The estimated radius of a symmetric matrix is near its norm. -/
lemma estimatesNorm_of_spectralRadius (ha : a.Represents A) (hA : A.IsSymm)
    (h : a.spectralRadius = .ok r) : EstimatesNorm A r := by
  rcases Nat.eq_zero_or_pos n with rfl | hn
  · -- without rows the estimate is zero
    obtain rfl : r = 0 := by
      rw [spectralRadius, if_pos ha.height_eq, Scalar.literal_zero] at h
      exact (Except.ok.inj h).symm
    have hzero : A = 0 := Subsingleton.elim A 0
    refine ⟨norm_nonneg A, finZeroElim, iff_of_true rfl hzero, ?_⟩
    left
    simp [hzero]
  · have : NeZero n := ⟨hn.ne'⟩
    obtain ⟨u, hu⟩ := exists_isDominant hA
    obtain ⟨estimates, rfl, hestimates⟩ := exists_estimates ha.height_eq hn.ne' h
    have hround {start : Vec ℝ} (hstart : start ∈ powerStarts n) {c : ℝ}
        (hc : c ≤ (u ⬝ᵥ Vec.coords n start) ^ 2) : Round A u c (Vec.coords n start) 0 :=
      ⟨dotProduct_self_of_mem_powerStarts hstart, hc, .inl rfl⟩
    have hbasis (k : Fin n) : Vec.normalize (basisVector n k) ∈ (powerStarts n : List (Vec ℝ)) :=
      List.mem_map_of_mem (List.mem_cons_of_mem _
        (List.mem_map_of_mem (List.mem_range.2 k.isLt)))
    have hle : Vec.peak estimates ≤ ‖A‖ := by
      refine Vec.peak_le_iff.2 ⟨norm_nonneg A, fun e he => ?_⟩
      obtain ⟨start, hstart, hiteration⟩ := Outcome.exists_of_mem_mapM hestimates he
      exact le_norm_of_powerIteration hu ha (length_of_mem_powerStarts hstart)
        (hround hstart (sq_nonneg _)) (norm_nonneg A) hiteration
    have hcolumn (k : Fin n) : √(∑ i, A i k ^ 2) ≤ Vec.peak estimates := by
      obtain ⟨e, he, hiteration⟩ := Outcome.exists_mem_of_mapM hestimates (hbasis k)
      have hfirst := stretch_le_of_powerIteration hu ha (length_of_mem_powerStarts (hbasis k))
        (hround (hbasis k) (sq_nonneg _)) hiteration
      rw [coords_normalize_basisVector, stretch_single] at hfirst
      exact hfirst.trans (Vec.le_peak he)
    refine ⟨hle, hcolumn, ⟨fun hzero => ?_, fun hzero => ?_⟩, ?_⟩
    · ext i k
      have hlength : √(∑ i, A i k ^ 2) = 0 :=
        le_antisymm (hzero ▸ hcolumn k) (Real.sqrt_nonneg _)
      rw [Real.sqrt_eq_zero (Finset.sum_nonneg fun i _ => sq_nonneg (A i k)),
        Finset.sum_eq_zero_iff_of_nonneg fun i _ => sq_nonneg (A i k)] at hlength
      exact pow_eq_zero_iff two_ne_zero |>.1 (hlength i (Finset.mem_univ i))
    · apply le_antisymm _ (Vec.peak_nonneg estimates)
      rwa [hzero, norm_zero] at hle
    · obtain ⟨k, hk⟩ := exists_share hu
      obtain ⟨e, he, hiteration⟩ := Outcome.exists_mem_of_mapM hestimates (hbasis k)
      have hstart := hround (hbasis k) (coords_normalize_basisVector k ▸ hk)
      have hnonneg : 0 ≤ e := le_of_powerIteration hu ha
        (length_of_mem_powerStarts (hbasis k)) hstart hiteration
      have hpeak := Vec.le_peak he
      refine (norm_le_of_share hu ha (length_of_mem_powerStarts (hbasis k)) hstart hiteration).imp
        (fun h => h.trans ?_) (fun h => h.trans ?_)
      · gcongr
      · gcongr

/-! ## Square matrices and Gram matrices -/

/-- A square list of rows has the products of its matrix. -/
lemma represents_toMatrix (hsquare : a.width = a.height) : a.Represents (a.toMatrix a.height) :=
  ⟨rfl, hsquare, fun _ _ h => ((mulVec_eq_ok hsquare).1 h).2.2⟩

/-- The products of columns are the entries of the Gram matrix. -/
lemma represents_gram (b : DenseMatrix ℝ) :
    b.gram.Represents ((b.toMatrix b.width)ᵀ * b.toMatrix b.width) := by
  have hcount : b.transpose.rows.length = b.width := length_columns b.width b.rows b.length_of_mem
  refine ⟨(List.length_map _).trans hcount, hcount, fun v w h => ?_⟩
  simp only [mulVec, Outcome.bind_eq_ok, Breach.sameLength_eq_ok, Outcome.pure_eq_ok] at h
  obtain ⟨-, hlength, rfl⟩ := h
  funext i
  obtain ⟨c, hc, hcLength, hcCoords⟩ := exists_column (rfl : b.width = b.width) i
  have hrow : (b.transpose.rows.map fun d => Vec.inner c d).length = b.width :=
    (List.length_map _).trans hcount
  have hv : v.length = b.width := hlength.symm.trans hcount
  have hentry : b.gram.rows[(i : ℕ)]? = some (b.transpose.rows.map fun d => Vec.inner c d) := by
    rw [gram, List.getElem?_map, hc, Option.map_some]
  rw [Vec.coords, List.getElem?_map, hentry, Option.map_some, Option.getD_some,
    Vec.inner_eq_dotProduct hrow hv]
  refine Finset.sum_congr rfl fun j _ => ?_
  obtain ⟨d, hd, hdLength, hdCoords⟩ := exists_column (rfl : b.width = b.width) j
  rw [Vec.coords, List.getElem?_map, hd, Option.map_some, Option.getD_some,
    Vec.inner_eq_dotProduct hcLength hdLength, hcCoords, hdCoords]
  rfl

/-- The estimated radius of a symmetric matrix, and that of a Gram matrix. -/
theorem spectralRadius_near_norm :
    (∀ a : DenseMatrix ℝ, 1 ≤ a.height → a.width = a.height → (a.toMatrix a.height).IsSymm →
      ∃ r, a.spectralRadius = .ok r ∧ EstimatesNorm (a.toMatrix a.height) r) ∧
    ∀ b : DenseMatrix ℝ, ∃ r, b.gramSpectralRadius = .ok r ∧
      r ≤ ‖b.toMatrix b.width‖ ^ 2 ∧ (r = 0 ↔ b.toMatrix b.width = 0) ∧
      EstimatesNorm ((b.toMatrix b.width)ᵀ * b.toMatrix b.width) r ∧
      (1 ≤ b.width → IsGreatest (spectrum ℝ ((b.toMatrix b.width)ᵀ * b.toMatrix b.width))
        ‖(b.toMatrix b.width)ᵀ * b.toMatrix b.width‖) := by
  constructor
  · intro a _ hsquare hsymm
    obtain ⟨r, hr, -⟩ := returns_spectralRadius hsquare.symm
    exact ⟨r, hr, estimatesNorm_of_spectralRadius (represents_toMatrix hsquare) hsymm hr⟩
  · intro b
    set B := b.toMatrix b.width
    obtain ⟨r, hr, -⟩ := returns_gramSpectralRadius b
    have hsymm : (Bᵀ * B).IsSymm := by
      rw [Matrix.IsSymm, Matrix.transpose_mul, Matrix.transpose_transpose]
    have hestimates : EstimatesNorm (Bᵀ * B) r :=
      estimatesNorm_of_spectralRadius b.represents_gram hsymm hr
    have hgram : Bᴴ * B = Bᵀ * B := by rw [Matrix.conjTranspose_eq_transpose_of_trivial]
    refine ⟨r, hr, ?_, ?_, hestimates, fun hwidth => ?_⟩
    · rw [sq, ← Matrix.l2_opNorm_conjTranspose_mul_self, hgram]
      exact hestimates.le_norm
    · rw [hestimates.eq_zero_iff, ← hgram, Matrix.conjTranspose_mul_self_eq_zero]
    · have : NeZero b.width := ⟨Nat.one_le_iff_ne_zero.1 hwidth⟩
      rw [← hgram]
      exact isGreatest_spectrum_norm (Matrix.posSemidef_conjTranspose_mul_self B)

/-- The exchange of two coordinates, with eigenvalues of both signs. -/
noncomputable def exchange : DenseMatrix ℝ := ⟨2, [[0, 1], [1, 0]], by simp⟩

/-- The estimated radius of the exchange is at least one, the length of its columns. -/
theorem spectralRadius_near_norm_exchange :
    1 ≤ exchange.height ∧ exchange.width = exchange.height ∧
      (exchange.toMatrix exchange.height).IsSymm ∧
      (∃ r, exchange.spectralRadius = .ok r ∧ 1 ≤ r ∧
        EstimatesNorm (exchange.toMatrix exchange.height) r) ∧
      1 ≤ exchange.width ∧ ∃ r, exchange.gramSpectralRadius = .ok r ∧
        EstimatesNorm ((exchange.toMatrix exchange.width)ᵀ * exchange.toMatrix exchange.width) r ∧
        IsGreatest (spectrum ℝ ((exchange.toMatrix exchange.width)ᵀ *
            exchange.toMatrix exchange.width))
          ‖(exchange.toMatrix exchange.width)ᵀ * exchange.toMatrix exchange.width‖ := by
  have hheight : 1 ≤ exchange.height := one_le_two
  have hwidth : 1 ≤ exchange.width := one_le_two
  have hsymm : (exchange.toMatrix exchange.height).IsSymm := by
    ext i j
    change Fin 2 at i
    change Fin 2 at j
    fin_cases i <;> fin_cases j <;> rfl
  obtain ⟨r, hr, hestimates⟩ := spectralRadius_near_norm.1 exchange hheight rfl hsymm
  obtain ⟨r', hr', -, -, hestimates', hgreatest⟩ := spectralRadius_near_norm.2 exchange
  have hcolumn : 1 ≤ r := by
    have hsum : ∑ i : Fin 2, exchange.toMatrix 2 i 0 ^ 2 = 1 := by
      have hzero : exchange.toMatrix 2 (0 : Fin 2) 0 = 0 := rfl
      have hone : exchange.toMatrix 2 (1 : Fin 2) 0 = 1 := rfl
      rw [Fin.sum_univ_two, hzero, hone]
      norm_num
    calc (1 : ℝ) = √(∑ i : Fin 2, exchange.toMatrix 2 i 0 ^ 2) := by rw [hsum, Real.sqrt_one]
      _ ≤ r := hestimates.column_le (0 : Fin 2)
  exact ⟨hheight, rfl, hsymm, ⟨r, hr, hcolumn, hestimates⟩, hwidth, r', hr', hestimates',
    hgreatest hwidth⟩

end DenseMatrix

end HopfieldDescent

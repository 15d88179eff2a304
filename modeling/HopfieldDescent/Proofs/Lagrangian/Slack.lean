import Mathlib
import HopfieldDescent.Proofs.Dual.Projection
import HopfieldDescent.Proofs.Lagrangian.Expansion

/-!
# Updates of the slack

An update of the slack keeps the number of slacks and leaves none of them above zero.  What the
inequalities add is a sum over the rows, and in each row a parabola of the slack with its lowest
point at `PenalizedBlock.level`.  The update goes to that point, cut off at zero, from wherever it
begins.  From there to any other slack of at most zero the sum grows by half the penalty times the
squared distance, at least (`Lagrangian.term_add_le_of_updateSlack`).
-/

open scoped Matrix

namespace HopfieldDescent

namespace PenalizedBlock

/-- What a block adds is a sum over its rows. -/
lemma term_eq_sum (p : PenalizedBlock ℝ) (r : p.Residual) :
    p.term r = ∑ i, (Vec.coords _ p.dual i * r i + p.penalty / 2 * r i ^ 2) := by
  rw [term, Scalar.literal_half, dotProduct, dotProduct, Finset.mul_sum, ← Finset.sum_add_distrib]
  exact Finset.sum_congr rfl fun i _ => by ring

/-- The slacks at which the parabolas of the rows are lowest. -/
noncomputable def level (p : PenalizedBlock ℝ) (n : ℕ) (x : Vec ℝ) : p.Residual :=
  p.residualAt n x [] + p.penalty⁻¹ • Vec.coords _ p.dual

/-- The residual is measured from the slack. -/
lemma residualAt_eq_sub (p : PenalizedBlock ℝ) (n : ℕ) (x slack : Vec ℝ) :
    p.residualAt n x slack = p.residualAt n x [] - Vec.coords _ slack := by
  rw [residualAt, residualAt, Vec.coords_nil, sub_zero]

/-- From any slack, the weights over the penalty lead to the lowest points. -/
lemma add_weight_div (p : PenalizedBlock ℝ) (hpenalty : p.penalty ≠ 0) (n : ℕ) (x slack : Vec ℝ)
    (i : Fin p.block.matrix.height) : Vec.coords _ slack i +
      p.weight (p.residualAt n x slack) i / p.penalty = p.level n x i := by
  simp only [weight, level, p.residualAt_eq_sub n x slack, Pi.add_apply, Pi.smul_apply,
    Pi.sub_apply, smul_eq_mul]
  field_simp
  ring

/-- What a block adds at two slacks differs by half the penalty times the difference of their
squared distances from the lowest points. -/
lemma term_sub_term (p : PenalizedBlock ℝ) (hpenalty : p.penalty ≠ 0) (n : ℕ)
    (x slack slack' : Vec ℝ) :
    p.term (p.residualAt n x slack) - p.term (p.residualAt n x slack') =
      ∑ i, p.penalty / 2 * ((p.level n x i - Vec.coords _ slack i) ^ 2 -
        (p.level n x i - Vec.coords _ slack' i) ^ 2) := by
  rw [term_eq_sum, term_eq_sum, ← Finset.sum_sub_distrib]
  refine Finset.sum_congr rfl fun i _ => ?_
  simp only [level, p.residualAt_eq_sub n x slack, p.residualAt_eq_sub n x slack', Pi.add_apply,
    Pi.smul_apply, Pi.sub_apply, smul_eq_mul]
  field_simp
  ring

/-- In one row, the distance from the lowest point grows from the value cut off at zero to any other
of at most zero by the square of the step. -/
lemma row_add_le {w s : ℝ} (hs : s ≤ 0) :
    (s - min w 0) ^ 2 ≤ (w - s) ^ 2 - (w - min w 0) ^ 2 := by
  have hobtuse := InnerDescent.min_obtuse hs w
  have hsquare : (w - s) ^ 2 =
      (w - min w 0) ^ 2 + (s - min w 0) ^ 2 - 2 * ((w - min w 0) * (s - min w 0)) := by
    ring
  linarith

end PenalizedBlock

namespace Lagrangian

variable {l : Lagrangian ℝ} {p : PenalizedBlock ℝ} {n : ℕ} {x slack slack' : Vec ℝ}

/-- An updated slack is at most zero. -/
lemma nonpos_of_updateSlack (h : l.updateSlack x slack = .ok slack') : ∀ s ∈ slack', s ≤ 0 := by
  unfold updateSlack at h
  split at h
  · simp only [Outcome.bind_eq_ok, Vec.zipExact_eq_ok] at h
    obtain ⟨gradient, -, -, rfl⟩ := h
    intro s hs
    obtain ⟨i, hi, rfl⟩ := List.mem_iff_getElem.1 hs
    rw [List.getElem_zipWith, Scalar.minNum_real]
    refine (min_le_right _ _).trans ?_
    norm_num
  · obtain rfl := Except.ok.inj h
    simp

/-- Updating the slack of inequalities that take part keeps their number. -/
lemma length_of_updateSlack (hp : l.inequality = some p)
    (h : l.updateSlack x slack = .ok slack') : slack'.length = slack.length := by
  simp only [updateSlack, hp, Outcome.bind_eq_ok] at h
  obtain ⟨gradient, -, h⟩ := h
  exact (Vec.length_of_zipExact h).1

/-- The gradient by the slack goes against the weights of the inequalities. -/
lemma coords_of_slackGradient (hi : l.inequality = some p) (hp : p.Fits n)
    (hlength : slack.length = p.block.height) {gradient : Vec ℝ}
    (h : l.slackGradient x slack = .ok gradient) :
    gradient.length = p.block.matrix.height ∧
      Vec.coords _ gradient = -p.weight (p.residualAt n x slack) := by
  simp only [slackGradient, hi, Outcome.bind_eq_ok, Outcome.pure_eq_ok] at h
  obtain ⟨r, hr, weight, hweight, rfl⟩ := h
  obtain ⟨-, hrlength, hcoords⟩ := PenalizedBlock.slackResidual_eq_ok hp hlength hr
  obtain ⟨hwlength, hwcoords⟩ := PenalizedBlock.multiplier_eq_ok hp hrlength hweight
  have hheight : weight.length = p.block.matrix.height := hwlength
  refine ⟨by simp [Vec.neg, hheight], funext fun i => ?_⟩
  rw [Vec.neg, Vec.coords_map hheight, hwcoords, hcoords, Pi.neg_apply]

/-- Where an update of the slack leads does not depend on where it begins: in each row it is the
lowest point, cut off at zero. -/
lemma coords_of_updateSlack (hi : l.inequality = some p) (hp : p.Fits n)
    (hpenalty : p.penalty ≠ 0) (hlength : slack.length = p.block.height)
    (h : l.updateSlack x slack = .ok slack') (i : Fin p.block.matrix.height) :
    Vec.coords _ slack' i = min (p.level n x i) 0 := by
  simp only [updateSlack, hi, Outcome.bind_eq_ok, Vec.zipExact_eq_ok] at h
  obtain ⟨gradient, hgradient, -, rfl⟩ := h
  obtain ⟨hglength, hcoords⟩ := coords_of_slackGradient hi hp hlength hgradient
  have hheight : slack.length = p.block.matrix.height := hlength
  rw [Vec.coords_zipWith hheight hglength, hcoords, Scalar.minNum_real, Scalar.literal_one,
    Scalar.literal_zero, Pi.neg_apply, ← p.add_weight_div hpenalty n x slack i]
  congr 1
  ring

/-- From an updated slack to any other of at most zero, what the inequalities add grows by half the
penalty times the squared distance. -/
lemma term_add_le_of_updateSlack (hi : l.inequality = some p) (hp : p.Fits n)
    (hpenalty : 0 < p.penalty) {first : Vec ℝ} (hfirst : first.length = p.block.height)
    (h : l.updateSlack x first = .ok slack') (hlength : slack.length = p.block.height)
    (hnonpos : ∀ s ∈ slack, s ≤ 0) :
    p.term (p.residualAt n x slack') + p.penalty / 2 *
        (Vec.displacement p.block.matrix.height slack' slack ⬝ᵥ Vec.displacement _ slack' slack) ≤
      p.term (p.residualAt n x slack) := by
  rw [← le_sub_iff_add_le', p.term_sub_term hpenalty.ne', dotProduct, Finset.mul_sum]
  refine Finset.sum_le_sum fun i _ => mul_le_mul_of_nonneg_left ?_ (half_pos hpenalty).le
  have hs : Vec.coords _ slack i ≤ 0 := hnonpos _ (Vec.coords_mem hlength i)
  rw [Vec.displacement, Pi.sub_apply, ← sq, coords_of_updateSlack hi hp hpenalty.ne' hfirst h]
  exact PenalizedBlock.row_add_le hs

/-- An update of the slack does not increase what the inequalities add. -/
lemma term_le_of_updateSlack (hi : l.inequality = some p) (hp : p.Fits n)
    (hpenalty : 0 < p.penalty) (hlength : slack.length = p.block.height)
    (hnonpos : ∀ s ∈ slack, s ≤ 0) (h : l.updateSlack x slack = .ok slack') :
    p.term (p.residualAt n x slack') ≤ p.term (p.residualAt n x slack) := by
  have hgrowth := term_add_le_of_updateSlack hi hp hpenalty hlength h hlength hnonpos
  have hsquare := mul_nonneg (half_pos hpenalty).le
    (Vec.dotProduct_self_nonneg (Vec.displacement p.block.matrix.height slack' slack))
  linarith

end Lagrangian

end HopfieldDescent

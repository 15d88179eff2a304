import Mathlib
import HopfieldDescent.Scalar

/-!
# Exact scalars

The real numbers as scalars: every operation is the function it approximates in double precision,
no value is missing or infinite, and comparison is total.  Statements about exact arithmetic are
statements about this instance.

The lemmas say what the derived operations and the literals of the library are over the reals, so
that proofs can leave the operations of the class for those of Mathlib at once.
-/

namespace HopfieldDescent

noncomputable instance : Scalar ℝ where
  decidableLT := Real.decidableLT
  decidableLE := Real.decidableLE
  ofNat := fun n => n
  isNaN := fun _ => false
  isFinite := fun _ => true
  abs := fun a => |a|
  sqrt := Real.sqrt
  hypot := fun a b => Real.sqrt (a ^ 2 + b ^ 2)
  exp := Real.exp
  log := Real.log
  logOnePlus := fun a => Real.log (1 + a)
  sin := Real.sin
  arcsin := Real.arcsin
  tan := Real.tan
  tanh := Real.tanh
  quarterPi := Real.pi / 4
  logTwo := Real.log 2

namespace Scalar

/-! ## Literals -/

@[simp] lemma literal_zero : (0.0 : ℝ) = 0 := by norm_num

@[simp] lemma literal_one : (1.0 : ℝ) = 1 := by norm_num

@[simp] lemma literal_two : (2.0 : ℝ) = 2 := by norm_num

@[simp] lemma literal_half : (0.5 : ℝ) = 1 / 2 := by norm_num

/-! ## Operations -/

/-- No real number is missing. -/
@[simp] lemma isNaN_real (a : ℝ) : isNaN a = false := rfl

/-- Every real number is finite. -/
@[simp] lemma isFinite_real (a : ℝ) : isFinite a = true := rfl

@[simp] lemma abs_real (a : ℝ) : abs a = |a| := rfl

@[simp] lemma sqrt_real (a : ℝ) : sqrt a = Real.sqrt a := rfl

@[simp] lemma exp_real (a : ℝ) : exp a = Real.exp a := rfl

@[simp] lemma log_real (a : ℝ) : log a = Real.log a := rfl

@[simp] lemma logOnePlus_real (a : ℝ) : logOnePlus a = Real.log (1 + a) := rfl

@[simp] lemma sin_real (a : ℝ) : sin a = Real.sin a := rfl

@[simp] lemma arcsin_real (a : ℝ) : arcsin a = Real.arcsin a := rfl

@[simp] lemma tan_real (a : ℝ) : tan a = Real.tan a := rfl

@[simp] lemma tanh_real (a : ℝ) : tanh a = Real.tanh a := rfl

@[simp] lemma quarterPi_real : (quarterPi : ℝ) = Real.pi / 4 := rfl

@[simp] lemma logTwo_real : (logTwo : ℝ) = Real.log 2 := rfl

@[simp] lemma ofNat_real (n : ℕ) : (ofNat n : ℝ) = n := rfl

@[simp] lemma square_real (a : ℝ) : square a = a ^ 2 := (sq a).symm

/-! ## Derived operations -/

/-- Without missing values the larger of two values is their maximum. -/
@[simp] lemma maxNum_real (a b : ℝ) : maxNum a b = max a b := by
  unfold maxNum
  rcases lt_or_ge a b with h | h
  · rw [if_pos h, max_eq_right h.le]
  · rw [if_neg h.not_gt, max_eq_left h, isNaN_real, if_neg Bool.false_ne_true]

/-- Without missing values the smaller of two values is their minimum. -/
@[simp] lemma minNum_real (a b : ℝ) : minNum a b = min a b := by
  unfold minNum
  rcases lt_or_ge b a with h | h
  · rw [if_pos h, min_eq_right h.le]
  · rw [if_neg h.not_gt, min_eq_left h, isNaN_real, if_neg Bool.false_ne_true]

/-- Clamping to an interval that is not empty. -/
lemma clamp_real {lo hi : ℝ} (h : lo ≤ hi) (v : ℝ) : clamp lo hi v = max lo (min v hi) := by
  unfold clamp
  split_ifs with hlo hhi
  · rw [min_eq_left (hlo.le.trans h), max_eq_left hlo.le]
  · rw [min_eq_right hhi.le, max_eq_right h]
  · rw [min_eq_left (not_lt.1 hhi), max_eq_right (not_lt.1 hlo)]

/-- A clamped value lies in the interval. -/
lemma clamp_mem_Icc {lo hi : ℝ} (h : lo ≤ hi) (v : ℝ) : clamp lo hi v ∈ Set.Icc lo hi := by
  rw [clamp_real h]
  exact ⟨le_max_left _ _, max_le h (min_le_right _ _)⟩

/-- A value of the interval is not moved. -/
lemma clamp_of_mem_Icc {lo hi v : ℝ} (hv : v ∈ Set.Icc lo hi) : clamp lo hi v = v := by
  rw [clamp_real (hv.1.trans hv.2), min_eq_left hv.2, max_eq_right hv.1]

@[simp] lemma isPositive_real (a : ℝ) : isPositive a = decide (0 < a) := by
  rw [isPositive, isFinite_real, Bool.true_and]
  norm_num

@[simp] lemma isNonnegative_real (a : ℝ) : isNonnegative a = decide (0 ≤ a) := by
  rw [isNonnegative, isFinite_real, Bool.true_and]
  norm_num

@[simp] lemma inUnitInterval_real (a : ℝ) :
    inUnitInterval a = (decide (0 ≤ a) && decide (a ≤ 1)) := by
  unfold inUnitInterval
  norm_num

end Scalar

end HopfieldDescent

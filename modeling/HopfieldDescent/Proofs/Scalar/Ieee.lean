import Mathlib
import HopfieldDescent.Proofs.Scalar.Exact

/-!
# Comparison of scalars that may be missing

What the comparison of scalars promises when one of them may be *not a number*: every comparison
with it is false, and the others are ranked.  `IeeeComparison` collects these promises.  They are
all that is asked of rounded arithmetic where a result depends on comparisons alone, and the
arithmetic operations do not occur in them.

The larger of two scalars drops an operand that is not a number, so that it lies below a bound as
soon as one operand does and the other one is missing (`maxNum_lt_iff`).

Two promises more make the numbers a linear order with zero among them, `IeeeOrder`.  They are used
where a value is cut off at zero, which leaves nothing below zero and nothing that is missing
(`zero_le_maxNum`).  Scalars whose numbers are compared by their places in a linear order keep all
of them (`IeeeOrder.of_rank`).  That there is no bound on what is missing is a promise of its own,
`IeeeBound`.
-/

namespace HopfieldDescent

/-- Comparison is false as soon as an operand is not a number, and ranks the others. -/
class IeeeComparison (R : Type) [Scalar R] : Prop where
  /-- Strict comparison implies weak comparison. -/
  le_of_lt : ∀ {a b : R}, a < b → a ≤ b
  /-- What lies below another value is a number. -/
  isNaN_left : ∀ {a b : R}, a < b → Scalar.isNaN a = false
  /-- What lies above another value is a number. -/
  isNaN_right : ∀ {a b : R}, a < b → Scalar.isNaN b = false
  /-- Strict comparison is transitive. -/
  lt_trans : ∀ {a b c : R}, a < b → b < c → a < c
  /-- A number lies above the lower of two values or below the upper one. -/
  lt_or_lt : ∀ {a c : R} (b : R), a < c → Scalar.isNaN b = false → a < b ∨ b < c

/-- The numbers are ordered linearly, and zero is one of them. -/
class IeeeOrder (R : Type) [Scalar R] : Prop extends IeeeComparison R where
  /-- Of two numbers one is at most the other. -/
  le_of_not_lt : ∀ {a b : R}, Scalar.isNaN a = false → Scalar.isNaN b = false → ¬b < a → a ≤ b
  /-- Nothing lies below itself. -/
  lt_irrefl : ∀ a : R, ¬a < a
  /-- Zero is a number. -/
  isNaN_zero : Scalar.isNaN (0.0 : R) = false

/-- Where numbers are compared by their places in a linear order, and nothing else is compared, all
promises are kept. -/
lemma IeeeOrder.of_rank {R L : Type} [Scalar R] [LinearOrder L] (rank : R → L)
    (hlt : ∀ {a b : R}, a < b ↔
      Scalar.isNaN a = false ∧ Scalar.isNaN b = false ∧ rank a < rank b)
    (hle : ∀ {a b : R}, a ≤ b ↔
      Scalar.isNaN a = false ∧ Scalar.isNaN b = false ∧ rank a ≤ rank b)
    (hzero : Scalar.isNaN (0.0 : R) = false) : IeeeOrder R where
  le_of_lt h := hle.2 ⟨(hlt.1 h).1, (hlt.1 h).2.1, (hlt.1 h).2.2.le⟩
  isNaN_left h := (hlt.1 h).1
  isNaN_right h := (hlt.1 h).2.1
  lt_trans h h' := hlt.2 ⟨(hlt.1 h).1, (hlt.1 h').2.1, (hlt.1 h).2.2.trans (hlt.1 h').2.2⟩
  lt_or_lt b h hb := by
    obtain ⟨ha, hc, hrank⟩ := hlt.1 h
    rcases lt_or_ge (rank _) (rank b) with hab | hba
    · exact .inl (hlt.2 ⟨ha, hb, hab⟩)
    · exact .inr (hlt.2 ⟨hb, hc, hba.trans_lt hrank⟩)
  le_of_not_lt ha hb h := hle.2 ⟨ha, hb, not_lt.1 fun hrank => h (hlt.2 ⟨hb, ha, hrank⟩)⟩
  lt_irrefl _ h := (hlt.1 h).2.2.false
  isNaN_zero := hzero

instance : IeeeOrder ℝ :=
  IeeeOrder.of_rank id (by simp) (by simp) rfl

/-- What is at most another value is a number. -/
class IeeeBound (R : Type) [Scalar R] : Prop where
  /-- There is no bound on what is not a number. -/
  isNaN_of_le : ∀ {a b : R}, a ≤ b → Scalar.isNaN a = false

instance : IeeeBound ℝ where
  isNaN_of_le _ := rfl

namespace Scalar

section Comparison

variable {R : Type} [Scalar R] [IeeeComparison R] {a b c : R}

/-- The larger of two values lies below a bound when each one does or is missing, and not both are
missing. -/
lemma maxNum_lt_iff : maxNum a b < c ↔
    (a < c ∨ isNaN a = true) ∧ (b < c ∨ isNaN b = true) ∧ ¬(isNaN a = true ∧ isNaN b = true) := by
  unfold maxNum
  split_ifs with hlt hmissing
  · -- both are numbers, and the second one is the larger
    have ha := IeeeComparison.isNaN_left hlt
    have hb := IeeeComparison.isNaN_right hlt
    simp only [ha, hb, Bool.false_eq_true, or_false, and_false, not_false_eq_true, and_true]
    exact ⟨fun h => ⟨IeeeComparison.lt_trans hlt h, h⟩, And.right⟩
  · -- the first one is dropped
    simp only [hmissing, or_true, true_and, Bool.not_eq_true]
    exact ⟨fun h => ⟨.inl h, IeeeComparison.isNaN_left h⟩,
      fun h => h.1.resolve_right (by simp [h.2])⟩
  · -- the second one is not larger, or it is dropped
    simp only [hmissing, Bool.false_eq_true, or_false, false_and, not_false_eq_true, and_true]
    refine ⟨fun h => ⟨h, ?_⟩, And.left⟩
    by_cases hb : isNaN b = true
    · exact .inr hb
    · exact .inl ((IeeeComparison.lt_or_lt b h (Bool.eq_false_iff.2 hb)).resolve_left hlt)

end Comparison

/-- A value that is cut off at zero is not below zero, even if it is not a number. -/
lemma zero_le_maxNum {R : Type} [Scalar R] [IeeeOrder R] (v : R) : 0.0 ≤ maxNum v 0.0 := by
  have hzero := IeeeOrder.le_of_not_lt IeeeOrder.isNaN_zero IeeeOrder.isNaN_zero
    (IeeeOrder.lt_irrefl (0.0 : R))
  unfold maxNum
  split_ifs with hlt hmissing
  · exact hzero
  · exact hzero
  · exact IeeeOrder.le_of_not_lt IeeeOrder.isNaN_zero (Bool.eq_false_iff.2 hmissing) hlt

end Scalar

end HopfieldDescent

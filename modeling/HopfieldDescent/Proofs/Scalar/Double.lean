import Mathlib
import HopfieldDescent.Proofs.Scalar.Ieee
import HopfieldDescent.Scalar.Double

/-!
# Comparison of double precision scalars

Double precision scalars keep the promises of `IeeeBound`, `IeeeComparison` and `IeeeOrder`, so that
what is proved from these holds on the scalars of the library itself.

An unpacked scalar is an infinity, a zero, or a sign with a mantissa and an exponent, if it is a
number.  `Double.rank` gives it a place in a lexicographic order, in which the two zeros are one,
and comparison is that of the places (`Double.compare_eq`).
-/

open Float.Model (UnpackedFloat)

namespace HopfieldDescent

namespace Double

/-- The place of a number: the sign or the infinity first, then the exponent, then the mantissa.
Below zero the larger exponent and the larger mantissa come first. -/
def rank : UnpackedFloat → ℤ ×ₗ ℤ ×ₗ ℤ
  | .infinity .negative => toLex (-2, toLex (0, 0))
  | .finite .negative mantissa exponent _ => toLex (-1, toLex (-exponent, -mantissa))
  | .zero _ => toLex (0, toLex (0, 0))
  | .finite .positive mantissa exponent _ => toLex (1, toLex (exponent, mantissa))
  | .infinity .positive => toLex (2, toLex (0, 0))
  | .notANumber => toLex (0, toLex (0, 0))

/-- Pairs are compared by their second parts where the first ones agree. -/
lemma compare_toLex {α β : Type} [Ord α] [Ord β] (p q : α × β) :
    compare (toLex p) (toLex q) = (compare p.1 q.1).then (compare p.2 q.2) := by
  rw [Prod.Lex.compare_def]
  rfl

/-- Numbers are compared by their places, and nothing else is compared. -/
lemma compare_eq (a b : UnpackedFloat) :
    a.compare b = if a.isNaN || b.isNaN then none else some (compare (rank a) (rank b)) := by
  have hcast (m n : ℕ) : compare (m : ℤ) n = compare m n := by
    simp only [Int.compare_eq_ite_lt, Nat.compare_eq_ite_lt, Nat.cast_lt]
  have hneg (a b : ℤ) : compare (-a) (-b) = (compare a b).swap := by
    rw [← Std.OrientedOrd.eq_swap]
    simp only [Int.compare_eq_ite_lt, neg_lt_neg_iff]
  -- the first parts decide, unless both are finite and of one sign
  rcases a with ⟨_ | _⟩ | _ | _ | ⟨_ | _, m, e, hm⟩ <;>
    rcases b with ⟨_ | _⟩ | _ | _ | ⟨_ | _, n, f, hn⟩ <;> try rfl
  · simp only [UnpackedFloat.compare, UnpackedFloat.isNaN, rank, compare_toLex, hneg, hcast,
      Ordering.swap_then]
    rfl
  · simp only [UnpackedFloat.compare, UnpackedFloat.isNaN, rank, compare_toLex, hcast]
    rfl

/-- To lie below is to have a lower place, for numbers. -/
lemma lt_iff {a b : Float} : a < b ↔ Scalar.isNaN a = false ∧ Scalar.isNaN b = false ∧
    rank a.toModel.unpack < rank b.toModel.unpack := by
  have hlt : a < b ↔ a.toModel.unpack.lt b.toModel.unpack = true := decide_eq_true_iff
  rw [hlt, UnpackedFloat.lt, compare_eq, ← compare_lt_iff_lt]
  change _ ↔ a.toModel.unpack.isNaN = false ∧ b.toModel.unpack.isNaN = false ∧ _
  cases a.toModel.unpack.isNaN <;> cases b.toModel.unpack.isNaN <;> simp

/-- To lie at most at a bound is to have a place that is not higher, for numbers. -/
lemma le_iff {a b : Float} : a ≤ b ↔ Scalar.isNaN a = false ∧ Scalar.isNaN b = false ∧
    rank a.toModel.unpack ≤ rank b.toModel.unpack := by
  have hle : a ≤ b ↔ a.toModel.unpack.le b.toModel.unpack = true := decide_eq_true_iff
  rw [hle, UnpackedFloat.le, compare_eq, ← compare_le_iff_le]
  change _ ↔ a.toModel.unpack.isNaN = false ∧ b.toModel.unpack.isNaN = false ∧ _
  cases a.toModel.unpack.isNaN <;> cases b.toModel.unpack.isNaN <;>
    simp [Ordering.isLE_iff_ne_gt]

end Double

instance : IeeeBound Float where
  isNaN_of_le h := (Double.le_iff.1 h).1

instance : IeeeOrder Float :=
  IeeeOrder.of_rank (fun a : Float => Double.rank a.toModel.unpack) Double.lt_iff Double.le_iff rfl

end HopfieldDescent

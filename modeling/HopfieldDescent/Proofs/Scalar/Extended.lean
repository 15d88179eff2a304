import Mathlib
import HopfieldDescent.Proofs.Scalar.Ieee

/-!
# Extended scalars

The real numbers with two infinities and a value that is *not a number*.  The operations follow the
special cases of floating point arithmetic: what has no limit is not a number, such as the
difference of two infinities of one sign, and an operand that is not a number spoils the result.
There is neither rounding nor overflow, and zero has no sign.

On extended scalars one can say what a run does with a gradient that leaves the finite numbers.
-/

namespace HopfieldDescent

/-- A real number, an infinity of either sign, or not a number. -/
inductive Extended where
  /-- Not a number. -/
  | nan
  /-- An infinity. -/
  | infinite (negative : Bool)
  /-- A real number. -/
  | finite (value : ℝ)

namespace Extended

/-! ## Operations -/

/-- Sum; infinities of different signs have none. -/
noncomputable def add : Extended → Extended → Extended
  | finite a, finite b => finite (a + b)
  | infinite s, finite _ => infinite s
  | finite _, infinite t => infinite t
  | infinite s, infinite t => if s = t then infinite s else nan
  | nan, _ => nan
  | _, nan => nan

/-- The value with its sign changed. -/
noncomputable def neg : Extended → Extended
  | finite a => finite (-a)
  | infinite s => infinite !s
  | nan => nan

/-- Product; zero and an infinity have none. -/
noncomputable def mul : Extended → Extended → Extended
  | finite a, finite b => finite (a * b)
  | infinite s, finite b => if b = 0 then nan else infinite (s != decide (b < 0))
  | finite a, infinite t => if a = 0 then nan else infinite (decide (a < 0) != t)
  | infinite s, infinite t => infinite (s != t)
  | nan, _ => nan
  | _, nan => nan

/-- Quotient; zero has none by zero, and an infinity has none by an infinity. -/
noncomputable def div : Extended → Extended → Extended
  | finite a, finite b =>
    if b = 0 then if a = 0 then nan else infinite (decide (a < 0)) else finite (a / b)
  | infinite s, finite b => infinite (s != decide (b < 0))
  | finite _, infinite _ => finite 0
  | infinite _, infinite _ => nan
  | nan, _ => nan
  | _, nan => nan

/-- Strict comparison. -/
def lt : Extended → Extended → Prop
  | finite a, finite b => a < b
  | infinite s, finite _ => s = true
  | finite _, infinite t => t = false
  | infinite s, infinite t => s = true ∧ t = false
  | nan, _ => False
  | _, nan => False

/-- Weak comparison. -/
def le : Extended → Extended → Prop
  | finite a, finite b => a ≤ b
  | infinite s, finite _ => s = true
  | finite _, infinite t => t = false
  | infinite s, infinite t => s = true ∨ t = false
  | nan, _ => False
  | _, nan => False

/-- Equality, in which nothing equals what is not a number. -/
noncomputable def beq : Extended → Extended → Bool
  | finite a, finite b => decide (a = b)
  | infinite s, infinite t => s == t
  | _, _ => false

/-- A function of the reals with its limits at the two infinities. -/
def extend (f : ℝ → Extended) (top bottom : Extended) : Extended → Extended
  | finite a => f a
  | infinite false => top
  | infinite true => bottom
  | nan => nan

/-- Length of the hypotenuse; infinite as soon as one side is. -/
noncomputable def hypot : Extended → Extended → Extended
  | finite a, finite b => finite (Real.sqrt (a ^ 2 + b ^ 2))
  | infinite _, _ => infinite false
  | _, infinite _ => infinite false
  | nan, _ => nan
  | _, nan => nan

open Classical in
noncomputable instance : Scalar Extended where
  add := add
  sub a b := add a (neg b)
  mul := mul
  div := div
  neg := neg
  lt := lt
  le := le
  beq := beq
  ofScientific mantissa exponentSign exponent :=
    finite (OfScientific.ofScientific mantissa exponentSign exponent)
  decidableLT := fun _ _ => inferInstance
  decidableLE := fun _ _ => inferInstance
  ofNat n := finite n
  isNaN
    | nan => true
    | _ => false
  isFinite
    | finite _ => true
    | _ => false
  abs := extend (fun a => finite |a|) (infinite false) (infinite false)
  sqrt := extend (fun a => if a < 0 then nan else finite (Real.sqrt a)) (infinite false) nan
  hypot := hypot
  exp := extend (fun a => finite (Real.exp a)) (infinite false) (finite 0)
  log := extend (fun a => if a < 0 then nan else if a = 0 then infinite true
    else finite (Real.log a)) (infinite false) nan
  logOnePlus := extend (fun a => if a < -1 then nan else if a = -1 then infinite true
    else finite (Real.log (1 + a))) (infinite false) nan
  sin := extend (fun a => finite (Real.sin a)) nan nan
  arcsin := extend (fun a => if |a| ≤ 1 then finite (Real.arcsin a) else nan) nan nan
  tan := extend (fun a => finite (Real.tan a)) nan nan
  tanh := extend (fun a => finite (Real.tanh a)) (finite 1) (finite (-1))
  quarterPi := finite Scalar.quarterPi
  logTwo := finite Scalar.logTwo

noncomputable instance : UnboundedScalar Extended where
  infinity := infinite false

/-! ## Real numbers among them -/

variable {a b : ℝ} {x : Extended}

@[simp] lemma literal (mantissa : ℕ) (exponentSign : Bool) (exponent : ℕ) :
    (OfScientific.ofScientific mantissa exponentSign exponent : Extended) =
      finite (OfScientific.ofScientific mantissa exponentSign exponent) := rfl

@[simp] lemma finite_add : finite a + finite b = finite (a + b) := rfl

@[simp] lemma finite_sub : finite a - finite b = finite (a - b) := rfl

@[simp] lemma finite_mul : finite a * finite b = finite (a * b) := rfl

@[simp] lemma neg_finite : -finite a = finite (-a) := rfl

@[simp] lemma finite_div (h : b ≠ 0) : finite a / finite b = finite (a / b) := if_neg h

@[simp] lemma finite_lt : finite a < finite b ↔ a < b := Iff.rfl

@[simp] lemma finite_le : finite a ≤ finite b ↔ a ≤ b := Iff.rfl

@[simp] lemma finite_beq : (finite a == finite b) = decide (a = b) := rfl

@[simp] lemma isFinite_finite : Scalar.isFinite (finite a) = true := rfl

@[simp] lemma isNaN_finite : Scalar.isNaN (finite a) = false := rfl

@[simp] lemma abs_finite : Scalar.abs (finite a) = finite |a| := rfl

@[simp] lemma sqrt_finite (h : 0 ≤ a) : Scalar.sqrt (finite a) = finite (Real.sqrt a) :=
  if_neg h.not_gt

@[simp] lemma hypot_finite : Scalar.hypot (finite a) (finite b) =
    finite (Real.sqrt (a ^ 2 + b ^ 2)) := rfl

@[simp] lemma ofNat_finite (n : ℕ) : (Scalar.ofNat n : Extended) = finite n := rfl

/-! ## What is not a number -/

@[simp] lemma isNaN_nan : Scalar.isNaN nan = true := rfl

@[simp] lemma nan_add : nan + x = nan := rfl

@[simp] lemma add_nan : x + nan = nan := by cases x <;> rfl

@[simp] lemma nan_sub : nan - x = nan := rfl

@[simp] lemma nan_mul : nan * x = nan := rfl

@[simp] lemma mul_nan : x * nan = nan := by cases x <;> rfl

@[simp] lemma nan_div : nan / x = nan := rfl

@[simp] lemma sqrt_nan : Scalar.sqrt nan = nan := rfl

/-- A side that is not a number leaves no hypotenuse, unless the other side is infinite. -/
lemma hypot_nan_finite : Scalar.hypot nan (finite a) = nan := rfl

/-- What is not a number lies below nothing. -/
@[simp] lemma not_nan_lt : ¬nan < x := id

/-- Nothing lies below what is not a number. -/
@[simp] lemma not_lt_nan : ¬x < nan := by cases x <;> exact id

/-! ## Infinities -/

lemma infinite_mul_finite (negative : Bool) (h : 0 < a) :
    infinite negative * finite a = infinite negative := by
  change mul _ _ = _
  simp [mul, h.ne', h.not_gt]

lemma infinite_div_finite (negative : Bool) (h : 0 < a) :
    infinite negative / finite a = infinite negative := by
  change div _ _ = _
  simp [div, h.not_gt]

/-! ## Comparison -/

/-- The place of a value among the extended reals, without meaning for what is not a number. -/
noncomputable def rank : Extended → EReal
  | finite a => a
  | infinite false => ⊤
  | infinite true => ⊥
  | nan => 0

@[simp] lemma rank_infinity : rank UnboundedScalar.infinity = ⊤ := rfl

@[simp] lemma isNaN_infinity : Scalar.isNaN (UnboundedScalar.infinity : Extended) = false := rfl

/-- The place of a value among the extended reals, if it is a number. -/
noncomputable def rank? (x : Extended) : Option EReal :=
  if Scalar.isNaN x then none else some x.rank

@[simp] lemma rank?_nan : rank? nan = none := rfl

@[simp] lemma rank?_finite (a : ℝ) : rank? (finite a) = some (a : EReal) := rfl

/-- Numbers are told apart by their place. -/
lemma eq_of_rank_eq {x y : Extended} (hx : Scalar.isNaN x = false) (hy : Scalar.isNaN y = false)
    (h : x.rank = y.rank) : x = y := by
  rcases x with _ | ⟨_ | _⟩ | a <;> rcases y with _ | ⟨_ | _⟩ | b <;>
    simp_all [rank, Scalar.isNaN, EReal.coe_ne_top, EReal.coe_ne_bot]

/-- Numbers are compared by their place. -/
lemma lt_iff {x y : Extended} :
    x < y ↔ Scalar.isNaN x = false ∧ Scalar.isNaN y = false ∧ rank x < rank y := by
  change lt x y ↔ _
  rcases x with _ | ⟨_ | _⟩ | a <;> rcases y with _ | ⟨_ | _⟩ | b <;>
    simp [lt, rank, Scalar.isNaN, EReal.coe_lt_top, EReal.bot_lt_coe]

/-- Numbers are compared by their place, weakly too. -/
lemma le_iff {x y : Extended} :
    x ≤ y ↔ Scalar.isNaN x = false ∧ Scalar.isNaN y = false ∧ rank x ≤ rank y := by
  change le x y ↔ _
  rcases x with _ | ⟨_ | _⟩ | a <;> rcases y with _ | ⟨_ | _⟩ | b <;>
    simp [le, rank, Scalar.isNaN]

instance : IeeeBound Extended where
  isNaN_of_le h := (le_iff.1 h).1

instance : IeeeOrder Extended := IeeeOrder.of_rank rank lt_iff le_iff rfl

/-- The smaller of two numbers has the lower one of their places. -/
lemma rank_minNum {x y : Extended} (hx : Scalar.isNaN x = false) (hy : Scalar.isNaN y = false) :
    (Scalar.minNum x y).rank = min x.rank y.rank := by
  simp only [Scalar.minNum, lt_iff, hx, hy, true_and, Bool.false_eq_true, if_false, apply_ite rank]
  split_ifs with h
  · exact (min_eq_right h.le).symm
  · exact (min_eq_left (not_lt.1 h)).symm

/-- To lie below a number by more than a real is to do so among the extended reals. -/
lemma lt_sub_finite_iff {x y : Extended} (hx : Scalar.isNaN x = false)
    (hy : Scalar.isNaN y = false) (t : ℝ) : x < y - finite t ↔ x.rank < y.rank - t := by
  have hsub : Scalar.isNaN (y - finite t) = false ∧ (y - finite t).rank = y.rank - t := by
    rcases y with _ | ⟨_ | _⟩ | b
    · exact absurd hy (by simp)
    · exact ⟨rfl, (EReal.top_sub_coe t).symm⟩
    · exact ⟨rfl, (EReal.bot_sub t).symm⟩
    · exact ⟨rfl, EReal.coe_sub b t⟩
  rw [lt_iff, hx, hsub.1, hsub.2]
  simp

end Extended

end HopfieldDescent

import Mathlib
import HopfieldDescent.Proofs.DenseMatrix.Matrix
import HopfieldDescent.Proofs.Lagrangian.Total

/-!
# Expansion of the augmented Lagrangian

In exact arithmetic each block adds a quadratic function of its residual to the Lagrangian, and the
residual is affine in the point.  The value and the gradient of a checked computation are read here
as functions on coordinates:

* `PenalizedBlock.term` is what a block adds at a residual, and `PenalizedBlock.pull` what it adds
  to the gradient;
* `PenalizedBlock.term_residualAt` expands the term to second order, without a remainder;
* `Lagrangian.value_eq_ok` and `Lagrangian.gradient_eq_ok` put objective and blocks together.
-/

open scoped Matrix

namespace HopfieldDescent

/-! ## Blocks -/

namespace PenalizedBlock

variable {p : PenalizedBlock ℝ} {n : ℕ} {x x' slack r t : Vec ℝ} {v : ℝ}

/-- The number of residuals of a block. -/
abbrev Residual (p : PenalizedBlock ℝ) : Type := Fin p.block.matrix.height → ℝ

/-- The coefficients of a block on `n` variables. -/
def coefficients (p : PenalizedBlock ℝ) (n : ℕ) :
    Matrix (Fin p.block.matrix.height) (Fin n) ℝ :=
  p.block.matrix.toMatrix n

/-- The residual at a point, measured from a slack. -/
def residualAt (p : PenalizedBlock ℝ) (n : ℕ) (x slack : Vec ℝ) : p.Residual :=
  p.coefficients n *ᵥ Vec.coords n x - Vec.coords _ p.block.rhs - Vec.coords _ slack

/-- What the block adds at a residual. -/
noncomputable def term (p : PenalizedBlock ℝ) (r : p.Residual) : ℝ :=
  Vec.coords _ p.dual ⬝ᵥ r + 0.5 * p.penalty * (r ⬝ᵥ r)

/-- The derivative of that by the residual. -/
def weight (p : PenalizedBlock ℝ) (r : p.Residual) : p.Residual :=
  Vec.coords _ p.dual + p.penalty • r

/-- What the block adds to the gradient at a residual. -/
def pull (p : PenalizedBlock ℝ) (n : ℕ) (r : p.Residual) : Fin n → ℝ :=
  (p.coefficients n)ᵀ *ᵥ p.weight r

/-! ### From lists to coordinates -/

/-- The residual of equations is measured from no slack at all. -/
lemma residual_eq_ok (hp : p.Fits n) (h : p.block.residual x = .ok r) :
    x.length = n ∧ r.length = p.block.height ∧ Vec.coords _ r = p.residualAt n x [] := by
  simp only [ConstraintBlock.residual, Outcome.bind_eq_ok] at h
  obtain ⟨y, hy, hr⟩ := h
  obtain ⟨hx, hlength, hcoords⟩ := (DenseMatrix.mulVec_eq_ok hp.block.width_eq).1 hy
  have hrhs : p.block.rhs.length = p.block.matrix.height := hp.block.length_rhs
  rw [Vec.sub, Vec.zipSpread_of_length_eq (hlength.trans hrhs.symm)] at hr
  obtain rfl := Except.ok.inj hr
  refine ⟨hx, by simp [hlength, hrhs, ConstraintBlock.height], ?_⟩
  funext i
  rw [Vec.coords_zipWith hlength hrhs, hcoords]
  simp [residualAt, coefficients, Vec.coords]

/-- The residual of inequalities is measured from the slack. -/
lemma slackResidual_eq_ok (hp : p.Fits n) (hslack : slack.length = p.block.height)
    (h : p.slackResidual x slack = .ok r) :
    x.length = n ∧ r.length = p.block.height ∧ Vec.coords _ r = p.residualAt n x slack := by
  simp only [slackResidual, Outcome.bind_eq_ok] at h
  obtain ⟨y, hy, hr⟩ := h
  obtain ⟨hx, hlength, hcoords⟩ := residual_eq_ok hp hy
  rw [Vec.sub, Vec.zipSpread_of_length_eq (hlength.trans hslack.symm)] at hr
  obtain rfl := Except.ok.inj hr
  refine ⟨hx, by simp [hlength, hslack], ?_⟩
  funext i
  have hheight : y.length = p.block.matrix.height := hlength
  rw [Vec.coords_zipWith hheight hslack, hcoords]
  simp [residualAt, Vec.coords]

/-- The value of a block is its term. -/
lemma value_eq_ok (hp : p.Fits n) (hr : r.length = p.block.height) :
    p.value r = .ok v ↔ v = p.term (Vec.coords _ r) := by
  have hdual : p.dual.length = p.block.matrix.height := hp.length_dual
  have hheight : r.length = p.block.matrix.height := hr
  have hvalue : p.term (Vec.coords _ r) =
      Vec.inner p.dual r + 0.5 * p.penalty * Vec.inner r r := by
    rw [Vec.inner_eq_dotProduct hdual hheight, Vec.inner_eq_dotProduct hheight hheight, term]
  simp only [value, Vec.dot, Outcome.bind_eq_ok, Breach.sameLength_eq_ok, Outcome.pure_eq_ok,
    hdual, hheight, exists_const]
  rw [hvalue]
  constructor
  · rintro ⟨_, ⟨-, rfl⟩, rfl⟩
    rfl
  · rintro rfl
    exact ⟨_, ⟨trivial, rfl⟩, rfl⟩

/-- The multiplier of a block is its weight. -/
lemma multiplier_eq_ok (hp : p.Fits n) (hr : r.length = p.block.height) {w : Vec ℝ}
    (h : p.multiplier r = .ok w) :
    w.length = p.block.height ∧ Vec.coords _ w = p.weight (Vec.coords _ r) := by
  have hdual : p.dual.length = p.block.matrix.height := hp.length_dual
  have hheight : r.length = p.block.matrix.height := hr
  have hscale : (Vec.scale r p.penalty).length = p.block.matrix.height := by
    simp [Vec.scale, hheight]
  rw [multiplier, Vec.add, Vec.zipSpread_of_length_eq (hdual.trans hscale.symm)] at h
  obtain rfl := Except.ok.inj h
  refine ⟨by simp [hdual, hscale, ConstraintBlock.height], ?_⟩
  funext i
  rw [Vec.coords_zipWith hdual hscale, Vec.scale, Vec.coords_map hheight]
  simp [weight, mul_comm]

/-! ### Expansion -/

/-- Two residuals differ by the coefficients times the step of the point, less the step of the
slack. -/
lemma residualAt_sub (p : PenalizedBlock ℝ) (n : ℕ) (x x' slack slack' : Vec ℝ) :
    p.residualAt n x' slack' - p.residualAt n x slack =
      p.coefficients n *ᵥ Vec.displacement n x x' - Vec.displacement _ slack slack' := by
  rw [residualAt, residualAt, Vec.displacement, Vec.displacement, Matrix.mulVec_sub]
  abel

/-- The term is a quadratic function of the residual. -/
lemma term_eq (p : PenalizedBlock ℝ) (r r' : p.Residual) :
    p.term r' = p.term r + p.weight r ⬝ᵥ (r' - r) + p.penalty / 2 * ((r' - r) ⬝ᵥ (r' - r)) := by
  simp only [term, Scalar.literal_half, weight, dotProduct_sub, sub_dotProduct, add_dotProduct,
    smul_dotProduct, smul_eq_mul, dotProduct_comm r' r]
  ring

/-- The term after a step of the point and the slack, expanded around where the step began. -/
lemma term_residualAt (p : PenalizedBlock ℝ) (n : ℕ) (x x' slack slack' : Vec ℝ) :
    p.term (p.residualAt n x' slack') = p.term (p.residualAt n x slack) +
      p.pull n (p.residualAt n x slack) ⬝ᵥ Vec.displacement n x x' -
      p.weight (p.residualAt n x slack) ⬝ᵥ Vec.displacement _ slack slack' +
      p.penalty / 2 *
        ((p.coefficients n *ᵥ Vec.displacement n x x' - Vec.displacement _ slack slack') ⬝ᵥ
          (p.coefficients n *ᵥ Vec.displacement n x x' - Vec.displacement _ slack slack')) := by
  rw [p.term_eq (p.residualAt n x slack) (p.residualAt n x' slack'), residualAt_sub, pull,
    dotProduct_sub, Matrix.dotProduct_mulVec, Matrix.mulVec_transpose]
  ring

end PenalizedBlock

/-! ## Objective and blocks -/

namespace Lagrangian

variable {l : Lagrangian ℝ} {n : ℕ} {x x' slack slack' gradient : Vec ℝ} {v : ℝ}

/-- What the blocks add to the objective. -/
noncomputable def penaltyAt (l : Lagrangian ℝ) (n : ℕ) (x slack : Vec ℝ) : ℝ :=
  l.equality.elim 0 (fun p => p.term (p.residualAt n x [])) +
    l.inequality.elim 0 (fun p => p.term (p.residualAt n x slack))

/-- What the blocks add to the gradient of the objective. -/
def pullAt (l : Lagrangian ℝ) (n : ℕ) (x slack : Vec ℝ) : Fin n → ℝ :=
  l.equality.elim 0 (fun p => p.pull n (p.residualAt n x [])) +
    l.inequality.elim 0 (fun p => p.pull n (p.residualAt n x slack))

/-- The parts of a value: the equations are added to the objective, then the inequalities. -/
lemma parts_of_value (h : l.value x slack = .ok v) :
    ∃ f g, l.objective.value x = .ok f ∧
      (l.equality = none → g = f) ∧
      (∀ p ∈ l.equality, ∃ r t, p.block.residual x = .ok r ∧ p.value r = .ok t ∧ g = f + t) ∧
      (l.inequality = none → v = g) ∧
      (∀ p ∈ l.inequality, ∃ r t, p.slackResidual x slack = .ok r ∧ p.value r = .ok t ∧
        v = g + t) := by
  rcases l with ⟨objective, _ | p, _ | q⟩
  · simp only [value, Outcome.bind_eq_ok, Outcome.pure_eq_ok] at h
    obtain ⟨f, hf, g, rfl, rfl⟩ := h
    exact ⟨f, f, hf, by simp⟩
  · simp only [value, Outcome.bind_eq_ok, Outcome.pure_eq_ok] at h
    obtain ⟨f, hf, g, rfl, r, hr, t, ht, rfl⟩ := h
    exact ⟨f, f, hf, by simp [hr, ht]⟩
  · simp only [value, Outcome.bind_eq_ok, Outcome.pure_eq_ok] at h
    obtain ⟨f, hf, r, hr, t, ht, g, rfl, rfl⟩ := h
    exact ⟨f, f + t, hf, by simp [hr, ht]⟩
  · simp only [value, Outcome.bind_eq_ok, Outcome.pure_eq_ok] at h
    obtain ⟨f, hf, r, hr, t, ht, g, rfl, r', hr', t', ht', rfl⟩ := h
    exact ⟨f, f + t, hf, by simp [hr, ht, hr', ht']⟩

/-- The parts of a gradient, in the same order. -/
lemma parts_of_gradient (h : l.gradient x slack = .ok gradient) :
    ∃ f g, l.objective.gradient x = .ok f ∧
      (l.equality = none → g = f) ∧
      (∀ p ∈ l.equality, ∃ r weight pull, p.block.residual x = .ok r ∧
        p.multiplier r = .ok weight ∧ p.block.transposeMul weight = .ok pull ∧
        f.shift pull = .ok g) ∧
      (l.inequality = none → gradient = g) ∧
      (∀ p ∈ l.inequality, ∃ r weight pull, p.slackResidual x slack = .ok r ∧
        p.multiplier r = .ok weight ∧ p.block.transposeMul weight = .ok pull ∧
        g.shift pull = .ok gradient) := by
  rcases l with ⟨objective, _ | p, _ | q⟩
  · simp only [Lagrangian.gradient, Outcome.bind_eq_ok, Outcome.pure_eq_ok] at h
    obtain ⟨f, hf, g, rfl, rfl⟩ := h
    exact ⟨f, f, hf, by simp⟩
  · simp only [Lagrangian.gradient, Outcome.bind_eq_ok, Outcome.pure_eq_ok] at h
    obtain ⟨f, hf, g, rfl, r, hr, weight, hweight, pull, hpull, hshift⟩ := h
    exact ⟨f, f, hf, by simp [hr, hweight, hpull, hshift]⟩
  · simp only [Lagrangian.gradient, Outcome.bind_eq_ok, Outcome.pure_eq_ok] at h
    obtain ⟨f, hf, r, hr, weight, hweight, pull, hpull, g, hshift, rfl⟩ := h
    exact ⟨f, g, hf, by simp [hr, hweight, hpull, hshift]⟩
  · simp only [Lagrangian.gradient, Outcome.bind_eq_ok] at h
    obtain ⟨f, hf, r, hr, weight, hweight, pull, hpull, g, hshift, r', hr', weight', hweight',
      pull', hpull', hshift'⟩ := h
    exact ⟨f, g, hf, by simp [hr, hweight, hpull, hshift, hr', hweight', hpull', hshift']⟩

/-- Against a block the gradient has been moved by a pull, one entry for each variable. -/
lemma exists_shift_of_gradient (hl : l.Fits n) (h : l.gradient x slack = .ok gradient)
    (hblock : l.equality.isSome ∨ l.inequality.isSome) :
    ∃ g pull : Vec ℝ, pull.length = n ∧ g.shift pull = .ok gradient := by
  obtain ⟨f, g, -, -, hequality, hfree, hinequality⟩ := parts_of_gradient h
  cases hi : l.inequality with
  | some p =>
    obtain ⟨-, weight, pull, -, -, hpull, hshift⟩ := hinequality p hi
    obtain ⟨-, hlength, -⟩ :=
      DenseMatrix.transpose_mulVec_eq_ok (hl.inequality p hi).block.width_eq hpull
    exact ⟨g, pull, hlength, hshift⟩
  | none =>
    obtain ⟨p, hp⟩ := Option.isSome_iff_exists.1 (hblock.resolve_right (by simp [hi]))
    obtain ⟨-, weight, pull, -, -, hpull, hshift⟩ := hequality p hp
    obtain ⟨-, hlength, -⟩ :=
      DenseMatrix.transpose_mulVec_eq_ok (hl.equality p hp).block.width_eq hpull
    exact ⟨f, pull, hlength, hfree hi ▸ hshift⟩

/-- The value of the Lagrangian is the objective with what the blocks add. -/
lemma value_eq_ok (hl : l.Fits n) (hslack : l.SlackFits slack) (h : l.value x slack = .ok v) :
    ∃ f, l.objective.value x = .ok f ∧ v = f + l.penaltyAt n x slack := by
  obtain ⟨f, g, hf, hfree, hequality, hfree', hinequality⟩ := parts_of_value h
  refine ⟨f, hf, ?_⟩
  have hg : g = f + l.equality.elim 0 (fun p => p.term (p.residualAt n x [])) := by
    cases he : l.equality with
    | none => simp [hfree he]
    | some p =>
      obtain ⟨r, t, hr, ht, hadd⟩ := hequality p he
      have hp := hl.equality p he
      obtain ⟨-, hlength, hcoords⟩ := PenalizedBlock.residual_eq_ok hp hr
      rw [hadd, Option.elim_some, ← hcoords, (PenalizedBlock.value_eq_ok hp hlength).1 ht]
  have hv : v = g + l.inequality.elim 0 (fun p => p.term (p.residualAt n x slack)) := by
    cases hi : l.inequality with
    | none => simp [hfree' hi]
    | some p =>
      obtain ⟨r, t, hr, ht, hadd⟩ := hinequality p hi
      have hp := hl.inequality p hi
      obtain ⟨-, hlength, hcoords⟩ := PenalizedBlock.slackResidual_eq_ok hp (hslack p hi) hr
      rw [hadd, Option.elim_some, ← hcoords, (PenalizedBlock.value_eq_ok hp hlength).1 ht]
  rw [hv, hg, penaltyAt, add_assoc]

/-- Where the objective has a value, so has the Lagrangian. -/
lemma exists_value (hl : l.Fits n) (hslack : l.SlackFits slack) (hx : x.length = n) {f : ℝ}
    (hf : l.objective.value x = .ok f) : ∃ v, l.value x slack = .ok v := by
  obtain ⟨v, hv, -⟩ := returns_value ⟨f, hf, trivial⟩ hl hx hslack
  exact ⟨v, hv⟩

/-- A step with the transposed coefficients adds the pull of a block. -/
lemma coords_of_shift {p : PenalizedBlock ℝ} (hp : p.Fits n) {r weight pull g g' : Vec ℝ}
    (hr : r.length = p.block.height) (hweight : p.multiplier r = .ok weight)
    (hpull : p.block.transposeMul weight = .ok pull) (hshift : g.shift pull = .ok g')
    (hg : g.length = n) : Vec.coords n g' = Vec.coords n g + p.pull n (Vec.coords _ r) := by
  obtain ⟨-, hcoords⟩ := PenalizedBlock.multiplier_eq_ok hp hr hweight
  obtain ⟨-, hlength, hcoords'⟩ :=
    DenseMatrix.transpose_mulVec_eq_ok hp.block.width_eq hpull
  rw [Vec.shift, Vec.zipOnto_of_length_eq (hg.trans hlength.symm)] at hshift
  obtain rfl := Except.ok.inj hshift
  funext i
  rw [Vec.coords_zipWith hg hlength, hcoords', hcoords]
  rfl

/-- The gradient of the Lagrangian is that of the objective with what the blocks add. -/
lemma gradient_eq_ok (hl : l.Fits n) (hslack : l.SlackFits slack)
    (h : l.gradient x slack = .ok gradient) (hn : gradient.length = n) :
    ∃ f, l.objective.gradient x = .ok f ∧ f.length = n ∧
      Vec.coords n gradient = Vec.coords n f + l.pullAt n x slack := by
  obtain ⟨f, g, hf, hfree, hequality, hfree', hinequality⟩ := parts_of_gradient h
  -- a shift keeps the length of what it shifts, so the lengths are known from the last one on
  have hgn : g.length = n := by
    rw [← hn]
    cases hi : l.inequality with
    | none => rw [hfree' hi]
    | some p =>
      obtain ⟨r, weight, pull, -, -, -, hshift⟩ := hinequality p hi
      exact (Vec.length_of_zipOnto hshift).symm
  have hfn : f.length = n := by
    rw [← hgn]
    cases he : l.equality with
    | none => rw [hfree he]
    | some p =>
      obtain ⟨r, weight, pull, -, -, -, hshift⟩ := hequality p he
      exact (Vec.length_of_zipOnto hshift).symm
  refine ⟨f, hf, hfn, ?_⟩
  have hg : Vec.coords n g = Vec.coords n f +
      l.equality.elim 0 (fun p => p.pull n (p.residualAt n x [])) := by
    cases he : l.equality with
    | none => simp [hfree he]
    | some p =>
      obtain ⟨r, weight, pull, hr, hweight, hpull, hshift⟩ := hequality p he
      have hp := hl.equality p he
      obtain ⟨-, hlength, hcoords⟩ := PenalizedBlock.residual_eq_ok hp hr
      rw [coords_of_shift hp hlength hweight hpull hshift hfn, hcoords, Option.elim_some]
  have hgradient : Vec.coords n gradient = Vec.coords n g +
      l.inequality.elim 0 (fun p => p.pull n (p.residualAt n x slack)) := by
    cases hi : l.inequality with
    | none => simp [hfree' hi]
    | some p =>
      obtain ⟨r, weight, pull, hr, hweight, hpull, hshift⟩ := hinequality p hi
      have hp := hl.inequality p hi
      obtain ⟨-, hlength, hcoords⟩ := PenalizedBlock.slackResidual_eq_ok hp (hslack p hi) hr
      rw [coords_of_shift hp hlength hweight hpull hshift hgn, hcoords, Option.elim_some]
  rw [hgradient, hg, pullAt, add_assoc]

end Lagrangian

end HopfieldDescent

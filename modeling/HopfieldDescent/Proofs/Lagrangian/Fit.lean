import Mathlib
import HopfieldDescent.Proofs.Dual.Fit

/-!
# Blocks that suit their variables

The blocks of a Lagrangian suit `n` variables when their rows do and there is a dual for each row.
The Lagrangian of a problem that has been set up is of this kind, at duals that fit.  Nothing here
depends on the arithmetic of the scalars.
-/

namespace HopfieldDescent

variable {R : Type} [Scalar R] {n : ℕ}

/-- The block suits `n` variables and has a dual for each row. -/
structure PenalizedBlock.Fits (p : PenalizedBlock R) (n : ℕ) : Prop where
  /-- The rows. -/
  block : p.block.Fits n
  /-- The duals. -/
  length_dual : p.dual.length = p.block.height

namespace Lagrangian

/-- The blocks suit `n` variables. -/
structure Fits (l : Lagrangian R) (n : ℕ) : Prop where
  /-- The equations. -/
  equality : ∀ p ∈ l.equality, p.Fits n
  /-- The inequalities. -/
  inequality : ∀ p ∈ l.inequality, p.Fits n

omit [Scalar R] in
/-- There is a slack for each inequality. -/
def SlackFits (l : Lagrangian R) (slack : Vec R) : Prop :=
  ∀ p ∈ l.inequality, slack.length = p.block.height

variable {p : PenalizedBlock R} {block : Option (ConstraintBlock R)} {dual : Option (Vec R)}
  {penalty : R}

omit [Scalar R] in
/-- A block that takes part comes with its duals. -/
lemma mem_penalized : p ∈ penalized block dual penalty ↔
    ∃ b ∈ block, ∃ d ∈ dual, p = ⟨b, d, penalty⟩ := by
  cases block <;> cases dual <;> simp [penalized, eq_comm]

omit [Scalar R] in
/-- At duals that fit, every block takes part. -/
lemma penalized_eq_map (hdual : dual.map List.length = block.map ConstraintBlock.height) :
    penalized block dual penalty = block.map fun b => ⟨b, dual.getD [], penalty⟩ := by
  cases block with
  | none => rfl
  | some b =>
    obtain ⟨values, rfl, -⟩ := Option.map_eq_some_iff.1 hdual
    rfl

omit [Scalar R] in
/-- At duals that fit, only an absent block takes no part. -/
lemma block_eq_none_of_penalized
    (hdual : dual.map List.length = block.map ConstraintBlock.height)
    (hp : penalized block dual penalty = none) : block = none := by
  rwa [penalized_eq_map hdual, Option.map_eq_none_iff] at hp

/-- Duals that fit a block that suits the variables. -/
lemma fits_of_mem_penalized (hblock : ∀ b ∈ block, b.Fits n)
    (hdual : dual.map List.length = block.map ConstraintBlock.height)
    (hp : p ∈ penalized block dual penalty) : p.Fits n := by
  obtain ⟨b, hb, d, hd, rfl⟩ := mem_penalized.1 hp
  obtain rfl := Option.mem_def.1 hb
  obtain rfl := Option.mem_def.1 hd
  exact ⟨hblock b rfl, Option.some.inj hdual⟩

variable {problem : Problem R} {duals : DualVariables R}

/-- The blocks of a problem suit its variables. -/
lemma fits_ofProblem (hproblem : problem.WellFormed) (hduals : duals.Fit problem) :
    (ofProblem problem duals).Fits problem.dimension :=
  ⟨fun _ hp => fits_of_mem_penalized hproblem.equalities hduals.equality hp,
    fun _ hp => fits_of_mem_penalized hproblem.inequalities hduals.inequality hp⟩

omit [Scalar R] in
/-- The inequalities of a problem take part with their duals. -/
lemma exists_inequality (hduals : duals.Fit problem) {block : ConstraintBlock R}
    (hblock : block ∈ problem.inequalities) :
    ∃ dual ∈ duals.inequality, dual.length = block.height ∧
      (ofProblem problem duals).inequality = some ⟨block, dual, problem.inequalityPenalty⟩ := by
  have hfit := hduals.inequality
  rw [Option.mem_def.1 hblock, Option.map_some, Option.map_eq_some_iff] at hfit
  obtain ⟨dual, hdual, hlength⟩ := hfit
  exact ⟨dual, hdual, hlength, mem_penalized.2 ⟨block, hblock, dual, hdual, rfl⟩⟩

end Lagrangian

end HopfieldDescent

import Mathlib
import HopfieldDescent.Dual.Ascent
import HopfieldDescent.Proofs.Problem.WellFormed

/-!
# Duals fit their blocks

The duals with which a run works have one entry for each row of their block, and there are none
for a block that is absent.  This holds of supplied duals because `setup` has looked at them.  It
holds of estimated ones because the ascent starts from such duals and a move keeps every length.
-/

namespace HopfieldDescent

variable {R : Type} [Scalar R]

omit [Scalar R] in
/-- There are duals exactly for the blocks of a problem, one for each row. -/
structure DualVariables.Fit (duals : DualVariables R) (problem : Problem R) : Prop where
  /-- The duals of the equations. -/
  equality : duals.equality.map List.length = problem.equalities.map ConstraintBlock.height
  /-- The duals of the inequalities. -/
  inequality : duals.inequality.map List.length = problem.inequalities.map ConstraintBlock.height

/-- Supplied duals of a block fit it, if none are missing. -/
lemma ConstraintBlock.AcceptsDual.map_length {block : Option (ConstraintBlock R)}
    {dual : Option (Vec R)} (h : AcceptsDual block dual)
    (hall : (block.isNone || dual.isSome) = true) :
    dual.map List.length = block.map ConstraintBlock.height := by
  rcases dual with _ | values
  · have : block = none := by simpa using hall
    rw [this]
    rfl
  · obtain ⟨b, hb, hlength, -⟩ := h values rfl
    rw [Option.mem_def.1 hb]
    simp [hlength]

namespace Lagrangian

variable {l : Lagrangian R} {x slack : Vec R} {residual : Option (Vec R)}

/-- The residual of the equations is that of their block, if they take part. -/
lemma equalityResidual_eq_ok : l.equalityResidual x = .ok residual ↔
    (∀ p ∈ l.equality, ∃ r, p.block.residual x = .ok r ∧ some r = residual) ∧
      (l.equality = none → residual = none) := by
  unfold equalityResidual
  cases l.equality with
  | none => simp [eq_comm]
  | some p => simp [Outcome.map_eq_ok]

/-- The residual of the inequalities is the one measured from the slack, if they take part. -/
lemma inequalityResidual_eq_ok : l.inequalityResidual x slack = .ok residual ↔
    (∀ p ∈ l.inequality, ∃ r, p.slackResidual x slack = .ok r ∧ some r = residual) ∧
      (l.inequality = none → residual = none) := by
  unfold inequalityResidual
  cases l.inequality with
  | none => simp [eq_comm]
  | some p => simp [Outcome.map_eq_ok]

omit [Scalar R] in
/-- What is measured of each block that takes part is there when one does. -/
lemma isSome_of_measured {part : Option (PenalizedBlock R)}
    {measured : PenalizedBlock R → Checked (Vec R)}
    (h : (∀ p ∈ part, ∃ r, measured p = .ok r ∧ some r = residual) ∧
      (part = none → residual = none)) : residual.isSome = part.isSome := by
  cases part with
  | none =>
    obtain rfl := h.2 rfl
    rfl
  | some p =>
    obtain ⟨r, -, rfl⟩ := h.1 p rfl
    rfl

/-- The residual of the equations is there when they take part. -/
lemma isSome_of_equalityResidual (h : l.equalityResidual x = .ok residual) :
    residual.isSome = l.equality.isSome :=
  isSome_of_measured (equalityResidual_eq_ok.1 h)

/-- The residual of the inequalities is there when they take part. -/
lemma isSome_of_inequalityResidual (h : l.inequalityResidual x slack = .ok residual) :
    residual.isSome = l.inequality.isSome :=
  isSome_of_measured (inequalityResidual_eq_ok.1 h)

end Lagrangian

namespace DualAscent

variable {problem : Problem R} {settings : DualAscentSettings R}
  {radius : ConstraintBlock R → Checked R}

omit [Scalar R] in
/-- A move that keeps the number of duals leads from duals that fit to duals that fit. -/
lemma map_length_of_raised {block : Option (ConstraintBlock R)} {dual after : Option (Vec R)}
    {residual : Option (Vec R)} {penalty : R} {move : Vec R → Checked (Vec R)}
    (hfit : dual.map List.length = block.map ConstraintBlock.height)
    (hresidual : residual.isSome = (Lagrangian.penalized block dual penalty).isSome)
    (hmove : ∀ r v, move r = .ok v → v.length = (dual.getD []).length)
    (h : raised move residual = .ok after) :
    after.map List.length = block.map ConstraintBlock.height := by
  rcases block with _ | block
  · obtain rfl : residual = none := by simpa [Lagrangian.penalized] using hresidual
    obtain rfl := Except.ok.inj h
    rfl
  · obtain ⟨values, rfl, hlength⟩ := Option.map_eq_some_iff.1 hfit
    obtain ⟨r, rfl⟩ := Option.isSome_iff_exists.1 (hresidual.trans rfl)
    obtain ⟨v, hv, rfl⟩ := Outcome.map_eq_ok.1 h
    have := hmove r v hv
    simp only [Option.getD_some] at this
    simp [this, hlength]

omit [Scalar R] in
/-- The duals from which the ascent starts fit. -/
lemma fit_initialDuals : (initialDuals problem settings).Fit problem := by
  constructor
  · cases h : problem.equalities <;> simp [initialDuals, initialDual, h]
  · cases h : problem.inequalities <;> simp [initialDuals, initialDual, h]

/-- One update leads from duals that fit to duals that fit. -/
lemma fit_of_update {ascent : Ascent R} {duals duals' : DualVariables R} {decay : R}
    (hfit : duals.Fit ascent.problem) (h : ascent.update duals decay = .ok duals') :
    duals'.Fit ascent.problem := by
  simp only [Ascent.update, Outcome.bind_eq_ok, Outcome.pure_eq_ok] at h
  obtain ⟨place, -, residual, hresidual, equality, hequality, residual', hresidual', inequality,
    hinequality, rfl⟩ := h
  constructor
  · refine map_length_of_raised hfit.equality
      (Lagrangian.isSome_of_equalityResidual hresidual) ?_ hequality
    intro r v hv
    exact Vec.length_of_zipOnto hv
  · refine map_length_of_raised hfit.inequality
      (Lagrangian.isSome_of_inequalityResidual hresidual') ?_ hinequality
    intro r v hv
    simp only [raisedInequality, Outcome.bind_eq_ok, Outcome.pure_eq_ok] at hv
    obtain ⟨moved, hmoved, rfl⟩ := hv
    rw [List.length_map]
    exact Vec.length_of_zipOnto hmoved

/-- Both the current duals and the kept ones fit. -/
def Progress.Fits (progress : Progress R) (problem : Problem R) : Prop :=
  progress.duals.Fit problem ∧ ∀ best ∈ progress.best, best.duals.Fit problem

/-- What holds of the kept duals and of new ones holds of the better pair. -/
lemma forall_mem_keep {P : DualVariables R → Prop} {best : Option (Best R)} {change : R}
    {duals : DualVariables R} (hbest : ∀ b ∈ best, P b.duals) (hduals : P duals) :
    ∀ b ∈ Best.keep best change duals, P b.duals := by
  intro b hb
  unfold Best.keep at hb
  split at hb
  · split_ifs at hb
    · cases hb
    · obtain rfl := Option.some.inj hb
      exact hduals
  · split_ifs at hb
    · exact hbest b hb
    · obtain rfl := Option.some.inj hb
      exact hduals

/-- A climb ends with what its updates establish, whether it settles or gives up.  What an update
needs, `I`, passes on to the next one; what it establishes, `P`, holds of the duals that are kept,
and of the current ones unless an update is still to come. -/
lemma Ascent.of_climb {ascent : Ascent R} {I P : DualVariables R → Prop}
    (hupdate : ∀ {duals decay duals'}, I duals → ascent.update duals decay = .ok duals' →
      I duals' ∧ P duals')
    {remaining outer : Nat} {progress : Progress R} (hinv : I progress.duals)
    (hbest : ∀ b ∈ progress.best, P b.duals) (hlast : remaining = 0 → P progress.duals)
    {estimate : DualEstimate R} {said : List (Notice R)}
    (h : ascent.climb remaining outer progress = .ok (estimate, said)) : P estimate.duals := by
  induction remaining generalizing outer progress with
  | zero =>
    obtain ⟨rfl, -⟩ := Prod.mk.inj (Except.ok.inj h)
    cases hkept : progress.best with
    | none => simpa [hkept] using hlast rfl
    | some best => simpa [hkept] using hbest best hkept
  | succ remaining ih =>
    simp only [Ascent.climb, Outcome.bind_eq_ok] at h
    obtain ⟨duals, hduals, size, hsize, h⟩ := h
    obtain ⟨hinv', hduals'⟩ := hupdate hinv hduals
    split_ifs at h
    · obtain ⟨rfl, -⟩ := Prod.mk.inj (Outcome.pure_eq_ok.1 h)
      exact hduals'
    · exact ih hinv' (forall_mem_keep hbest hduals') (fun _ => hduals') h

/-- Climbing from duals that fit ends with duals that fit. -/
lemma fit_of_climb {ascent : Ascent R} {remaining outer : Nat} {progress : Progress R}
    {estimate : DualEstimate R} {said : List (Notice R)} (hfit : progress.Fits ascent.problem)
    (h : ascent.climb remaining outer progress = .ok (estimate, said)) :
    estimate.duals.Fit ascent.problem :=
  Ascent.of_climb (fun hfits hupdate => ⟨fit_of_update hfits hupdate, fit_of_update hfits hupdate⟩)
    hfit.1 hfit.2 (fun _ => hfit.1) h

/-- Estimated duals fit the problem. -/
lemma fit_of_estimate {found : DualEstimate R} {said : List (Notice R)}
    (h : estimate problem settings radius = .ok (found, said)) : found.duals.Fit problem := by
  simp only [estimate, Outcome.bind_eq_ok] at h
  obtain ⟨smoothness, -, h⟩ := h
  exact fit_of_climb ⟨fit_initialDuals, by simp⟩ h

/-- The duals for a run fit the problem. -/
theorem fit_of_resolve {found : DualEstimate R} {said : List (Notice R)}
    (hproblem : problem.WellFormed) (h : resolve problem settings radius = .ok (found, said)) :
    found.duals.Fit problem := by
  unfold resolve at h
  split_ifs at h with hfree hall
  · obtain ⟨rfl, -⟩ := Prod.mk.inj (Except.ok.inj h)
    simp only [Problem.isConstrained, Bool.not_eq_true', Bool.or_eq_false_iff,
      Option.isSome_eq_false_iff, Option.isNone_iff_eq_none] at hfree
    exact ⟨by simp [hfree.1], by simp [hfree.2]⟩
  · obtain ⟨rfl, -⟩ := Prod.mk.inj (Except.ok.inj h)
    rw [Problem.hasAllDuals, Bool.and_eq_true] at hall
    exact ⟨hproblem.equalityDual.map_length hall.1, hproblem.inequalityDual.map_length hall.2⟩
  · exact fit_of_estimate h

end DualAscent

end HopfieldDescent

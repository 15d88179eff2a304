import Mathlib
import HopfieldDescent.Proofs.Dual.Settled
import HopfieldDescent.Proofs.Run.Reuse

/-!
# Where the duals of a run come from

A run uses the duals that were supplied, if none are missing, and otherwise those to which the
ascent climbs.  Either way there are duals exactly for the blocks of the problem, and so the
Lagrangian leaves out no block (`DualVariables.Fit.covers`), although it would leave out one without
duals.  Which way it was can be read off the status (`DualEstimate.Sourced`).

The duals of inequalities may start below zero.  The first update cuts them off, whatever is kept
has gone through an update, and there is room for one.  So no estimate has a dual of an inequality
below zero (`DualEstimate.Ascended`).
-/

open HopfieldDescent.Outcome (Returns)

namespace HopfieldDescent

variable {R G σ : Type} [Scalar R]

/-! ## Every block takes part -/

omit [Scalar R] in
/-- The Lagrangian leaves out no block of the problem. -/
structure Lagrangian.Covers (l : Lagrangian R) (problem : Problem R) : Prop where
  /-- The equations take part if there are any. -/
  equality : l.equality.map PenalizedBlock.block = problem.equalities
  /-- The inequalities take part if there are any. -/
  inequality : l.inequality.map PenalizedBlock.block = problem.inequalities

omit [Scalar R] in
/-- At duals that fit, no block is left out. -/
lemma DualVariables.Fit.covers {duals : DualVariables R} {problem : Problem R}
    (hfit : duals.Fit problem) : (Lagrangian.ofProblem problem duals).Covers problem := by
  constructor
  · rw [Lagrangian.ofProblem, Lagrangian.penalized_eq_map hfit.equality, Option.map_map]
    exact Option.map_id'
  · rw [Lagrangian.ofProblem, Lagrangian.penalized_eq_map hfit.inequality, Option.map_map]
    exact Option.map_id'

/-! ## Supplied duals -/

section Supplied

variable [RandomSource G R] {definition : Definition R} {config : Config R}
  {prepared : Prepared R}

/-- Checked duals are those that were given for the block, if it is there. -/
lemma Definition.eq_of_checkDual {kind : ConstraintKind} {block : Option (ConstraintBlock R)}
    {dual checked : Option (Vec R)} (h : checkDual kind block dual = .ok checked) :
    checked = if block.isSome then dual else none := by
  rcases dual with _ | dual <;> rcases block with _ | block
  · exact (Except.ok.inj h).symm
  · exact (Except.ok.inj h).symm
  · exact (Except.ok.inj h).symm
  · simp only [checkDual, Outcome.ite_error_eq_ok] at h
    exact (Except.ok.inj h.2).symm

/-- A problem has the duals that were supplied for its blocks. -/
lemma suppliedDuals_of_setup (h : setup G definition config = .ok prepared) :
    prepared.problem.suppliedDuals =
      ⟨if prepared.problem.equalities.isSome then definition.equalityDual else none,
        if prepared.problem.inequalities.isSome then definition.inequalityDual else none⟩ := by
  obtain ⟨frame, _, _, _, _, _, _, _, hframe, -, -, -, -, -, hproblem⟩ := setup_eq_ok h
  have hpasses := Definition.frame_eq_ok.1 hframe
  rw [hproblem, Problem.suppliedDuals, Definition.eq_of_checkDual hpasses.equalityDual,
    Definition.eq_of_checkDual hpasses.inequalityDual]

/-- All duals are there if some were supplied for each block. -/
lemma hasAllDuals_of_setup (h : setup G definition config = .ok prepared) :
    prepared.problem.hasAllDuals = true ↔
      (prepared.problem.equalities.isSome = true → definition.equalityDual.isSome = true) ∧
        (prepared.problem.inequalities.isSome = true →
          definition.inequalityDual.isSome = true) := by
  obtain ⟨hequality, hinequality⟩ := DualVariables.mk.inj (suppliedDuals_of_setup h)
  rw [Problem.hasAllDuals, hequality, hinequality]
  cases prepared.problem.equalities <;> cases prepared.problem.inequalities <;> simp

end Supplied

/-! ## The estimate of an ascent -/

/-- No dual of an inequality lies below zero. -/
def DualVariables.Nonneg (duals : DualVariables R) : Prop :=
  ∀ values ∈ duals.inequality, ∀ v ∈ values, 0.0 ≤ v

/-- What an ascent with at most so many updates finds. -/
structure DualEstimate.Ascended (found : DualEstimate R) (problem : Problem R) (maxOuter : ℕ) :
    Prop where
  /-- There are duals exactly for the blocks of the problem, one for each row. -/
  fit : found.duals.Fit problem
  /-- No dual of an inequality lies below zero. -/
  nonneg : found.duals.Nonneg
  /-- The status is one of an ascent, with a number of updates in its range. -/
  status : ∃ k ∈ Set.Icc 1 maxOuter,
    found.status = .converged k ∨ found.status = .notConverged k

/-- The status of an ascent is neither of the others. -/
lemma DualEstimate.Ascended.status_ne {found : DualEstimate R} {problem : Problem R} {maxOuter : ℕ}
    (h : found.Ascended problem maxOuter) :
    found.status ≠ .notRequired ∧ found.status ≠ .supplied := by
  obtain ⟨k, -, hstatus | hstatus⟩ := h.status <;> simp [hstatus]

namespace DualAscent

variable {problem : Problem R} {settings : DualAscentSettings R} {ascent : Ascent R}
  {found : DualEstimate R} {said : List (Notice R)}

/-- A climb converges with one of its updates, or gives up after the last one. -/
lemma Ascent.status_of_climb {remaining outer : ℕ} {progress : Progress R}
    (h : ascent.climb remaining outer progress = .ok (found, said)) :
    (∃ k, outer ≤ k ∧ k < outer + remaining ∧ found.status = .converged k) ∨
      found.status = .notConverged ascent.settings.maxOuter := by
  induction remaining generalizing outer progress with
  | zero =>
    obtain ⟨rfl, -⟩ := Prod.mk.inj (Except.ok.inj h)
    exact .inr rfl
  | succ remaining ih =>
    simp only [climb, Outcome.bind_eq_ok] at h
    obtain ⟨duals, -, size, -, h⟩ := h
    split_ifs at h
    · obtain ⟨rfl, -⟩ := Prod.mk.inj (Outcome.pure_eq_ok.1 h)
      exact .inl ⟨outer, le_rfl, by omega, rfl⟩
    · obtain ⟨k, hle, hlt, hstatus⟩ | hstatus := ih h
      · exact .inl ⟨k, by omega, by omega, hstatus⟩
      · exact .inr hstatus

section Order

variable [IeeeOrder R]

/-- An update cuts off the duals of the inequalities at zero, wherever they have been. -/
lemma Ascent.nonneg_of_update {duals duals' : DualVariables R} {decay : R}
    (h : ascent.update duals decay = .ok duals') : duals'.Nonneg := by
  simp only [Ascent.update, Outcome.bind_eq_ok, Outcome.pure_eq_ok] at h
  obtain ⟨_, -, _, -, _, -, residual, -, inequality, hraised, rfl⟩ := h
  intro values hvalues v hv
  obtain rfl : inequality = some values := hvalues
  cases residual with
  | none => cases hraised
  | some r =>
    obtain ⟨moved, hmoved, hsame⟩ := Outcome.map_eq_ok.1 hraised
    obtain rfl := Option.some.inj hsame
    simp only [raisedInequality, Outcome.bind_eq_ok, Outcome.pure_eq_ok] at hmoved
    obtain ⟨shifted, -, rfl⟩ := hmoved
    obtain ⟨w, -, rfl⟩ := List.mem_map.1 hv
    exact Scalar.zero_le_maxNum w

/-- What the ascent finds, as long as there is room for an update. -/
lemma ascended_of_estimate (hroom : settings.maxOuter ≠ 0)
    (h : estimate problem settings = .ok (found, said)) :
    found.Ascended problem settings.maxOuter := by
  obtain ⟨ascent, hascent, hclimb⟩ := estimate_eq_ok.1 h
  obtain ⟨-, rfl⟩ := Ascent.eq_of_ofProblem hascent
  refine ⟨fit_of_estimate h, ?_, ?_⟩
  · -- an update needs nothing from the duals before it
    exact Ascent.of_climb (I := fun _ => True)
      (fun _ hupdate => ⟨trivial, Ascent.nonneg_of_update hupdate⟩) trivial (by simp)
      (fun hnone => absurd hnone hroom) hclimb
  · obtain ⟨k, hle, hlt, hstatus⟩ | hstatus := Ascent.status_of_climb hclimb
    · exact ⟨k, ⟨hle, by omega⟩, .inl hstatus⟩
    · exact ⟨_, ⟨Nat.one_le_iff_ne_zero.2 hroom, le_rfl⟩, .inr hstatus⟩

end Order

end DualAscent

/-! ## The duals for a run -/

/-- The duals that are resolved for a problem, by where they come from. -/
structure DualEstimate.Sourced (found : DualEstimate R) (definition : Definition R)
    (problem : Problem R) (settings : DualAscentSettings R) (said : List (Notice R)) : Prop where
  /-- There are duals exactly for the blocks of the problem, one for each row. -/
  fit : found.duals.Fit problem
  /-- None are required exactly if there is no block. -/
  notRequired_iff : found.status = .notRequired ↔
    problem.equalities = none ∧ problem.inequalities = none
  /-- They are supplied exactly if there is a block, and some were supplied for each. -/
  supplied_iff : found.status = .supplied ↔
    problem.isConstrained = true ∧
      (problem.equalities.isSome = true → definition.equalityDual.isSome = true) ∧
      (problem.inequalities.isSome = true → definition.inequalityDual.isSome = true)
  /-- Supplied duals are used unchanged. -/
  unchanged : found.status = .supplied →
    (problem.equalities.isSome = true → found.duals.equality = definition.equalityDual) ∧
      (problem.inequalities.isSome = true → found.duals.inequality = definition.inequalityDual)
  /-- All others are those of the ascent. -/
  ascended : found.status ≠ .notRequired → found.status ≠ .supplied →
    DualAscent.estimate problem settings = .ok (found, said) ∧
      found.Ascended problem settings.maxOuter

section Resolved

variable [RandomSource G R] [IeeeOrder R] {definition : Definition R} {config : Config R}
  {prepared : Prepared R} {settings : DualAscentSettings R} {found : DualEstimate R}
  {said : List (Notice R)}

/-- Resolved duals come from where their status says. -/
lemma sourced_of_resolve (hsetup : setup G definition config = .ok prepared)
    (hroom : settings.maxOuter ≠ 0)
    (h : DualAscent.resolve prepared.problem settings = .ok (found, said)) :
    found.Sourced definition prepared.problem settings said := by
  have hfit := DualAscent.fit_of_resolve (wellFormed_of_setup hsetup) h
  have hall := hasAllDuals_of_setup hsetup
  have hfree : prepared.problem.isConstrained = false ↔
      prepared.problem.equalities = none ∧ prepared.problem.inequalities = none := by
    simp [Problem.isConstrained]
  unfold DualAscent.resolve at h
  split_ifs at h with hconstrained hsupplied
  · obtain ⟨rfl, -⟩ := Prod.mk.inj (Except.ok.inj h)
    rw [Bool.not_eq_true'] at hconstrained
    exact ⟨hfit, by simp [← hfree, hconstrained], by simp [hconstrained], by simp, by simp⟩
  · obtain ⟨rfl, -⟩ := Prod.mk.inj (Except.ok.inj h)
    rw [Bool.not_eq_true', Bool.not_eq_false] at hconstrained
    refine ⟨hfit, by simp [← hfree, hconstrained], ?_, fun _ => ?_, by simp⟩
    · exact iff_of_true rfl ⟨hconstrained, hall.1 hsupplied⟩
    · rw [suppliedDuals_of_setup hsetup]
      exact ⟨fun hblock => if_pos hblock, fun hblock => if_pos hblock⟩
  · rw [Bool.not_eq_true', Bool.not_eq_false] at hconstrained
    have hascended := DualAscent.ascended_of_estimate hroom h
    obtain ⟨hnotRequired, hnotSupplied⟩ := hascended.status_ne
    refine ⟨hfit, ?_, ?_, fun hstatus => absurd hstatus hnotSupplied, fun _ _ => ⟨h, hascended⟩⟩
    · exact iff_of_false hnotRequired (by simp [← hfree, hconstrained])
    · exact iff_of_false hnotSupplied fun hall' => hsupplied (hall.2 hall'.2)

/-- Where duals come from.  They are estimated and resolved without a breach.  An estimate fits the
blocks of the problem, its duals of inequalities are not below zero wherever they started, and its
status counts an update in range.  What is resolved for a run is what its status says.  The run
descends a Lagrangian at these duals that leaves out no block, and a solution bears them. -/
theorem duals_of_setup (hsetup : setup G definition config = .ok prepared)
    (hsettings : settings.check = .ok settings) :
    (prepared.problem.objective.ReturnsOn prepared.problem.dimension →
      Returns (DualAscent.estimate prepared.problem settings) (fun _ => True) ∧
        Returns (DualAscent.resolve prepared.problem settings) fun _ => True) ∧
    (∀ found said, DualAscent.estimate prepared.problem settings = .ok (found, said) →
      found.Ascended prepared.problem settings.maxOuter) ∧
    (∀ found said, DualAscent.resolve prepared.problem settings = .ok (found, said) →
      found.Sourced definition prepared.problem settings said) ∧
    ∀ (runConfig : Config R) (observer : Observer σ (Event R) Action) (w : σ) report,
      runConfig.dualAscent = settings →
      solve G prepared.problem runConfig observer w = .ok report →
      ∃ found opening d, DualAscent.resolve prepared.problem settings = .ok (found, opening) ∧
        Dynamics.ofProblem prepared.problem runConfig found.duals = .ok d ∧
        d.lagrangian = .ofProblem prepared.problem found.duals ∧
        d.lagrangian.Covers prepared.problem ∧
        d.Reports observer (RandomSource.ofSeed runConfig.seed : G) found opening w report ∧
        ∀ solution, report.outcome = .ok solution →
          solution.duals = found.duals ∧ solution.dualStatus = found.status := by
  have hproblem := wellFormed_of_setup hsetup
  have hroom := (DualAscentSettings.inRange_of_check hsettings).2.maxOuter
  refine ⟨fun hobjective => ⟨?_, ?_⟩, fun found said => DualAscent.ascended_of_estimate hroom,
    fun found said => sourced_of_resolve hsetup hroom, ?_⟩
  · exact (DualAscent.returns_estimate hproblem hobjective settings).imp fun _ _ => trivial
  · exact (DualAscent.returns_resolve hproblem hobjective settings).imp fun _ _ => trivial
  · rintro runConfig observer w report rfl hsolve
    obtain ⟨found, opening, d, hresolve, hd, hreports⟩ := solve_eq_ok.1 hsolve
    have hfit := DualAscent.fit_of_resolve hproblem hresolve
    have hlagrangian : d.lagrangian = .ofProblem prepared.problem found.duals := by
      obtain ⟨_, -, rfl⟩ := Dynamics.ofProblem_eq_ok.1 hd
      rfl
    exact ⟨found, opening, d, hresolve, hd, hlagrangian, hlagrangian ▸ hfit.covers, hreports,
      fun solution hsolution => hreports.duals_eq hsolution⟩

end Resolved

/-! ## Duals that start below zero -/

/-- Settings for an ascent that starts below zero. -/
noncomputable def DualAscentSettings.belowZero : DualAscentSettings ℝ := ⟨1, 3, 1, 1, -1⟩

/-- The slope with the duals of its equation alone, and an ascent that starts below zero: the duals
of both blocks are estimated, that of the inequality is not below zero, and a run uses both. -/
theorem duals_of_setup_oneStep : ∃ (prepared : Prepared ℝ) (found : DualEstimate ℝ)
    (said : List (Notice ℝ)) (report : RunReport ℝ Unit) (solution : Solution ℝ),
    setup Unit (OneStep.definition.withDuals ⟨some [0], none⟩) ⟨OneStep.draft none⟩ =
      .ok prepared ∧
    DualAscentSettings.belowZero.check = .ok .belowZero ∧
    DualAscentSettings.belowZero.initialDual < 0 ∧
    prepared.problem.equalityDual = some [0] ∧
    DualAscent.resolve prepared.problem .belowZero = .ok (found, said) ∧
    found.Ascended prepared.problem 3 ∧ found.duals.inequality.isSome = true ∧
    solveUnobserved Unit prepared.problem
      ⟨{ OneStep.draft none with dualAscent := .belowZero }⟩ = .ok report ∧
    report.outcome = .ok solution ∧ solution.duals = found.duals := by
  obtain ⟨notices, hsetup⟩ := OneStep.setup_equalityDual
  have hcheck : DualAscentSettings.belowZero.check = .ok .belowZero := by
    simp [DualAscentSettings.check, DualAscentSettings.belowZero, Scalar.isPositive]
  have hproblem := wellFormed_of_setup hsetup
  have hobjective : (OneStep.problem.withDuals ⟨some [0], none⟩).objective.ReturnsOn 1 :=
    Landscape.returnsOn_linear [1]
  obtain ⟨report, hreport, -⟩ : Returns (solveUnobserved Unit
      (OneStep.problem.withDuals ⟨some [0], none⟩)
      ⟨{ OneStep.draft none with dualAscent := .belowZero }⟩) _ :=
    returns_solve hproblem hobjective two_pos .silent ()
  obtain ⟨solution, hsolution⟩ := exists_solution_of_solve hreport
  obtain ⟨hreturns, -, hsourced, hruns⟩ := duals_of_setup (σ := Unit) hsetup hcheck
  obtain ⟨⟨found, said⟩, hresolve, -⟩ := (hreturns hobjective).2
  have hfound := hsourced found said hresolve
  have hrequired : found.status ≠ .notRequired := fun h =>
    Option.some_ne_none _ (hfound.notRequired_iff.1 h).1
  have hmissing : found.status ≠ .supplied := fun h =>
    Bool.false_ne_true ((hfound.supplied_iff.1 h).2.2 rfl)
  have hsome : found.duals.inequality.isSome = true := by
    have h := congrArg Option.isSome hfound.fit.inequality
    rw [Option.isSome_map] at h
    exact h
  obtain ⟨_, opening, -, hresolve', -, -, -, -, hduals⟩ := hruns _ _ _ _ rfl hreport
  obtain ⟨rfl, -⟩ := Prod.mk.inj (Except.ok.inj (hresolve.symm.trans hresolve'))
  exact ⟨_, found, said, report, solution, hsetup, hcheck,
    by norm_num [DualAscentSettings.belowZero], rfl, hresolve,
    (hfound.ascended hrequired hmissing).2, hsome, hreport, hsolution,
    (hduals solution hsolution).1⟩

end HopfieldDescent

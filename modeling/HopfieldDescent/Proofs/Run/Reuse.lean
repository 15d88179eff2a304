import Mathlib
import HopfieldDescent.Proofs.Run.Total

/-!
# Estimated duals can be supplied

The duals of a problem are read in one place only, where a run resolves its duals; the step reads
them from the Lagrangian.  They are also the last thing that `setup` looks at before it turns to the
point and the random source.  So a definition that is supplied with the duals that were estimated
for it becomes the same problem with these duals, and a run of this problem goes through the same
positions.  Only the status of the duals tells the two runs apart.
-/

namespace HopfieldDescent

variable {R G σ : Type}

/-! ## Definitions and problems with other duals -/

/-- The same definition with other duals. -/
def Definition.withDuals (definition : Definition R) (duals : DualVariables R) : Definition R :=
  { definition with equalityDual := duals.equality, inequalityDual := duals.inequality }

/-- A definition supplied with duals; where there are none it keeps its own. -/
def Definition.supply (definition : Definition R) (duals : DualVariables R) : Definition R :=
  definition.withDuals
    ⟨duals.equality <|> definition.equalityDual, duals.inequality <|> definition.inequalityDual⟩

/-- The same problem with other duals. -/
def Problem.withDuals (problem : Problem R) (duals : DualVariables R) : Problem R :=
  { problem with equalityDual := duals.equality, inequalityDual := duals.inequality }

/-- Every dual is finite. -/
def DualVariables.IsFinite [Scalar R] (duals : DualVariables R) : Prop :=
  (∀ values ∈ duals.equality, Vec.isFinite values = true) ∧
    ∀ values ∈ duals.inequality, Vec.isFinite values = true

/-- A problem without all of its duals has constraints. -/
lemma Problem.isConstrained_of_hasAllDuals {problem : Problem R}
    (h : problem.hasAllDuals = false) : problem.isConstrained = true := by
  cases hequalities : problem.equalities <;> cases hinequalities : problem.inequalities <;>
    simp_all [hasAllDuals, isConstrained]

/-- Duals that fit a problem are all that it needs. -/
lemma DualVariables.Fit.hasAllDuals {problem : Problem R} {duals : DualVariables R}
    (h : duals.Fit problem) : (problem.withDuals duals).hasAllDuals = true := by
  have hequality : duals.equality.isSome = problem.equalities.isSome := by
    simpa using congrArg Option.isSome h.equality
  have hinequality : duals.inequality.isSome = problem.inequalities.isSome := by
    simpa using congrArg Option.isSome h.inequality
  rw [Problem.hasAllDuals, Problem.withDuals, hequality, hinequality]
  cases problem.equalities <;> cases problem.inequalities <;> rfl

section Setup

variable [Scalar R] [RandomSource G R] {definition : Definition R} {config : Config R}
  {duals checked : DualVariables R}

namespace Definition

/-- Duals that suit a block are accepted in place of those of the definition. -/
lemma checkDual_orElse {kind : ConstraintKind} {block : Option (ConstraintBlock R)}
    {dual : Option (Vec R)} (given : Option (Vec R))
    (hfit : dual.map List.length = block.map ConstraintBlock.height)
    (hfinite : ∀ values ∈ dual, Vec.isFinite values = true) :
    checkDual kind block (dual <|> given) = .ok dual := by
  cases block with
  | none =>
    obtain rfl : dual = none := by simpa using hfit
    cases given <;> rfl
  | some block =>
    obtain ⟨values, rfl, hlength⟩ := Option.map_eq_some_iff.1 hfit
    simp [checkDual, hlength, hfinite values rfl]

/-- With duals that pass their checks the frame changes in nothing else. -/
lemma frame_withDuals {frame : Frame R} (h : definition.frame = .ok frame)
    (hequality : checkDual .equality frame.equalities duals.equality = .ok checked.equality)
    (hinequality :
      checkDual .inequality frame.inequalities duals.inequality = .ok checked.inequality) :
    (definition.withDuals duals).frame = .ok { frame with
      equalityDual := checked.equality, inequalityDual := checked.inequality } := by
  obtain ⟨hmask, hupper, hbounds, hbinary, hequalities, hinequalities, hpenalty, hpenalty', -, -,
    hstart⟩ := frame_eq_ok.1 h
  exact frame_eq_ok.2 ⟨hmask, hupper, hbounds, hbinary, hequalities, hinequalities, hpenalty,
    hpenalty', hequality, hinequality, hstart⟩

end Definition

/-- A definition with other duals becomes the same problem with these duals. -/
lemma setup_withDuals {prepared : Prepared R} (h : setup G definition config = .ok prepared)
    (hequality : Definition.checkDual .equality prepared.problem.equalities duals.equality =
      .ok checked.equality)
    (hinequality : Definition.checkDual .inequality prepared.problem.inequalities
      duals.inequality = .ok checked.inequality) :
    setup G (definition.withDuals duals) config =
      .ok { prepared with problem := prepared.problem.withDuals checked } := by
  obtain ⟨frame, smoothness, notices, gain, start, midpoint, source, source', hframe,
    hsmoothness, hpositive, hgain, hstart, hmidpoint, -⟩ := setup_eq_ok h
  have hparts := setup_eq hframe hsmoothness hpositive hgain hstart hmidpoint
  obtain rfl := Except.ok.inj (h.symm.trans hparts)
  have hframe' := Definition.frame_withDuals hframe hequality hinequality
  exact setup_eq hframe' hsmoothness hpositive hgain hstart hmidpoint

/-- A definition supplied with finite duals that fit its problem becomes the same problem with
these duals. -/
lemma setup_supply {prepared : Prepared R} (h : setup G definition config = .ok prepared)
    (hfit : duals.Fit prepared.problem) (hfinite : duals.IsFinite) :
    setup G (definition.supply duals) config =
      .ok { prepared with problem := prepared.problem.withDuals duals } :=
  setup_withDuals h (Definition.checkDual_orElse _ hfit.equality hfinite.1)
    (Definition.checkDual_orElse _ hfit.inequality hfinite.2)

end Setup

/-! ## The loop does not read supplied duals -/

namespace Dynamics

/-- The same dynamics of a problem with other duals. -/
def withDuals (d : Dynamics R) (duals : DualVariables R) : Dynamics R :=
  { d with problem := d.problem.withDuals duals }

variable [Scalar R] [RandomSource G R] {d : Dynamics R} {duals : DualVariables R}

/-- What stays fixed during a run depends on the duals that are in use, not on the supplied ones. -/
lemma ofProblem_withDuals (problem : Problem R) (config : Config R)
    (duals used : DualVariables R) : ofProblem (problem.withDuals duals) config used =
      (fun d => d.withDuals duals) <$> ofProblem problem config used := by
  have hsmoothness : (problem.withDuals duals).effectiveSmoothness =
      problem.effectiveSmoothness := rfl
  unfold ofProblem
  rw [hsmoothness]
  cases problem.effectiveSmoothness <;> rfl

/-- The first position does not depend on supplied duals. -/
lemma start_withDuals (source : G) : (d.withDuals duals).start source = d.start source := rfl

/-- A move does not depend on supplied duals. -/
lemma move_withDuals (iteration : ℕ) (p : Position R G) :
    (d.withDuals duals).move iteration p = d.move iteration p := rfl

/-- The loop does not depend on supplied duals. -/
lemma iterate_withDuals (observer : Observer σ (Event R) Action) (remaining iteration : ℕ)
    (p : Position R G) (t : Trajectory R) (w : σ) :
    (d.withDuals duals).iterate observer remaining iteration p t w =
      d.iterate observer remaining iteration p t w := by
  induction remaining generalizing iteration p t w with
  | zero => rfl
  | succ remaining ih =>
    unfold iterate
    simp only [move_withDuals, ih]
    rfl

/-- A run that is watched depends neither on supplied duals nor on the status of those in use, if
the observer gives the same answer to both. -/
lemma watch_withDuals {observer : Observer σ (Event R) Action} {w : σ}
    {estimate estimate' : DualEstimate R}
    (hblind : observer.observe w (.dualsResolved estimate') =
      observer.observe w (.dualsResolved estimate)) (p : Position R G) :
    (d.withDuals duals).watch observer estimate' p w = d.watch observer estimate p w := by
  unfold watch
  simp only [iterate_withDuals, hblind]
  rfl

end Dynamics

/-! ## Runs with the duals of an earlier estimate -/

/-- The same solution, with the word that its duals were supplied. -/
def Solution.asSupplied (solution : Solution R) : Solution R :=
  { solution with dualStatus := .supplied }

/-- The same report, with the word that the duals were supplied. -/
def RunReport.asSupplied (report : RunReport R σ) : RunReport R σ :=
  { report with
    outcome := Solution.asSupplied <$> report.outcome
    opening := [⟨.debug, "using supplied dual variables", []⟩] }

section Runs

variable [Scalar R] [RandomSource G R] {problem : Problem R} {config : Config R}
  {found : DualEstimate R} {said : List (Notice R)}

/-- Complete duals are used as they are. -/
lemma DualAscent.resolve_withDuals {duals : DualVariables R}
    (hconstrained : problem.isConstrained = true) (hfit : duals.Fit problem)
    (settings : DualAscentSettings R) : resolve (problem.withDuals duals) settings =
      .ok (⟨duals, .supplied⟩, [⟨.debug, "using supplied dual variables", []⟩]) := by
  have hconstrained' : (problem.withDuals duals).isConstrained = true := hconstrained
  simp only [resolve, hconstrained', hfit.hasAllDuals, Bool.not_true, Bool.false_eq_true, if_false,
    if_true]
  rfl

/-- Where duals are missing they are estimated. -/
lemma DualAscent.resolve_eq_estimate (hmissing : problem.hasAllDuals = false)
    (settings : DualAscentSettings R) : resolve problem settings = estimate problem settings := by
  simp [resolve, Problem.isConstrained_of_hasAllDuals hmissing, hmissing]

/-- A run of a problem with the duals that are estimated for it is the run of the problem itself,
if the observer does not look at the status of the duals. -/
lemma solve_withDuals {observer : Observer σ (Event R) Action} {w : σ}
    (hmissing : problem.hasAllDuals = false)
    (hestimate : DualAscent.estimate problem config.dualAscent = .ok (found, said))
    (hblind : observer.observe w (.dualsResolved ⟨found.duals, .supplied⟩) =
      observer.observe w (.dualsResolved found)) :
    solve G (problem.withDuals found.duals) config observer w =
      RunReport.asSupplied <$> solve G problem config observer w := by
  have hresolve := (DualAscent.resolve_eq_estimate hmissing config.dualAscent).trans hestimate
  have hresolve' := DualAscent.resolve_withDuals
    (Problem.isConstrained_of_hasAllDuals hmissing) (DualAscent.fit_of_estimate hestimate)
    config.dualAscent
  simp only [solve, hresolve, hresolve', Outcome.ok_bind, Dynamics.ofProblem_withDuals]
  rcases Dynamics.ofProblem problem config found.duals with breach | d
  · rfl
  have hwatch (p : Position R G) :
      (d.withDuals found.duals).watch observer ⟨found.duals, .supplied⟩ p w =
        d.watch observer found p w := Dynamics.watch_withDuals hblind p
  simp only [Outcome.ok_map, Outcome.ok_bind, Dynamics.start_withDuals]
  rcases d.start (RandomSource.ofSeed config.seed : G) with breach | failure | first
  · rfl
  · rfl
  simp only [Outcome.ok_bind, hwatch]
  rcases d.watch observer found first w with breach | ⟨failure | final, w'⟩
  · rfl
  · rfl
  · simp only [Outcome.ok_bind, RunReport.ofEnd, RunEnd.solution]
    cases final.trajectory.trimmed (final.iterations + 1) with
    | error breach => rfl
    | ok trajectory => rfl

/-- A solution bears the duals that were estimated for it, and their status. -/
lemma duals_of_solve {observer : Observer σ (Event R) Action} {w : σ} {report : RunReport R σ}
    {solution : Solution R} (hmissing : problem.hasAllDuals = false)
    (hestimate : DualAscent.estimate problem config.dualAscent = .ok (found, said))
    (h : solve G problem config observer w = .ok report)
    (hsolution : report.outcome = .ok solution) : solution.duals = found.duals ∧
      solution.dualStatus = found.status := by
  obtain ⟨estimate, opening, d, hresolve, -, hreports⟩ := solve_eq_ok.1 h
  rw [DualAscent.resolve_eq_estimate hmissing, hestimate] at hresolve
  obtain ⟨rfl, -⟩ := Prod.mk.inj (Except.ok.inj hresolve)
  exact hreports.duals_eq hsolution

/-- Estimated duals can be fed back.  Let duals of some block of a problem be missing, and let the
duals that are estimated for it be finite.  The definition supplied with them becomes the same
problem with these duals.  A run of that problem breaks, fails or ends as the run of the first
problem does, and the solutions differ in the status of the duals alone, which is that of the
estimate in one case and says in the other that they were supplied. -/
theorem reuse_of_estimate {definition : Definition R} {prepared : Prepared R}
    (hsetup : setup G definition config = .ok prepared)
    (hmissing : prepared.problem.hasAllDuals = false)
    (hestimate : DualAscent.estimate prepared.problem config.dualAscent = .ok (found, said))
    (hfinite : found.duals.IsFinite) :
    setup G (definition.supply found.duals) config =
        .ok { prepared with problem := prepared.problem.withDuals found.duals } ∧
      solveUnobserved G (prepared.problem.withDuals found.duals) config =
        RunReport.asSupplied <$> solveUnobserved G prepared.problem config ∧
      ∀ report, solveUnobserved G prepared.problem config = .ok report →
        ∀ solution, report.outcome = .ok solution →
          solution.duals = found.duals ∧ solution.dualStatus = found.status :=
  ⟨setup_supply hsetup (DualAscent.fit_of_estimate hestimate) hfinite,
    solve_withDuals hmissing hestimate rfl,
    fun _ hreport _ hsolution => duals_of_solve hmissing hestimate hreport hsolution⟩

end Runs

/-! ## Runs in exact arithmetic -/

namespace Dynamics

variable [RandomSource G ℝ] {d : Dynamics ℝ}

/-- In exact arithmetic everything is finite. -/
lemma isFinite_real (objective : ℝ) (gradient : Vec ℝ) : isFinite objective gradient = true := by
  simp [isFinite, Vec.isFinite]

/-- In exact arithmetic no start fails. -/
lemma start_ne_failure {source : G} {failure : RunError} :
    d.start source ≠ .ok (.error failure) := by
  intro h
  simp only [start, isFinite_real, Outcome.bind_eq_ok, Bool.not_true, Bool.false_eq_true,
    if_false] at h
  obtain ⟨hidden, -, objective, -, gradient, -, h⟩ := h
  split_ifs at h
  · obtain ⟨stationarity, -, h⟩ := h
    cases h
  · obtain ⟨stationarity, -, h⟩ := h
    cases h

/-- In exact arithmetic no move fails. -/
lemma move_ne_failure {n : ℕ} {p : Position ℝ G} {failure : RunError} :
    d.move n p ≠ .ok (.error failure) := by
  intro h
  simp only [move, isFinite_real, Outcome.bind_eq_ok, Bool.not_true, Bool.false_eq_true,
    if_false] at h
  obtain ⟨⟨direction, source⟩, -, ⟨step, c⟩, -, gradient, -, x, -, stationarity, -, h⟩ := h
  cases h

/-- In exact arithmetic every run that comes to a result comes to an end. -/
lemma Executes.exists_end {observer : Observer σ (Event ℝ) Action} {remaining n : ℕ}
    {p : Position ℝ G} {t : Trajectory ℝ} {w w' : σ} {result : Except RunError (RunEnd ℝ G)}
    (h : d.Executes observer remaining n p t w result w') : ∃ final, result = .ok final := by
  induction h with
  | settled => exact ⟨_, rfl⟩
  | full => exact ⟨_, rfl⟩
  | failed _ hmove => exact absurd hmove move_ne_failure
  | stopped => exact ⟨_, rfl⟩
  | next _ _ _ _ _ ih => exact ih

end Dynamics

/-- In exact arithmetic every report has a solution. -/
lemma exists_solution_of_solve [RandomSource G ℝ] {problem : Problem ℝ} {config : Config ℝ}
    {observer : Observer σ (Event ℝ) Action} {w : σ} {report : RunReport ℝ σ}
    (h : solve G problem config observer w = .ok report) :
    ∃ solution, report.outcome = .ok solution := by
  obtain ⟨estimate, opening, d, -, -, ⟨failure, hstart, -⟩ |
    ⟨first, result, w', -, hwatch, hreport⟩⟩ := solve_eq_ok.1 h
  · exact absurd hstart Dynamics.start_ne_failure
  obtain ⟨failure, rfl, -⟩ | ⟨final, solution, -, -, rfl⟩ := RunReport.ofEnd_eq_ok.1 hreport
  · obtain ⟨t, -, ⟨-, -, hresult⟩ | ⟨w₀, -, hexecutes⟩⟩ := Dynamics.watch_eq_ok.1 hwatch
    · cases hresult
    · obtain ⟨final, hresult⟩ := hexecutes.exists_end
      cases hresult
  · exact ⟨solution, rfl⟩

/-! ## Duals for one block alone -/

/-- The slope can be set up with the duals of its equation alone. -/
lemma OneStep.setup_equalityDual :
    ∃ notices, setup Unit (OneStep.definition.withDuals ⟨some [0], none⟩) ⟨OneStep.draft none⟩ =
      .ok ⟨OneStep.problem.withDuals ⟨some [0], none⟩, notices⟩ := by
  obtain ⟨notices, hsetup⟩ := OneStep.setup_definition none (by simp)
  have hequality : Definition.checkDual .equality OneStep.problem.equalities (some [0]) =
      .ok (some [(0 : ℝ)]) := by
    simp [Definition.checkDual, OneStep.problem, ConstraintBlock.height, DenseMatrix.height,
      DenseMatrix.ofRow, Vec.isFinite]
  exact ⟨notices, setup_withDuals hsetup hequality rfl⟩

/-- The slope with the duals of its equation alone: both duals are estimated, and a run with them
supplied gives the same solution. -/
theorem reuse_of_estimate_oneStep : ∃ (prepared : Prepared ℝ) (found : DualEstimate ℝ)
    (said : List (Notice ℝ)) (report : RunReport ℝ Unit) (solution : Solution ℝ),
    setup Unit (OneStep.definition.withDuals ⟨some [0], none⟩) ⟨OneStep.draft none⟩ =
      .ok prepared ∧
    prepared.problem.equalityDual = some [0] ∧ prepared.problem.hasAllDuals = false ∧
    DualAscent.estimate prepared.problem (OneStep.draft none).dualAscent = .ok (found, said) ∧
    found.duals.IsFinite ∧ found.duals.inequality.isSome = true ∧
    setup Unit ((OneStep.definition.withDuals ⟨some [0], none⟩).supply found.duals)
      ⟨OneStep.draft none⟩ =
        .ok { prepared with problem := prepared.problem.withDuals found.duals } ∧
    solveUnobserved Unit prepared.problem ⟨OneStep.draft none⟩ = .ok report ∧
    solveUnobserved Unit (prepared.problem.withDuals found.duals) ⟨OneStep.draft none⟩ =
      .ok report.asSupplied ∧
    report.outcome = .ok solution ∧ solution.duals = found.duals ∧
    solution.dualStatus = found.status := by
  obtain ⟨notices, hsetup'⟩ := OneStep.setup_equalityDual
  have hproblem := wellFormed_of_setup hsetup'
  have hobjective : (OneStep.problem.withDuals ⟨some [0], none⟩).objective.ReturnsOn 1 :=
    Landscape.returnsOn_linear [1]
  obtain ⟨⟨found, said⟩, hestimate, hfit⟩ :=
    DualAscent.returns_estimate hproblem hobjective (OneStep.draft none).dualAscent
  have hfinite : found.duals.IsFinite := by simp [DualVariables.IsFinite, Vec.isFinite]
  have hsome : found.duals.inequality.isSome = true := by
    have h := congrArg Option.isSome hfit.inequality
    rw [Option.isSome_map] at h
    exact h
  obtain ⟨report, hreport, -⟩ : Outcome.Returns (solveUnobserved Unit
      (OneStep.problem.withDuals ⟨some [0], none⟩) ⟨OneStep.draft none⟩) _ :=
    returns_solve hproblem hobjective two_pos .silent ()
  obtain ⟨solution, hsolution⟩ := exists_solution_of_solve hreport
  obtain ⟨hsupply, hrun, hduals⟩ :=
    reuse_of_estimate hsetup' rfl hestimate hfinite
  rw [hreport] at hrun
  exact ⟨_, found, said, report, solution, hsetup', rfl, rfl, hestimate, hfinite, hsome, hsupply,
    hreport, hrun, hsolution, hduals report hreport solution hsolution⟩

end HopfieldDescent

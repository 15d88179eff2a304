import Mathlib
import HopfieldDescent.Proofs.Config.Accepted
import HopfieldDescent.Proofs.Direction.Total
import HopfieldDescent.Proofs.Dual.Total
import HopfieldDescent.Proofs.Problem.Total
import HopfieldDescent.Proofs.Run.Feasibility

/-!
# Runs return

Whatever `setup` makes of a definition, nothing breaks afterwards.  A definition whose objective
returns becomes a problem or is refused; the problem has the shape that is listed in
`Problem.Validated`; and on such a problem the duals are estimated and every run returns a report,
under every accepted configuration and every observer.

A run keeps an entry for each variable and a slack for each inequality from position to position
(`Position.Fits`), and each step finds the room that its iterate needs.
-/

open HopfieldDescent.Outcome (Returns Answers)

namespace HopfieldDescent

variable {R G σ : Type} [Scalar R] {n : ℕ}

/-! ## Step lengths -/

namespace StepLength

/-- The closed formula works on vectors of one length. -/
lemma returns_closedForm {proxy gradient direction gain : Vec R} (hproxy : proxy.length = n)
    (hgradient : gradient.length = n) (hdirection : direction.length = n)
    (hgain : gain.length = n) (smoothness : R) :
    Returns (closedForm proxy gradient direction gain smoothness) fun _ => True :=
  (Vec.returns_zipExact hdirection hgain).bind fun _ hsquares =>
    (Vec.returns_zipExact hsquares hgradient).bind fun _ _ =>
      (Vec.returns_zipExact3 hproxy hgradient hdirection).bind fun _ _ => .ok trivial

/-- Backtracking returns what a trial returns, if every trial returns. -/
lemma returns_backtrack {ε T : Type} {P : T → Prop} {trial : R → Except ε (R × T)}
    (htrial : ∀ step, Returns (trial step) fun tried => P tried.2) (current slope : R)
    (halvings : ℕ) (step : R) :
    Returns (backtrack trial current slope halvings step) fun taken => P taken.2 := by
  induction halvings generalizing step with
  | zero => exact (htrial step).bind fun _ hcandidate => .ok hcandidate
  | succ halvings ih =>
    refine (htrial step).bind fun ⟨value, candidate⟩ hcandidate => ?_
    dsimp only
    split_ifs
    · exact .ok hcandidate
    · exact ih _

end StepLength

/-! ## Positions -/

/-- A position has an entry for each variable and a slack for each inequality. -/
structure Position.Fits (p : Position R G) (problem : Problem R) : Prop where
  /-- What is recorded of it. -/
  iterate : p.iterate.Fits problem
  /-- The gradient. -/
  length_gradient : p.gradient.length = problem.dimension

/-- A point reached by a trial step has an entry for each variable and a slack for each
inequality. -/
structure Candidate.Fits (c : Candidate R) (problem : Problem R) : Prop where
  /-- The hidden state. -/
  length_hidden : c.hidden.length = problem.dimension
  /-- The point. -/
  length_x : c.x.length = problem.dimension
  /-- The slack. -/
  length_slack : c.slack.length = problem.slackDimension

/-- What stays fixed during a run suits its problem. -/
structure Dynamics.Fits (d : Dynamics R) : Prop where
  /-- The problem. -/
  problem : d.problem.WellFormed
  /-- The objective. -/
  objective : d.lagrangian.objective.ReturnsOn d.problem.dimension
  /-- The blocks. -/
  lagrangian : d.lagrangian.Fits d.problem.dimension
  /-- The inequalities. -/
  slackDimension : d.lagrangian.slackDimension = d.problem.slackDimension
  /-- The map into the box. -/
  map : d.map.Fits d.problem.dimension

namespace Dynamics

variable {problem : Problem R} {duals : DualVariables R} {d : Dynamics R}

/-- There is a dynamics for a problem at duals that fit. -/
lemma returns_ofProblem (hproblem : problem.WellFormed)
    (hobjective : problem.objective.ReturnsOn problem.dimension) (hduals : duals.Fit problem)
    (config : Config R) :
    Returns (ofProblem problem config duals) fun d =>
      d.Fits ∧ d.problem = problem ∧ d.config = config :=
  problem.returns_effectiveSmoothness.bind fun _ _ =>
    .ok ⟨⟨hproblem, hobjective, Lagrangian.fits_ofProblem hproblem hduals,
      Lagrangian.slackDimension_ofProblem hduals, hproblem.fits_boxMap config.activation⟩, rfl, rfl⟩

/-- A point and a gradient have a stationarity. -/
lemma returns_stationarity (hd : d.Fits) {x gradient : Vec R}
    (hx : x.length = d.problem.dimension) (hgradient : gradient.length = d.problem.dimension) :
    Returns (d.stationarity x gradient) fun _ => True :=
  (BoxMap.returns_proxyDistance hd.map hx).bind fun _ hproxy =>
    (Vec.returns_zipSpread hproxy hgradient).bind fun _ _ => .ok trivial

/-- A point is absorbed. -/
lemma returns_absorb (hd : d.Fits) {x : Vec R} (hx : x.length = d.problem.dimension) :
    Returns (d.absorb x) fun y => y.length = d.problem.dimension := by
  unfold absorb
  split
  · exact Vec.returns_zipExact4 hx rfl hd.problem.length_upper hd.problem.length_midpoint
  · exact .ok hx

/-- A trial step leads to a point and a slack that fit. -/
lemma returns_candidate (hd : d.Fits) {hidden slack direction : Vec R}
    (hhidden : hidden.length = d.problem.dimension)
    (hslack : slack.length = d.problem.slackDimension)
    (hdirection : direction.length = d.problem.dimension) (step : R) :
    Returns (d.candidate hidden slack direction step) fun c => c.Fits d.problem := by
  have hslackDimension := hd.slackDimension
  refine (Vec.returns_zipOnto hhidden hdirection).bind fun hidden' hhidden' => ?_
  refine (BoxMap.returns_activate hd.map hhidden').bind fun x hx => ?_
  refine (Lagrangian.returns_updateSlack hd.lagrangian hx
    (hslack.trans hslackDimension.symm)).bind fun slack' hslack' => ?_
  exact (Lagrangian.returns_value (hd.objective.value x hx) hd.lagrangian hx
    (Lagrangian.slackFits_of_length hslack')).bind fun _ _ =>
      .ok ⟨hhidden', hx, hslack'.trans hslackDimension⟩

/-- Both step rules choose a step. -/
lemma returns_chosenStep (hd : d.Fits) {p : Position R G} (hp : p.Fits d.problem)
    {direction : Vec R} (hdirection : direction.length = d.problem.dimension) (iteration : ℕ) :
    Returns (d.chosenStep iteration p direction) fun chosen => chosen.2.Fits d.problem := by
  have hcandidate (step : R) := returns_candidate hd hp.iterate.length_hidden
    hp.iterate.length_slack hdirection step
  unfold chosenStep
  refine (BoxMap.returns_proxyDistance hd.map hp.iterate.length_x).bind fun proxy hproxy => ?_
  split
  · refine (StepLength.returns_closedForm hproxy hp.length_gradient hdirection
      hd.problem.length_gain _).bind fun _ _ => ?_
    exact (hcandidate _).bind fun c hc => .ok hc
  · refine (Vec.returns_zipSpread hproxy hp.length_gradient).bind fun weighted hweighted => ?_
    refine (Vec.returns_dot (hweighted.trans hdirection.symm)).bind fun slope _ => ?_
    exact StepLength.returns_backtrack (P := fun c : Candidate R => c.Fits d.problem)
      (fun step => (hcandidate step).bind fun c hc => .ok hc) _ _ _ _

variable [RandomSource G R]

/-- A run starts at a position that fits, unless the start fails. -/
lemma returns_start (hd : d.Fits) (source : G) :
    Returns (d.start source) fun result => ∀ p, result = .ok p → p.Fits d.problem := by
  have hx := hd.problem.length_start
  have hslack : (Vec.zeros d.problem.slackDimension : Vec R).length = d.problem.slackDimension :=
    Vec.length_zeros _
  have hslackFits := Lagrangian.slackFits_of_length (hslack.trans hd.slackDimension.symm)
  refine (BoxMap.returns_inverse hd.map hx).bind fun hidden hhidden => ?_
  refine (Lagrangian.returns_value (hd.objective.value _ hx) hd.lagrangian hx hslackFits).bind
    fun objective _ => ?_
  refine (Lagrangian.returns_gradient (hd.objective.gradient _ hx) hd.lagrangian hx
    hslackFits).bind fun gradient hgradient => ?_
  have hposition {gradient : Vec R} (hgradient : gradient.length = d.problem.dimension)
      (source : G) : Returns (do
        let stationarity ← d.stationarity d.problem.start gradient
        return (.ok ⟨d.problem.start, hidden, Vec.zeros d.problem.slackDimension, objective,
          gradient, stationarity, source⟩ : Except RunError (Position R G))) fun result =>
      ∀ p, result = .ok p → p.Fits d.problem := by
    refine (returns_stationarity hd hx hgradient).bind fun _ _ => .ok ?_
    rintro _ ⟨⟩
    exact ⟨⟨hx, hhidden, hslack⟩, hgradient⟩
  dsimp only
  split_ifs
  · exact .ok nofun
  · exact hposition (StartPoint.length_perturbedGradient ..) _
  · exact hposition hgradient _

/-- A move leads from a position that fits to a position that fits, unless it fails. -/
lemma returns_move (hd : d.Fits) {p : Position R G} (hp : p.Fits d.problem) (iteration : ℕ) :
    Returns (d.move iteration p) fun result =>
      ∀ step q, result = .ok (step, q) → q.Fits d.problem := by
  refine (Direction.returns_find hd.problem hd.map d.config hp.iterate.length_x
    hp.length_gradient p.source).bind fun ⟨direction, source⟩ hdirection => ?_
  refine (returns_chosenStep hd hp hdirection iteration).bind fun ⟨step, c⟩ hc => ?_
  obtain ⟨hhidden, hx, hslack⟩ := hc
  have hslackFits := Lagrangian.slackFits_of_length (hslack.trans hd.slackDimension.symm)
  refine (Lagrangian.returns_gradient (hd.objective.gradient _ hx) hd.lagrangian hx
    hslackFits).bind fun gradient hgradient => ?_
  split_ifs
  · exact .ok nofun
  · refine (returns_absorb hd hx).bind fun y hy => ?_
    refine (returns_stationarity hd hy hgradient).bind fun _ _ => .ok ?_
    rintro _ _ ⟨⟩
    exact ⟨⟨hy, hhidden, hslack⟩, hgradient⟩

/-! ## Whole runs -/

variable {remaining number : ℕ} {t : Trajectory R}

/-- What is recorded of a run fits. -/
def Records (d : Dynamics R) (result : Except RunError (RunEnd R G)) : Prop :=
  ∀ e, result = .ok e →
    ∀ iterate ∈ (e.trajectory.upTo (e.iterations + 1)).iterates, iterate.Fits d.problem

/-- The loop comes to a result, and everything that it records fits.  In particular every iterate
has the lengths that have been set aside for it, whether or not a later step fails. -/
lemma exists_executes (hd : d.Fits) {p : Position R G} (hp : p.Fits d.problem)
    (hroom : t.HasRoom remaining number)
    (htakes : ∀ iterate : Iterate R, iterate.Fits d.problem → t.Takes iterate)
    (ht : ∀ iterate ∈ (t.upTo (number + 1)).iterates, iterate.Fits d.problem)
    (observer : Observer σ (Event R) Action) (w : σ) :
    ∃ result w', d.Executes observer remaining number p t w result w' ∧ d.Records result := by
  induction remaining generalizing number p t w with
  | zero =>
    by_cases hsettled : p.stationarity < d.config.precision
    · exact ⟨_, _, .settled hsettled, by rintro _ ⟨⟩; exact ht⟩
    · exact ⟨_, _, .full hsettled, by rintro _ ⟨⟩; exact ht⟩
  | succ remaining ih =>
    by_cases hsettled : p.stationarity < d.config.precision
    · exact ⟨_, _, .settled hsettled, by rintro _ ⟨⟩; exact ht⟩
    · obtain ⟨failure | ⟨step, q⟩, hmove, hq⟩ := returns_move hd hp number
      · exact ⟨_, _, .failed hsettled hmove, nofun⟩
      · have hq := hq step q rfl
        obtain ⟨t', hextend⟩ := hroom.exists_extend (htakes _ hq.iterate) step
        have htakes' : ∀ iterate : Iterate R, iterate.Fits d.problem → t'.Takes iterate :=
          fun iterate hfits => (Trajectory.takes_extend hextend).2 (htakes iterate hfits)
        have ht' : ∀ iterate ∈ (t'.upTo (number + 2)).iterates, iterate.Fits d.problem := by
          rw [Trajectory.upTo_extend hextend]
          intro iterate hmem
          rcases Array.mem_push.1 hmem with hmem | rfl
          · exact ht iterate hmem
          · exact hq.iterate
        rcases hanswer : observer.observe w (q.event (number + 1) step) with ⟨_ | ⟨⟨⟩⟩, w'⟩
        · obtain ⟨result, w'', hrest, hrecords⟩ :=
            ih hq (hroom.of_extend hextend) htakes' ht' w'
          exact ⟨result, w'', .next hsettled hmove hextend hanswer hrest, hrecords⟩
        · exact ⟨_, w', .stopped hsettled hmove hextend hanswer, by rintro _ ⟨⟩; exact ht'⟩

/-- A run that is watched comes to a result. -/
lemma returns_watch (hd : d.Fits) (hroom : 0 < d.config.maxIterations) {first : Position R G}
    (hfirst : first.Fits d.problem) (observer : Observer σ (Event R) Action)
    (estimate : DualEstimate R) (w : σ) :
    Returns (d.watch observer estimate first w) fun result => d.Records result.1 := by
  obtain ⟨t, hopened⟩ := exists_opened hroom hfirst.iterate
  have ht : ∀ iterate ∈ (t.upTo 1).iterates, iterate.Fits d.problem := by
    rw [upTo_of_opened hopened]
    intro iterate hmem
    obtain rfl : iterate = first.iterate := by simpa using hmem
    exact hfirst.iterate
  have hloop (w₀ : σ) (hinforms : d.Informs observer estimate w w₀) :
      Returns (d.watch observer estimate first w) fun result => d.Records result.1 := by
    obtain ⟨result, w', hexecutes, hrecords⟩ :=
      exists_executes hd hfirst (hasRoom_of_opened hopened)
        (fun iterate => takes_of_opened hopened) ht observer w₀
    exact ⟨(result, w'), watch_eq_ok.2 ⟨t, hopened, .inr ⟨w₀, hinforms, hexecutes⟩⟩, hrecords⟩
  by_cases hconstrained : d.problem.isConstrained = true
  · rcases hanswer : observer.observe w (.dualsResolved estimate) with ⟨_ | ⟨⟨⟩⟩, w₀⟩
    · exact hloop w₀ (by rw [Informs, if_pos hconstrained, hanswer])
    · refine ⟨(_, w₀), watch_eq_ok.2 ⟨t, hopened, .inl ⟨hconstrained, hanswer, rfl⟩⟩, ?_⟩
      rintro _ ⟨⟩
      exact ht
  · exact hloop w (by rw [Informs, if_neg hconstrained])

end Dynamics

section Runs

variable [RandomSource G R] [IeeeComparison R] {problem : Problem R} {config : Config R}

/-- A run of a well formed problem returns a report, and everything that it records fits. -/
theorem returns_solve (hproblem : problem.WellFormed)
    (hobjective : problem.objective.ReturnsOn problem.dimension) (hroom : 0 < config.maxIterations)
    (observer : Observer σ (Event R) Action) (w : σ) :
    Returns (solve G problem config observer w) fun report =>
      ∀ solution, report.outcome = .ok solution →
        ∀ iterate ∈ solution.trajectory.iterates, iterate.Fits problem := by
  obtain ⟨⟨estimate, opening⟩, hresolve, hfit⟩ :=
    DualAscent.returns_resolve hproblem hobjective config.dualAscent
  obtain ⟨d, hd, hfits, rfl, rfl⟩ :=
    Dynamics.returns_ofProblem hproblem hobjective hfit config
  obtain ⟨failure | first, hstart, hfirst⟩ :=
    Dynamics.returns_start hfits (RandomSource.ofSeed d.config.seed : G)
  · exact ⟨_, solve_eq_ok.2 ⟨_, _, d, hresolve, hd, .inl ⟨failure, hstart, rfl⟩⟩, nofun⟩
  · obtain ⟨⟨result, w'⟩, hwatch, hrecords⟩ :=
      Dynamics.returns_watch hfits hroom (hfirst first rfl) observer estimate w
    rcases result with failure | final
    · exact ⟨_, solve_eq_ok.2 ⟨_, _, d, hresolve, hd, .inr ⟨first, _, w', hstart, hwatch,
        RunReport.ofEnd_eq_ok.2 (.inl ⟨failure, rfl, rfl⟩)⟩⟩, nofun⟩
    · obtain ⟨⟨unused, hroom'⟩, -⟩ := Dynamics.hasRoom_of_watch hwatch
      refine ⟨_, solve_eq_ok.2 ⟨_, _, d, hresolve, hd, .inr ⟨first, _, w', hstart, hwatch,
        RunReport.ofEnd_eq_ok.2 (.inr ⟨final, _, rfl, RunEnd.solution_eq hroom' estimate,
          rfl⟩)⟩⟩, ?_⟩
      intro solution hsolution
      obtain rfl := Except.ok.inj hsolution
      exact hrecords final rfl

/-- Nothing breaks between a definition and the end of a run, as long as the objective returns at
points with a coordinate for each variable.  The definition becomes a problem or is refused.  A
problem has the shape that belongs to its number of variables, and on it duals that fit are
estimated, and every run returns a report, in which every iterate has an entry for each variable
and a slack for each inequality. -/
theorem total_of_setup {definition : Definition R}
    (hobjective : definition.objective.ReturnsOn definition.lower.length) :
    ((∃ prepared, setup G definition config = .ok prepared) ∨
      ∃ cause, setup G definition config = .error (.refused cause)) ∧
    ∀ prepared, setup G definition config = .ok prepared →
      prepared.problem.Validated definition.lower.length ∧
      (∀ settings, Returns (DualAscent.estimate prepared.problem settings) fun found =>
        found.1.duals.Fit prepared.problem) ∧
      ∀ (draft : Settings R) (config' : Config R), draft.build = .ok config' →
        ∀ (σ : Type) (observer : Observer σ (Event R) Action) (w : σ),
          Returns (solve G prepared.problem config' observer w) fun report =>
            ∀ solution, report.outcome = .ok solution →
              ∀ iterate ∈ solution.trajectory.iterates, iterate.Fits prepared.problem := by
  refine ⟨?_, fun prepared hsetup => ?_⟩
  · obtain ⟨prepared, hsetup, -⟩ | hrefused :
        Answers (setup G definition config) fun _ => True := answers_setup hobjective
    · exact .inl ⟨prepared, hsetup⟩
    · exact .inr hrefused
  have hproblem := wellFormed_of_setup hsetup
  obtain ⟨frame, smoothness, notices, gain, start, midpoint, source, source', -, -, -, -, -, -,
    hparts⟩ := setup_eq_ok hsetup
  have hdimension : prepared.problem.dimension = definition.lower.length := by
    rw [hparts]
    rfl
  have hobjective' : prepared.problem.objective.ReturnsOn prepared.problem.dimension := by
    rw [hparts]
    exact hobjective
  refine ⟨hdimension ▸ hproblem.validated,
    DualAscent.returns_estimate hproblem hobjective', ?_⟩
  intro draft config' hbuild σ observer w
  obtain ⟨rfl, hrange⟩ := Settings.inRange_of_build hbuild
  exact returns_solve hproblem hobjective' (Nat.pos_of_ne_zero hrange.maxIterations) observer w

end Runs

/-- The slope with an equation and an inequality becomes a problem, on which duals are estimated
and a run returns a report. -/
theorem total_of_setup_oneStep : ∃ (prepared : Prepared ℝ)
    (found : DualEstimate ℝ × List (Notice ℝ)) (report : RunReport ℝ Unit),
    OneStep.definition.objective.ReturnsOn OneStep.definition.lower.length ∧
    setup Unit OneStep.definition ⟨OneStep.draft none⟩ = .ok prepared ∧
    prepared.problem.Validated 1 ∧
    DualAscent.estimate prepared.problem .standard = .ok found ∧
    found.1.duals.Fit prepared.problem ∧
    (OneStep.draft none).build = .ok ⟨OneStep.draft none⟩ ∧
    solve Unit prepared.problem ⟨OneStep.draft none⟩ .silent () = .ok report ∧
    ∀ solution, report.outcome = .ok solution →
      ∀ iterate ∈ solution.trajectory.iterates, iterate.Fits prepared.problem := by
  have hobjective : OneStep.definition.objective.ReturnsOn OneStep.definition.lower.length :=
    Landscape.returnsOn_linear [1]
  have hbuild := Settings.build_of_inRange (OneStep.inRange_draft none (by simp))
  obtain ⟨notices, hsetup⟩ := OneStep.setup_definition none (by simp)
  obtain ⟨hvalidated, hestimate, hsolve⟩ := (total_of_setup hobjective).2 _ hsetup
  obtain ⟨found, hfound, hfit⟩ := hestimate .standard
  obtain ⟨report, hreport, hiterates⟩ := hsolve _ _ hbuild Unit .silent ()
  exact ⟨_, found, report, hobjective, hsetup, hvalidated, hfound, hfit, hbuild, hreport,
    hiterates⟩

end HopfieldDescent

import Mathlib
import HopfieldDescent.Observer.Log
import HopfieldDescent.Proofs.Run.Execution
import HopfieldDescent.Proofs.Run.Feasibility

/-!
# What stops a run does not steer it

The cap on iterates, the precision and the observer decide where a run ends, and nothing else.  Two
runs that differ only in them make the same moves, so that the shorter trajectory is a prefix of the
longer one, and a failure of one run is met by the other unless that one has ended before.

Three facts make this up.  A move does not look at what stops a run
(`Dynamics.move_stoppingAt`), which is so by definition.  The paths of two runs are therefore
prefixes of each other (`Dynamics.Path.isPrefix`), and a run into a failure shows any other run the
way (`Dynamics.Executes.exists_of_failed`).  And a run depends on its observer only through the
answers (`solve_of_answersLike`).
-/

namespace HopfieldDescent

variable {R G σ τ : Type}

/-! ## Observers with the same answers -/

/-- From related states on, the second observer gives the answers of the first. -/
def Observer.AnswersLike {ε α : Type} (related : σ → τ → Prop) (observer : Observer σ ε α)
    (other : Observer τ ε α) : Prop :=
  ∀ w v event, related w v →
    (other.observe v event).1 = (observer.observe w event).1 ∧
      related (observer.observe w event).2 (other.observe v event).2

/-- The state of an observer after an event that was answered in a certain way. -/
lemma Observer.AnswersLike.exists_of_observe {ε α : Type} {related : σ → τ → Prop}
    {observer : Observer σ ε α} {other : Observer τ ε α} (h : observer.AnswersLike related other)
    {w w' : σ} {v : τ} {event : ε} {answer : Option α} (hw : related w v)
    (hanswer : observer.observe w event = (answer, w')) :
    ∃ v', related w' v' ∧ other.observe v event = (answer, v') := by
  obtain ⟨hsame, hrelated⟩ := h w v event hw
  rw [hanswer] at hsame hrelated
  exact ⟨_, hrelated, Prod.ext hsame rfl⟩

variable [Scalar R] [RandomSource G R]

section Answers

variable {related : σ → τ → Prop} {observer : Observer σ (Event R) Action}
  {other : Observer τ (Event R) Action}

/-- Under an observer with the same answers, the loop comes to the same result. -/
lemma Dynamics.Executes.of_answersLike (h : observer.AnswersLike related other) {d : Dynamics R}
    {remaining n : Nat} {p : Position R G} {t : Trajectory R} {w w' : σ}
    {result : Except RunError (RunEnd R G)}
    (hrun : d.Executes observer remaining n p t w result w') {v : τ} (hw : related w v) :
    ∃ v', related w' v' ∧ d.Executes other remaining n p t v result v' := by
  induction hrun generalizing v with
  | settled hsettled => exact ⟨v, hw, .settled hsettled⟩
  | full hunsettled => exact ⟨v, hw, .full hunsettled⟩
  | failed hunsettled hmove => exact ⟨v, hw, .failed hunsettled hmove⟩
  | stopped hunsettled hmove hextend hanswer =>
    obtain ⟨v', hv', hother⟩ := h.exists_of_observe hw hanswer
    exact ⟨v', hv', .stopped hunsettled hmove hextend hother⟩
  | next hunsettled hmove hextend hanswer _ ih =>
    obtain ⟨v', hv', hother⟩ := h.exists_of_observe hw hanswer
    obtain ⟨v'', hv'', hrest⟩ := ih hv'
    exact ⟨v'', hv'', .next hunsettled hmove hextend hother hrest⟩

/-- Under an observer with the same answers, a run that is watched comes to the same result. -/
lemma Dynamics.watch_of_answersLike (h : observer.AnswersLike related other) {d : Dynamics R}
    {estimate : DualEstimate R} {first : Position R G} {w w' : σ}
    {result : Except RunError (RunEnd R G)}
    (hwatch : d.watch observer estimate first w = .ok (result, w')) {v : τ} (hw : related w v) :
    ∃ v', related w' v' ∧ d.watch other estimate first v = .ok (result, v') := by
  obtain ⟨t, ht, ⟨hconstrained, hanswer, rfl⟩ | ⟨w₀, hinformed, hrun⟩⟩ := watch_eq_ok.1 hwatch
  · obtain ⟨v', hv', hother⟩ := h.exists_of_observe hw hanswer
    exact ⟨v', hv', watch_eq_ok.2 ⟨t, ht, .inl ⟨hconstrained, hother, rfl⟩⟩⟩
  · obtain ⟨v₀, hv₀, hinformed'⟩ : ∃ v₀, related w₀ v₀ ∧ d.Informs other estimate v v₀ := by
      unfold Informs at hinformed ⊢
      split_ifs at hinformed ⊢
      · exact h.exists_of_observe hw hinformed
      · exact ⟨v, hinformed ▸ hw, rfl⟩
    obtain ⟨v', hv', hrun'⟩ := hrun.of_answersLike h hv₀
    exact ⟨v', hv', watch_eq_ok.2 ⟨t, ht, .inr ⟨v₀, hinformed', hrun'⟩⟩⟩

/-- Observers with the same answers see the same run. -/
theorem solve_of_answersLike (h : observer.AnswersLike related other) {problem : Problem R}
    {config : Config R} {w : σ} {v : τ} (hw : related w v) {report : RunReport R σ}
    (hsolve : solve G problem config observer w = .ok report) :
    ∃ v', related report.observer v' ∧ solve G problem config other v =
      .ok ⟨report.outcome, v', report.opening, report.closing⟩ := by
  obtain ⟨estimate, opening, d, hresolve, hd, ⟨failure, hstart, rfl⟩ |
    ⟨first, result, w', hstart, hwatch, hreport⟩⟩ := solve_eq_ok.1 hsolve
  · exact ⟨v, hw, solve_eq_ok.2 ⟨estimate, opening, d, hresolve, hd, .inl ⟨failure, hstart, rfl⟩⟩⟩
  obtain ⟨v', hv', hwatch'⟩ := Dynamics.watch_of_answersLike h hwatch hw
  have hsolve' (report' : RunReport R τ)
      (h : RunReport.ofEnd estimate opening result v' = .ok report') :
      solve G problem config other v = .ok report' :=
    solve_eq_ok.2 ⟨estimate, opening, d, hresolve, hd, .inr ⟨first, result, v', hstart, hwatch', h⟩⟩
  obtain ⟨failure, rfl, rfl⟩ | ⟨final, solution, rfl, hfinal, rfl⟩ :=
    RunReport.ofEnd_eq_ok.1 hreport
  · exact ⟨v', hv', hsolve' _ rfl⟩
  · exact ⟨v', hv', hsolve' _ (RunReport.ofEnd_eq_ok.2 (.inr ⟨final, solution, rfl, hfinal, rfl⟩))⟩

end Answers

/-! ## Observers that never answer -/

omit [Scalar R] in
/-- Writing a log is no answer. -/
lemma Log.neverAnswers (every : Nat) : (Log.observer every : Observer _ (Event R) _).NeverAnswers :=
  fun _ _ => rfl

/-- Observers that never answer give the same answers. -/
lemma Observer.NeverAnswers.answersLike {ε α : Type} {observer : Observer σ ε α}
    {other : Observer τ ε α} (h : observer.NeverAnswers) (h' : other.NeverAnswers) :
    observer.AnswersLike (fun _ _ => True) other :=
  fun w v event _ => ⟨(h' v event).trans (h w event).symm, trivial⟩

/-- A run under an observer that never answers is the run that nobody watches. -/
lemma solveUnobserved_iff_of_neverAnswers {observer : Observer σ (Event R) Action}
    (h : observer.NeverAnswers) {problem : Problem R} {config : Config R} (w : σ)
    (outcome : Except RunError (Solution R)) :
    (∃ report, solve G problem config observer w = .ok report ∧ report.outcome = outcome) ↔
      ∃ report, solveUnobserved G problem config = .ok report ∧ report.outcome = outcome := by
  have hsilent : (Observer.silent : Observer Unit (Event R) Action).NeverAnswers :=
    Observer.neverAnswers_silent
  constructor
  · rintro ⟨report, hsolve, rfl⟩
    obtain ⟨_, -, hsilent⟩ := solve_of_answersLike (h.answersLike hsilent) trivial hsolve
    exact ⟨_, hsilent, rfl⟩
  · rintro ⟨report, hsolve, rfl⟩
    obtain ⟨_, -, hquiet⟩ := solve_of_answersLike (hsilent.answersLike h) trivial hsolve
    exact ⟨_, hquiet, rfl⟩

/-! ## Another cap and another precision -/

/-- The same settings but for the cap on iterates and the precision. -/
def Config.stoppingAt (config : Config R) (maxIterations : Nat) (precision : R) : Config R :=
  ⟨{ config.toSettings with maxIterations, precision }⟩

namespace Dynamics

/-- The same dynamics but for the cap on iterates and the precision. -/
def stoppingAt (d : Dynamics R) (maxIterations : Nat) (precision : R) : Dynamics R :=
  { d with config := d.config.stoppingAt maxIterations precision }

variable {d : Dynamics R} {maxIterations : Nat} {precision : R}

/-- The dynamics of a problem depends on what stops a run only by keeping it. -/
lemma ofProblem_stoppingAt {problem : Problem R} {config : Config R} {duals : DualVariables R}
    (h : ofProblem problem config duals = .ok d) (maxIterations : Nat) (precision : R) :
    ofProblem problem (config.stoppingAt maxIterations precision) duals =
      .ok (d.stoppingAt maxIterations precision) := by
  obtain ⟨smoothness, hsmoothness, rfl⟩ := ofProblem_eq_ok.1 h
  exact ofProblem_eq_ok.2 ⟨smoothness, hsmoothness, rfl⟩

/-- A start does not look at what stops a run. -/
lemma start_stoppingAt (source : G) :
    (d.stoppingAt maxIterations precision).start source = d.start source := rfl

/-- A move does not look at what stops a run. -/
lemma move_stoppingAt (n : Nat) (p : Position R G) :
    (d.stoppingAt maxIterations precision).move n p = d.move n p := rfl

/-- The paths of two runs from one position are prefixes of each other. -/
theorem Path.isPrefix {first p q : Position R G} {n m : Nat}
    {iterates iterates' : Array (Iterate R)} {steps steps' : Array R}
    (path : d.Path first n p iterates steps)
    (path' : (d.stoppingAt maxIterations precision).Path first m q iterates' steps')
    (hle : n ≤ m) :
    iterates.toList <+: iterates'.toList ∧ steps.toList <+: steps'.toList ∧ (n = m → p = q) := by
  induction path' generalizing n p iterates steps with
  | start =>
    obtain rfl := Nat.le_zero.1 hle
    cases path with
    | start => exact ⟨List.prefix_rfl, List.prefix_rfl, fun _ => rfl⟩
  | @move m q q' step iterates' steps' path' _ moved' ih =>
    rcases Nat.le_succ_iff.1 hle with hle | rfl
    · obtain ⟨hiterates, hsteps, -⟩ := ih path hle
      refine ⟨?_, ?_, fun h => by omega⟩
      · rw [Array.toList_push]
        exact hiterates.trans (List.prefix_append _ _)
      · rw [Array.toList_push]
        exact hsteps.trans (List.prefix_append _ _)
    · cases path with
      | @move _ o _ step'' iterates steps path _ moved =>
        obtain ⟨hiterates, hsteps, hsame⟩ := ih path le_rfl
        obtain rfl := hsame rfl
        -- both paths have made the same number of moves, so that what they recorded is equal
        have hsize : iterates = iterates' :=
          Array.toList_inj.1 (hiterates.eq_of_length (by simp [path.size_eq, path'.size_eq]))
        have hsize' : steps = steps' :=
          Array.toList_inj.1 (hsteps.eq_of_length (by simp [path.size_eq, path'.size_eq]))
        rw [move_stoppingAt, moved] at moved'
        obtain ⟨rfl, rfl⟩ : step'' = step ∧ p = q' := by simpa using moved'
        subst hsize hsize'
        exact ⟨List.prefix_rfl, List.prefix_rfl, fun _ => rfl⟩

/-! ## Failures -/

/-- A move fails only at the iterate that it would lead to. -/
lemma failure_of_move {n : Nat} {p : Position R G} {failure : RunError}
    (h : d.move n p = .ok (.error failure)) : failure = .nonFinite (n + 1) := by
  simp only [move, Outcome.bind_eq_ok] at h
  obtain ⟨⟨direction, source⟩, -, ⟨step, c⟩, -, gradient, -, h⟩ := h
  split_ifs at h
  · exact (Except.error.inj (Outcome.pure_eq_ok.1 h)).symm
  · simp only [Outcome.bind_eq_ok, Outcome.pure_eq_ok, reduceCtorEq, and_false, exists_false] at h

/-- A start fails only at the start point. -/
lemma failure_of_start {source : G} {failure : RunError}
    (h : d.start source = .ok (.error failure)) : failure = .nonFinite 0 := by
  simp only [start, Outcome.bind_eq_ok] at h
  obtain ⟨hidden, -, objective, -, gradient, -, h⟩ := h
  split_ifs at h
  · exact (Except.error.inj (Outcome.pure_eq_ok.1 h)).symm
  · simp only [Outcome.bind_eq_ok, Outcome.pure_eq_ok, reduceCtorEq, and_false, exists_false] at h
  · simp only [Outcome.bind_eq_ok, Outcome.pure_eq_ok, reduceCtorEq, and_false, exists_false] at h

/-- A run fails at an iterate that it has not reached yet. -/
lemma Executes.exists_number {observer : Observer σ (Event R) Action} {remaining n : Nat}
    {p : Position R G} {t : Trajectory R} {w w' : σ} {failure : RunError}
    (h : d.Executes observer remaining n p t w (.error failure) w') :
    ∃ k, failure = .nonFinite k ∧ n < k ∧ k ≤ n + remaining := by
  generalize hresult : (Except.error failure : Except RunError (RunEnd R G)) = result at h
  induction h with
  | settled | full | stopped => cases hresult
  | failed _ hmove =>
    obtain rfl := Except.error.inj hresult
    exact ⟨_, failure_of_move hmove, Nat.lt_succ_self _, by omega⟩
  | next _ _ _ _ _ ih =>
    obtain ⟨k, hk, hlt, hle⟩ := ih hresult
    exact ⟨k, hk, by omega, by omega⟩

/-- A run into a failure shows any other run the way: that one meets the same failure, unless it
has ended before.  What the first one has recorded, the other one can record as well. -/
theorem Executes.exists_of_failed {observer : Observer σ (Event R) Action}
    (other : Observer τ (Event R) Action) {remaining n : Nat} {p : Position R G}
    {t : Trajectory R} {w w' : σ} {failure : RunError}
    (h : d.Executes observer remaining n p t w (.error failure) w') {remaining' : Nat}
    {t' : Trajectory R} (hroom : t'.HasRoom remaining' n)
    (htakes : ∀ iterate, t.Takes iterate → t'.Takes iterate) (v : τ) :
    ∃ result v',
      (d.stoppingAt maxIterations precision).Executes other remaining' n p t' v result v' ∧
      (result = .error failure ∨
        ∃ e k, result = .ok e ∧ failure = .nonFinite k ∧ e.iterations < k) := by
  generalize hresult : (Except.error failure : Except RunError (RunEnd R G)) = result at h
  induction h generalizing remaining' t' v with
  | settled | full | stopped => cases hresult
  | @failed remaining n p t w _ hunsettled hmove =>
    obtain rfl := Except.error.inj hresult
    obtain rfl := failure_of_move hmove
    by_cases hsettled : p.stationarity < precision
    · exact ⟨_, v, .settled hsettled, .inr ⟨_, _, rfl, rfl, n.lt_succ_self⟩⟩
    · cases remaining' with
      | zero => exact ⟨_, v, .full hsettled, .inr ⟨_, _, rfl, rfl, n.lt_succ_self⟩⟩
      | succ remaining' => exact ⟨_, v, .failed hsettled hmove, .inl rfl⟩
  | @next remaining n p t w step q t₁ w₁ result w₂ hunsettled hmove hextend hanswer rest ih =>
    subst hresult
    obtain ⟨k, rfl, hlt, -⟩ := rest.exists_number
    by_cases hsettled : p.stationarity < precision
    · exact ⟨_, v, .settled hsettled, .inr ⟨_, k, rfl, rfl, by simp only; omega⟩⟩
    · cases remaining' with
      | zero => exact ⟨_, v, .full hsettled, .inr ⟨_, k, rfl, rfl, by simp only; omega⟩⟩
      | succ remaining' =>
        obtain ⟨⟨-, htaken⟩, -⟩ := Trajectory.extend_eq_ok.1 hextend
        obtain ⟨t₂, hextend'⟩ := hroom.exists_extend (htakes _ htaken) step
        have htakes' (iterate : Iterate R) (h : t₁.Takes iterate) : t₂.Takes iterate :=
          (Trajectory.takes_extend hextend').2
            (htakes iterate ((Trajectory.takes_extend hextend).1 h))
        rcases hanswer' : other.observe v (q.event (n + 1) step) with ⟨_ | ⟨⟨⟩⟩, v'⟩
        · obtain ⟨result, v'', hrun, hcase⟩ := ih (hroom.of_extend hextend') htakes' v' rfl
          exact ⟨result, v'', .next hsettled hmove hextend' hanswer' hrun, hcase⟩
        · exact ⟨_, v', .stopped hsettled hmove hextend' hanswer', .inr ⟨_, k, rfl, rfl, hlt⟩⟩

/-- A run that is watched into a failure shows any other run the way. -/
lemma exists_watch_of_failed {observer : Observer σ (Event R) Action}
    (other : Observer τ (Event R) Action) {estimate : DualEstimate R} {first : Position R G}
    {w w' : σ} {failure : RunError}
    (h : d.watch observer estimate first w = .ok (.error failure, w'))
    (hcap : maxIterations ≠ 0) (v : τ) :
    ∃ result v', (d.stoppingAt maxIterations precision).watch other estimate first v =
        .ok (result, v') ∧
      (result = .error failure ∨
        ∃ e k, result = .ok e ∧ failure = .nonFinite k ∧ e.iterations < k) := by
  obtain ⟨t, ht, ⟨-, -, hresult⟩ | ⟨w₀, -, hrun⟩⟩ := watch_eq_ok.1 h
  · cases hresult
  · obtain ⟨⟨-, hfirst⟩, -⟩ := opened_eq_ok.1 ht
    obtain ⟨t', hopened⟩ : ∃ t', (d.stoppingAt maxIterations precision).opened first = .ok t' :=
      ⟨_, opened_eq_ok.2 ⟨⟨Nat.pos_of_ne_zero hcap, hfirst.x, hfirst.hidden, hfirst.slack⟩, rfl⟩⟩
    have htakes (iterate : Iterate R) (h : t.Takes iterate) : t'.Takes iterate :=
      (takes_opened hopened 0).2 ((takes_opened ht 0).1 h)
    -- unless the other observer ends the run when it hears of the duals, the loop is entered
    by_cases hinforms : ∃ v₀, (d.stoppingAt maxIterations precision).Informs other estimate v v₀
    · obtain ⟨v₀, hinforms⟩ := hinforms
      obtain ⟨result, v', hrun', hcase⟩ :=
        hrun.exists_of_failed other (hasRoom_of_opened hopened) htakes v₀
      exact ⟨result, v', watch_eq_ok.2 ⟨_, hopened, .inr ⟨v₀, hinforms, hrun'⟩⟩, hcase⟩
    · obtain ⟨k, rfl, hk, -⟩ := hrun.exists_number
      by_cases hconstrained : d.problem.isConstrained = true
      · rcases hanswer : other.observe v (.dualsResolved estimate) with ⟨_ | ⟨⟨⟩⟩, v'⟩
        · exact absurd ⟨v', by simpa [Informs, stoppingAt, hconstrained] using hanswer⟩ hinforms
        · exact ⟨_, v', watch_eq_ok.2 ⟨_, hopened, .inl ⟨hconstrained, hanswer, rfl⟩⟩,
            .inr ⟨_, k, rfl, rfl, hk⟩⟩
      · exact absurd ⟨v, by simp [Informs, stoppingAt, hconstrained]⟩ hinforms

end Dynamics

/-! ## Whole runs -/

omit [Scalar R] in
/-- A solution is the beginning of another one: at the same duals, it has recorded the first of the
iterates and steps of the other. -/
structure Solution.IsPrefixOf (short long : Solution R) : Prop where
  /-- It has made no more steps. -/
  iterations_le : short.iterations ≤ long.iterations
  /-- The duals are the same. -/
  duals_eq : short.duals = long.duals
  /-- They have been obtained in the same way. -/
  dualStatus_eq : short.dualStatus = long.dualStatus
  /-- Either both have slacks or none has. -/
  hasSlack_eq : short.trajectory.hasSlack = long.trajectory.hasSlack
  /-- The iterates begin in the same way. -/
  iterates : short.trajectory.iterates.toList <+: long.trajectory.iterates.toList
  /-- The steps begin in the same way. -/
  steps : short.trajectory.steps.toList <+: long.trajectory.steps.toList

section Runs

variable {problem : Problem R} {config : Config R} {maxIterations : Nat} {precision : R}
  {observer : Observer σ (Event R) Action} {w : σ} {report : RunReport R σ}

/-- Of two runs that differ in what stops them, one solution is the beginning of the other. -/
theorem isPrefixOf_of_solve {other : Observer τ (Event R) Action} {v : τ}
    {report' : RunReport R τ} {solution solution' : Solution R}
    (hsolve : solve G problem config observer w = .ok report)
    (hsolution : report.outcome = .ok solution)
    (hsolve' : solve G problem (config.stoppingAt maxIterations precision) other v = .ok report')
    (hsolution' : report'.outcome = .ok solution') :
    solution.IsPrefixOf solution' ∨ solution'.IsPrefixOf solution := by
  obtain ⟨-, hslack⟩ := cap_of_solve hsolve hsolution
  obtain ⟨-, hslack'⟩ := cap_of_solve hsolve' hsolution'
  obtain ⟨history⟩ := solve_history hsolve hsolution
  obtain ⟨history'⟩ := solve_history hsolve' hsolution'
  have hresolve := history.resolved.symm.trans history'.resolved
  simp only [Except.ok.injEq, Prod.mk.injEq, DualEstimate.mk.injEq] at hresolve
  obtain ⟨⟨hduals, hstatus⟩, -⟩ := hresolve
  have hdynamics : history'.dynamics = history.dynamics.stoppingAt maxIterations precision := by
    have h := Dynamics.ofProblem_stoppingAt history.dynamics_eq maxIterations precision
    rw [hduals, history'.dynamics_eq] at h
    exact Except.ok.inj h
  have hfirst : history'.first = history.first := by
    have h := history'.start_eq
    rw [hdynamics, Dynamics.start_stoppingAt] at h
    exact Except.ok.inj (Except.ok.inj (h.symm.trans history.start_eq))
  have path := history.path
  have path' := history'.path
  rw [hdynamics, hfirst] at path'
  rcases le_total solution.iterations solution'.iterations with hle | hle
  · obtain ⟨hiterates, hsteps, -⟩ := path.isPrefix path' hle
    exact .inl ⟨hle, hduals, hstatus, hslack.trans hslack'.symm, hiterates, hsteps⟩
  · -- the first dynamics is the second one with the cap and the precision put back
    have path'' : ((history.dynamics.stoppingAt maxIterations precision).stoppingAt
        history.dynamics.config.maxIterations history.dynamics.config.precision).Path
          history.first solution.iterations history.last solution.trajectory.iterates
          solution.trajectory.steps := path
    obtain ⟨hiterates, hsteps, -⟩ := path'.isPrefix path'' hle
    exact .inr ⟨hle, hduals.symm, hstatus.symm, hslack'.trans hslack.symm, hiterates, hsteps⟩

/-- A run that fails is followed by any run that differs in what stops it, as far as that one
goes. -/
theorem exists_solve_of_failed (precision : R) (other : Observer τ (Event R) Action) (v : τ)
    {failure : RunError} (hsolve : solve G problem config observer w = .ok report)
    (hfailure : report.outcome = .error failure) (hcap : maxIterations ≠ 0) :
    ∃ report', solve G problem (config.stoppingAt maxIterations precision) other v = .ok report' ∧
      (report'.outcome = .error failure ∨ ∃ solution k, report'.outcome = .ok solution ∧
        failure = .nonFinite k ∧ solution.iterations < k) := by
  obtain ⟨estimate, opening, d, hresolve, hd, hcase⟩ := solve_eq_ok.1 hsolve
  have hd' := Dynamics.ofProblem_stoppingAt hd maxIterations precision
  obtain ⟨failure', hstart, rfl⟩ | ⟨first, result, w', hstart, hwatch, hreport⟩ := hcase
  · obtain rfl := Except.error.inj hfailure
    exact ⟨_, solve_eq_ok.2 ⟨estimate, opening, _, hresolve, hd', .inl ⟨failure', hstart, rfl⟩⟩,
      .inl rfl⟩
  obtain ⟨failure', rfl, rfl⟩ | ⟨final, solution, rfl, -, rfl⟩ := RunReport.ofEnd_eq_ok.1 hreport
  · obtain rfl := Except.error.inj hfailure
    obtain ⟨result, v', hwatch', hcase⟩ := Dynamics.exists_watch_of_failed other hwatch hcap v
    have hsolve' (report' : RunReport R τ)
        (h : RunReport.ofEnd estimate opening result v' = .ok report') :
        solve G problem (config.stoppingAt maxIterations precision) other v = .ok report' :=
      solve_eq_ok.2 ⟨estimate, opening, _, hresolve, hd',
        .inr ⟨first, result, v', hstart, hwatch', h⟩⟩
    obtain rfl | ⟨e, k, rfl, rfl, hlt⟩ := hcase
    · exact ⟨_, hsolve' _ rfl, .inl rfl⟩
    · obtain ⟨⟨unused, hroom⟩, -⟩ := Dynamics.hasRoom_of_watch hwatch'
      exact ⟨_, hsolve' _ (RunReport.ofEnd_eq_ok.2
        (.inr ⟨e, _, rfl, RunEnd.solution_eq hroom estimate, rfl⟩)), .inr ⟨_, k, rfl, rfl, hlt⟩⟩
  · cases hfailure

/-- The cap, the precision and the observer only say where a run ends.  Given a run and a second one
that differs from it in nothing else: if both have a solution, one is the beginning of the other;
if the first fails at an iterate, the second one comes to an end, with the same failure or before
that iterate.  In particular a run under an observer that never answers, such as a log, has exactly
the outcome of the run that nobody watches. -/
theorem truncation_of_solve (hsolve : solve G problem config observer w = .ok report)
    (hcap : maxIterations ≠ 0) (other : Observer τ (Event R) Action) (v : τ) :
    (∀ solution, report.outcome = .ok solution →
      ∀ report', solve G problem (config.stoppingAt maxIterations precision) other v = .ok report' →
        ∀ solution', report'.outcome = .ok solution' →
          solution.IsPrefixOf solution' ∨ solution'.IsPrefixOf solution) ∧
    (∀ k, report.outcome = .error (.nonFinite k) →
      ∃ report', solve G problem (config.stoppingAt maxIterations precision) other v =
          .ok report' ∧
        (report'.outcome = .error (.nonFinite k) ∨
          ∃ solution', report'.outcome = .ok solution' ∧ solution'.iterations < k)) ∧
    (observer.NeverAnswers →
      ∃ report', solveUnobserved G problem config = .ok report' ∧
        report'.outcome = report.outcome) ∧
    (∀ every said outcome,
      (∃ report', solve G problem config (Log.observer every) said = .ok report' ∧
          report'.outcome = outcome) ↔
        ∃ report', solveUnobserved G problem config = .ok report' ∧ report'.outcome = outcome) := by
  refine ⟨?_, ?_, ?_, ?_⟩
  · intro solution hsolution report' hsolve' solution' hsolution'
    exact isPrefixOf_of_solve hsolve hsolution hsolve' hsolution'
  · intro k hk
    obtain ⟨report', hsolve', hcase⟩ := exists_solve_of_failed precision other v hsolve hk hcap
    refine ⟨report', hsolve', ?_⟩
    obtain hfailure | ⟨solution', _, hsolution', hfailure, hlt⟩ := hcase
    · exact .inl hfailure
    · obtain rfl := RunError.nonFinite.inj hfailure
      exact .inr ⟨solution', hsolution', hlt⟩
  · intro hquiet
    exact (solveUnobserved_iff_of_neverAnswers hquiet w report.outcome).1 ⟨report, hsolve, rfl⟩
  · intro every said outcome
    exact solveUnobserved_iff_of_neverAnswers (Log.neverAnswers every) said outcome

end Runs

/-! ## The run of one step -/

namespace OneStep

/-- The same problem with room for the start point alone, under a log. -/
lemma solve_atStart : ∃ (report : RunReport ℝ (Array (Notice ℝ))) (solution : Solution ℝ),
    solve Unit problem ((Config.mk (draft none)).stoppingAt 1 1e-6) (Log.observer 1) #[] =
      .ok report ∧ report.outcome = .ok solution ∧ solution.iterations = 0 := by
  have hd := Dynamics.ofProblem_stoppingAt (ofProblem_eq none) 1 1e-6
  have path : ((dynamics none).stoppingAt 1 1e-6).Path first 0 first #[first.iterate] #[] :=
    .start
  have hfits : ∀ iterate ∈ #[first.iterate], iterate.Fits problem := by
    intro iterate hmem
    obtain rfl : iterate = first.iterate := by simpa using hmem
    exact fits_problem _ _ _ _
  obtain ⟨report, solution, hsolve, hsolution, hiterations, -⟩ := path.exists_solve
    (resolve_problem _ _) hd (start_eq none ()) (Log.neverAnswers 1) rfl hfits #[]
  exact ⟨report, solution, hsolve, hsolution, hiterations⟩

end OneStep

/-- With room for the start point alone, the solution is the beginning of the run of one step. -/
theorem truncation_of_solve_oneStep : ∃ (report : RunReport ℝ Unit) (solution : Solution ℝ)
    (report' : RunReport ℝ (Array (Notice ℝ))) (solution' : Solution ℝ),
    solve Unit OneStep.problem ⟨OneStep.draft none⟩ .silent () = .ok report ∧
    report.outcome = .ok solution ∧ solution.iterations = 1 ∧
    solve Unit OneStep.problem ((Config.mk (OneStep.draft none)).stoppingAt 1 1e-6)
      (Log.observer 1) #[] = .ok report' ∧
    report'.outcome = .ok solution' ∧ solution'.iterations = 0 ∧
    solution'.IsPrefixOf solution := by
  obtain ⟨report, solution, _, hsolve, hsolution, hiterations, -⟩ := OneStep.solve_eq none rfl
  obtain ⟨report', solution', hsolve', hsolution', hiterations'⟩ := OneStep.solve_atStart
  obtain ⟨hbegins, -⟩ := truncation_of_solve hsolve one_ne_zero (Log.observer 1) #[]
  have hcase := hbegins solution hsolution report' hsolve' solution' hsolution'
  refine ⟨report, solution, report', solution', hsolve, hsolution, hiterations, hsolve',
    hsolution', hiterations', ?_⟩
  rcases hcase with hcase | hcase
  · have hle := hcase.iterations_le
    omega
  · exact hcase

end HopfieldDescent

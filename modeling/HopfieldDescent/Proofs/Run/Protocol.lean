import Mathlib
import HopfieldDescent.Proofs.Run.Feasibility
import HopfieldDescent.Proofs.Run.Truncation

/-!
# What an observer hears of a run

A run with constraints tells its duals first.  Then it tells its steps, numbered from one on without
a gap, each with the iterate and the step that the trajectory holds under the same number.  The
first answer ends the run.

The account of a run is kept by an observer that writes down every event with the answer to it
(`Observer.recording`) and leaves the run as it is.  That the account and the trajectory agree holds
before the loop, is kept by every step (`Account.step`), and so holds at the end
(`Dynamics.Executes.account`).
-/

namespace HopfieldDescent

variable {R G σ : Type}

/-! ## Accounts -/

/-- An event tells of the iterate with the given number what a trajectory has recorded of it. -/
def Trajectory.Tells (t : Trajectory R) (number : Nat) (event : Event R) : Prop :=
  ∃ iterate step stationarity, t.iterates[number]? = some iterate ∧
    t.steps[number - 1]? = some step ∧
    event = .iteration number iterate.x iterate.hidden iterate.objective step stationarity

/-- The number of an event that tells of an iterate. -/
lemma Trajectory.Tells.number {t : Trajectory R} {number : Nat} {event : Event R}
    (h : t.Tells number event) : event.number? = some number := by
  obtain ⟨_, _, _, -, -, rfl⟩ := h
  rfl

/-- What has been told of an iterate is not changed by later ones. -/
lemma Trajectory.Tells.push {t : Trajectory R} {number : Nat} {event : Event R}
    (h : t.Tells number event) (step : R) (iterate : Iterate R) :
    (t.push step iterate).Tells number event := by
  obtain ⟨iterate', step', stationarity, hiterate, hstep, hevent⟩ := h
  refine ⟨iterate', step', stationarity, ?_, ?_, hevent⟩
  · obtain ⟨hlt, -⟩ := Array.getElem?_eq_some_iff.1 hiterate
    rw [Trajectory.push, Array.getElem?_push, if_neg hlt.ne, hiterate]
  · obtain ⟨hlt, -⟩ := Array.getElem?_eq_some_iff.1 hstep
    rw [Trajectory.push, Array.getElem?_push, if_neg hlt.ne, hstep]

/-- The record grows by every event and the answer to it, and the state is that of the observer. -/
lemma Observer.recording_observe_eq {ε α : Type} {observer : Observer σ ε α}
    {s s' : σ × Array (ε × Option α)} {event : ε} {answer : Option α} :
    observer.recording.observe s event = (answer, s') ↔
      observer.observe s.1 event = (answer, s'.1) ∧ s'.2 = s.2.push (event, answer) := by
  obtain ⟨w, record⟩ := s
  obtain ⟨w', record'⟩ := s'
  rcases hanswer : observer.observe w event with ⟨answer', w''⟩
  simp only [recording, hanswer, Prod.mk.injEq]
  constructor
  · rintro ⟨rfl, rfl, rfl⟩
    exact ⟨⟨rfl, rfl⟩, rfl⟩
  · rintro ⟨⟨rfl, rfl⟩, rfl⟩
    exact ⟨rfl, rfl, rfl⟩

/-- The answer to the last event. -/
def lastAnswer (record : Array (Event R × Option Action)) : Option Action :=
  record.back?.bind Prod.snd

/-- A record consists of opening events and of the events of the steps, which tell what the
trajectory holds, and no event but the last has been answered. -/
structure Account (opening steps : List (Event R)) (t : Trajectory R)
    (record : Array (Event R × Option Action)) : Prop where
  /-- The events, in order. -/
  events : record.toList.map Prod.fst = opening ++ steps
  /-- The steps are numbered from one on. -/
  tells : ∀ j event, steps[j]? = some event → t.Tells (j + 1) event
  /-- There is no event after an answer. -/
  quiet : ∀ j entry, record[j]? = some entry → j + 1 < record.size → entry.2 = none

/-- Events that have not been answered yet may be followed by another one. -/
lemma quiet_push {record : Array (Event R × Option Action)}
    (hquiet : ∀ j entry, record[j]? = some entry → j + 1 < record.size → entry.2 = none)
    (hlast : lastAnswer record = none) (next : Event R × Option Action) :
    ∀ j entry, (record.push next)[j]? = some entry → j + 1 < (record.push next).size →
      entry.2 = none := by
  intro j entry hentry hlt
  rw [Array.size_push] at hlt
  rw [Array.getElem?_push, if_neg (by omega)] at hentry
  by_cases hj : j + 1 < record.size
  · exact hquiet j entry hentry hj
  · rw [lastAnswer, Array.back?_eq_getElem?, show record.size - 1 = j by omega, hentry] at hlast
    exact hlast

/-- The account of a step, after events that have not been answered. -/
lemma Account.step {opening steps : List (Event R)} {t t' : Trajectory R} {remaining : Nat}
    {record : Array (Event R × Option Action)} {step : R} {q : Position R G}
    (h : Account opening steps (t.upTo (steps.length + 1)) record)
    (hlast : lastAnswer record = none) (hroom : t.HasRoom (remaining + 1) steps.length)
    (hextend : t.extend steps.length step q.iterate = .ok t') (answer : Option Action) :
    Account opening (steps ++ [q.event (steps.length + 1) step]) (t'.upTo (steps.length + 2))
      (record.push (q.event (steps.length + 1) step, answer)) := by
  obtain ⟨hiterates, hsteps⟩ := hroom.size_upTo
  rw [Trajectory.upTo_extend hextend]
  constructor
  · rw [Array.toList_push, List.map_append, h.events, List.append_assoc]
    rfl
  · intro j event hevent
    rcases lt_trichotomy j steps.length with hlt | rfl | hlt
    · rw [List.getElem?_append_left hlt] at hevent
      exact (h.tells j event hevent).push step q.iterate
    · obtain rfl : q.event (steps.length + 1) step = event := by simpa using hevent
      refine ⟨q.iterate, step, q.stationarity, ?_, ?_, rfl⟩
      · rw [Trajectory.push, Array.getElem?_push, if_pos hiterates.symm]
      · rw [Trajectory.push, Array.getElem?_push, if_pos (by simp [hsteps])]
    · rw [List.getElem?_eq_none (by simp; omega)] at hevent
      cases hevent
  · exact quiet_push h.quiet hlast _

/-- Why a run has ended: its status says whether the last event was answered, and if not, whether
the run has converged or the room has been used up. -/
structure RunStatus.Explains (status : RunStatus) (answer : Option Action) (settled full : Prop) :
    Prop where
  /-- A run is stopped exactly by an answer. -/
  stopped : status = .stoppedByObserver ↔ answer = some .stopEarly
  /-- A run that has not been stopped has converged exactly below the precision. -/
  converged : status ≠ .stoppedByObserver → (status = .converged ↔ settled)
  /-- The room is the reason only when it has been used up. -/
  maxIterations : status = .maxIterations → full

/-- The events before the first step. -/
def Problem.openingEvents (problem : Problem R) (estimate : DualEstimate R) : List (Event R) :=
  if problem.isConstrained then [.dualsResolved estimate] else []

/-- Opening events tell the duals of a run that has started against constraints, and nothing of any
other run. -/
def OpensWith (problem : Problem R) (outcome : Except RunError (Solution R))
    (estimate : DualEstimate R) (opening : List (Event R)) : Prop :=
  (problem.isConstrained = true ∧ outcome ≠ .error (.nonFinite 0) →
    opening = [.dualsResolved estimate]) ∧
  (¬(problem.isConstrained = true ∧ outcome ≠ .error (.nonFinite 0)) → opening = [])

/-- The opening events of a run that has started. -/
lemma Problem.opensWith {outcome : Except RunError (Solution R)}
    (h : outcome ≠ .error (.nonFinite 0)) (problem : Problem R) (estimate : DualEstimate R) :
    OpensWith problem outcome estimate (problem.openingEvents estimate) := by
  constructor
  · rintro ⟨hconstrained, -⟩
    simp [openingEvents, hconstrained]
  · intro hnot
    have hconstrained : ¬problem.isConstrained = true := fun hc => hnot ⟨hc, h⟩
    simp [openingEvents, hconstrained]

variable [Scalar R] [RandomSource G R]

/-- The account of the loop.  It goes on from an account of events that have not been answered; the
steps it tells are as many as the result says, and a failure is met at the step that is not told. -/
theorem Dynamics.Executes.account {d : Dynamics R} {observer : Observer σ (Event R) Action}
    {remaining n : Nat} {p : Position R G} {t : Trajectory R}
    {s s' : σ × Array (Event R × Option Action)} {result : Except RunError (RunEnd R G)}
    (h : d.Executes observer.recording remaining n p t s result s') {opening steps : List (Event R)}
    (haccount : Account opening steps (t.upTo (n + 1)) s.2) (hlast : lastAnswer s.2 = none)
    (hlength : steps.length = n) (hroom : t.HasRoom remaining n) :
    ∃ steps' t', Account opening steps' t' s'.2 ∧
      (∀ e, result = .ok e → t' = e.trajectory.upTo (e.iterations + 1) ∧
        steps'.length = e.iterations ∧
        e.status.Explains (lastAnswer s'.2) (e.position.stationarity < d.config.precision)
          (e.iterations + 1 = t.iterates.size)) ∧
      (∀ failure, result = .error failure →
        failure = .nonFinite (steps'.length + 1) ∧ steps'.length + 1 < t.iterates.size) := by
  induction h generalizing steps with
  | settled hsettled =>
    refine ⟨steps, _, haccount, ?_, nofun⟩
    rintro e ⟨⟩
    exact ⟨rfl, hlength, by simp [hlast], by simp [hsettled], nofun⟩
  | full hunsettled =>
    refine ⟨steps, _, haccount, ?_, nofun⟩
    rintro e ⟨⟩
    exact ⟨rfl, hlength, by simp [hlast], by simp [hunsettled], fun _ => hroom.iterates.symm⟩
  | failed hunsettled hmove =>
    refine ⟨steps, _, haccount, nofun, ?_⟩
    rintro failure ⟨⟩
    have hsize := hroom.iterates
    rw [hlength]
    exact ⟨failure_of_move hmove, by omega⟩
  | @stopped remaining n p t s step q t' s' hunsettled hmove hextend hanswer =>
    subst hlength
    obtain ⟨-, hrecord⟩ := Observer.recording_observe_eq.1 hanswer
    have haccount' := haccount.step hlast hroom hextend (some .stopEarly)
    rw [← hrecord] at haccount'
    refine ⟨_, _, haccount', ?_, nofun⟩
    rintro e ⟨⟩
    exact ⟨rfl, by simp, by simp [hrecord, lastAnswer], by simp, nofun⟩
  | next hunsettled hmove hextend hanswer _ ih =>
    subst hlength
    obtain ⟨-, hrecord⟩ := Observer.recording_observe_eq.1 hanswer
    have haccount' := haccount.step hlast hroom hextend none
    rw [← hrecord] at haccount'
    have hsize := Trajectory.size_extend hextend
    have hih := ih haccount' (by simp [hrecord, lastAnswer]) (by simp) (hroom.of_extend hextend)
    rwa [hsize] at hih

/-- The account of a run that has started. -/
lemma Dynamics.account_of_watch {d : Dynamics R} {observer : Observer σ (Event R) Action}
    {estimate : DualEstimate R} {first : Position R G} {w : σ}
    {s' : σ × Array (Event R × Option Action)} {result : Except RunError (RunEnd R G)}
    (h : d.watch observer.recording estimate first (w, #[]) = .ok (result, s')) :
    ∃ steps t', Account (d.problem.openingEvents estimate) steps t' s'.2 ∧
      (∀ e, result = .ok e → t' = e.trajectory.upTo (e.iterations + 1) ∧
        steps.length = e.iterations ∧
        e.status.Explains (lastAnswer s'.2) (e.position.stationarity < d.config.precision)
          (e.iterations + 1 = d.config.maxIterations)) ∧
      (∀ failure, result = .error failure →
        failure = .nonFinite (steps.length + 1) ∧ steps.length + 1 < d.config.maxIterations) := by
  obtain ⟨t, hopened, ⟨hconstrained, hanswer, rfl⟩ | ⟨s₀, hinforms, hrun⟩⟩ := watch_eq_ok.1 h
  · obtain ⟨-, hrecord⟩ := Observer.recording_observe_eq.1 hanswer
    refine ⟨[], t.upTo 1,
      ⟨by simp [Problem.openingEvents, hconstrained, hrecord], by simp, ?_⟩, ?_, nofun⟩
    · intro j entry _ hlt
      simp [hrecord] at hlt
    · rintro e ⟨⟩
      exact ⟨rfl, rfl, by simp [hrecord, lastAnswer], by simp, nofun⟩
  · have hroom := hasRoom_of_opened hopened
    have hopening : (s₀.2.toList.map Prod.fst = d.problem.openingEvents estimate ∧ s₀.2.size ≤ 1) ∧
        lastAnswer s₀.2 = none := by
      unfold Informs at hinforms
      unfold Problem.openingEvents
      split_ifs at hinforms ⊢
      · obtain ⟨-, hrecord⟩ := Observer.recording_observe_eq.1 hinforms
        simp [hrecord, lastAnswer]
      · simp [hinforms, lastAnswer]
    obtain ⟨⟨hevents, hsize⟩, hlast⟩ := hopening
    have haccount : Account (d.problem.openingEvents estimate) []
        (t.upTo 1) s₀.2 := by
      refine ⟨by simpa using hevents, by simp, ?_⟩
      intro j entry _ hlt
      omega
    have hcap : t.iterates.size = d.config.maxIterations := size_of_opened hopened
    rw [← hcap]
    exact hrun.account haccount hlast rfl hroom

/-! ## Whole runs -/

/-- A solution agrees with the settings, with the duals and with the steps that were told, given the
answer to the last event. -/
structure Solution.AgreesWith (solution : Solution R) (problem : Problem R) (config : Config R)
    (estimate : DualEstimate R) (steps : List (Event R)) (answer : Option Action) : Prop where
  /-- The duals are those that were told. -/
  duals : solution.duals = estimate.duals ∧ solution.dualStatus = estimate.status
  /-- The iterates keep to the cap. -/
  cap : solution.iterations + 1 ≤ config.maxIterations
  /-- There is one iterate more than there are steps. -/
  iterates_size : solution.trajectory.iterates.size = solution.iterations + 1
  /-- Every step is recorded. -/
  steps_size : solution.trajectory.steps.size = solution.iterations
  /-- There are slacks exactly where there are inequalities. -/
  hasSlack : solution.trajectory.hasSlack = problem.inequalities.isSome
  /-- The first iterate is the start point. -/
  start : ∃ iterate, solution.trajectory.iterates[0]? = some iterate ∧ iterate.x = problem.start
  /-- Every step is told. -/
  steps_length : steps.length = solution.iterations
  /-- What is told is what is recorded. -/
  tells : ∀ j event, steps[j]? = some event → solution.trajectory.Tells (j + 1) event
  /-- The status says why the run ended. -/
  explains : solution.status.Explains answer (solution.stationarity < config.precision)
    (solution.iterations + 1 = config.maxIterations)

/-- The first iterate of a solution is the start point. -/
lemma exists_start_of_solve {problem : Problem R} {config : Config R}
    {observer : Observer σ (Event R) Action} {w : σ} {report : RunReport R σ}
    {solution : Solution R} (hsolve : solve G problem config observer w = .ok report)
    (hsolution : report.outcome = .ok solution) :
    ∃ iterate, solution.trajectory.iterates[0]? = some iterate ∧ iterate.x = problem.start := by
  obtain ⟨history⟩ := solve_history hsolve hsolution
  obtain ⟨p, iterates, steps, path, hget⟩ := history.path.exists_position (Nat.zero_le _)
  obtain ⟨_, -, hd⟩ := Dynamics.ofProblem_eq_ok.1 history.dynamics_eq
  cases path with
  | start =>
    obtain ⟨hx, -⟩ := Dynamics.start_eq_ok history.start_eq
    exact ⟨_, hget, by rw [Position.iterate, hx, hd]⟩

/-- What a run tells agrees with what it returns.  The duals are told first, if the problem is
constrained and the run has started; the steps follow, numbered from one on, each with the iterate
and the step that the trajectory holds; nothing is told after an answer.  A solution has one step
for every event and one iterate more, begins at the start point and keeps to the cap, and its status
says why it ended.  A run that fails at an iterate has told the steps before that one.  The cap has
to leave room for the start point, as it does in all accepted settings. -/
theorem protocol_of_solve {problem : Problem R} {config : Config R}
    {observer : Observer σ (Event R) Action} {w : σ} {report : RunReport R σ}
    (hcap : config.maxIterations ≠ 0) (hsolve : solve G problem config observer w = .ok report) :
    ∃ estimate record opening steps,
      DualAscent.resolve problem config.dualAscent = .ok (estimate, report.opening) ∧
      solve G problem config observer.recording (w, #[]) =
        .ok ⟨report.outcome, (report.observer, record), report.opening, report.closing⟩ ∧
      record.toList.map Prod.fst = opening ++ steps ∧
      OpensWith problem report.outcome estimate opening ∧
      (∀ j event, steps[j]? = some event → event.number? = some (j + 1)) ∧
      (∀ j entry, record[j]? = some entry → j + 1 < record.size → entry.2 = none) ∧
      (∀ solution, report.outcome = .ok solution →
        solution.AgreesWith problem config estimate steps (lastAnswer record)) ∧
      (∀ k, report.outcome = .error (.nonFinite k) →
        k < config.maxIterations ∧ (k = 0 → record = #[]) ∧ steps.length = k - 1) := by
  have hanswers : observer.AnswersLike (fun w s => w = s.1) observer.recording := by
    rintro w ⟨_, record⟩ event rfl
    exact ⟨rfl, rfl⟩
  have hrelated : w = (w, (#[] : Array (Event R × Option Action))).1 := rfl
  obtain ⟨⟨_, record⟩, rfl, hrecording⟩ := solve_of_answersLike hanswers hrelated hsolve
  obtain ⟨estimate, said, d, hresolve, hd, hcase⟩ := solve_eq_ok.1 hrecording
  obtain ⟨_, -, rfl⟩ := Dynamics.ofProblem_eq_ok.1 hd
  rcases hcase with ⟨failure, hstart, hreport⟩ |
    ⟨first, result, ⟨w', record'⟩, hstart, hwatch, hreport⟩
  · obtain ⟨houtcome, ⟨-, rfl⟩, rfl, -⟩ := (by simpa using hreport)
    obtain rfl := Dynamics.failure_of_start hstart
    refine ⟨estimate, #[], [], [], hresolve, hrecording, rfl, ?_, by simp, by simp, ?_, ?_⟩
    · simp [OpensWith, houtcome]
    · simp [houtcome]
    · intro k hk
      obtain rfl : 0 = k := by simpa [houtcome] using hk
      exact ⟨Nat.pos_of_ne_zero hcap, fun _ => rfl, rfl⟩
  · obtain ⟨steps, t, haccount, hok, herror⟩ := Dynamics.account_of_watch hwatch
    have hnumbers : ∀ j event, steps[j]? = some event → event.number? = some (j + 1) :=
      fun j event hevent => (haccount.tells j event hevent).number
    obtain ⟨failure, rfl, hended⟩ | ⟨e, solution', rfl, hfinal, hended⟩ :=
      RunReport.ofEnd_eq_ok.1 hreport
    · simp only [RunReport.mk.injEq, Prod.mk.injEq] at hended
      obtain ⟨houtcome, ⟨-, rfl⟩, rfl, -⟩ := hended
      obtain ⟨rfl, hlt⟩ := herror failure rfl
      have hstarted : report.outcome ≠ .error (.nonFinite 0) := by simp [houtcome]
      refine ⟨estimate, record, _, steps, hresolve, hrecording, haccount.events,
        Problem.opensWith hstarted problem estimate, hnumbers, haccount.quiet, ?_, ?_⟩
      · simp [houtcome]
      · intro k hk
        obtain rfl : steps.length + 1 = k := by simpa [houtcome] using hk
        exact ⟨hlt, by simp, rfl⟩
    · simp only [RunReport.mk.injEq, Prod.mk.injEq] at hended
      obtain ⟨houtcome, ⟨-, rfl⟩, rfl, -⟩ := hended
      obtain ⟨rfl, hlength, hexplains⟩ := hok e rfl
      have hstarted : report.outcome ≠ .error (.nonFinite 0) := by simp [houtcome]
      refine ⟨estimate, record, _, steps, hresolve, hrecording, haccount.events,
        Problem.opensWith hstarted problem estimate, hnumbers, haccount.quiet, ?_, ?_⟩
      · intro solution hsolution
        obtain ⟨hcap', hslack⟩ := cap_of_solve hsolve hsolution
        obtain ⟨history⟩ := solve_history hsolve hsolution
        obtain ⟨hiterates, hsteps⟩ := history.path.size_eq
        have hstart' := exists_start_of_solve hsolve hsolution
        obtain rfl : solution' = solution := by simpa [houtcome] using hsolution
        obtain ⟨-, rfl⟩ := RunEnd.solution_eq_ok.1 hfinal
        exact ⟨⟨rfl, rfl⟩, hcap', hiterates, hsteps, hslack, hstart', hlength, haccount.tells,
          hexplains⟩
      · simp [houtcome]

/-- The run of one step tells its duals and its step. -/
theorem protocol_of_solve_oneStep : ∃ (report : RunReport ℝ Unit) (solution : Solution ℝ)
    (record : Array (Event ℝ × Option Action)) (event : Event ℝ),
    (Config.mk (OneStep.draft none)).maxIterations ≠ 0 ∧
    solve Unit OneStep.problem ⟨OneStep.draft none⟩ .silent () = .ok report ∧
    report.outcome = .ok solution ∧
    solve Unit OneStep.problem ⟨OneStep.draft none⟩ Observer.silent.recording ((), #[]) =
      .ok ⟨report.outcome, ((), record), report.opening, report.closing⟩ ∧
    record.toList.map Prod.fst = [.dualsResolved ⟨⟨some [0], some [0]⟩, .supplied⟩, event] ∧
    solution.AgreesWith OneStep.problem ⟨OneStep.draft none⟩
      ⟨⟨some [0], some [0]⟩, .supplied⟩ [event] (lastAnswer record) := by
  obtain ⟨report, solution, _, hsolve, hsolution, hiterations, -⟩ := OneStep.solve_eq none rfl
  have hcap : (Config.mk (OneStep.draft none)).maxIterations ≠ 0 := two_ne_zero
  obtain ⟨estimate, record, opening, steps, hresolve, hrecording, hevents, hopening, -, -, hagrees,
    -⟩ := protocol_of_solve hcap hsolve
  have hagrees := hagrees solution hsolution
  obtain rfl : opening = [.dualsResolved estimate] := hopening.1 ⟨rfl, by simp [hsolution]⟩
  obtain ⟨rfl, -⟩ : ⟨⟨some [0], some [0]⟩, .supplied⟩ = estimate ∧
      [⟨.debug, "using supplied dual variables", []⟩] = report.opening := by
    have hsupplied : DualAscent.resolve OneStep.problem
        (Config.mk (OneStep.draft none)).dualAscent = .ok (⟨⟨some [0], some [0]⟩, .supplied⟩,
          [⟨.debug, "using supplied dual variables", []⟩]) := rfl
    exact Prod.mk.inj (Except.ok.inj (hsupplied.symm.trans hresolve))
  obtain ⟨event, rfl⟩ := List.length_eq_one_iff.1 (hagrees.steps_length.trans hiterations)
  exact ⟨report, solution, record, event, hcap, hsolve, hsolution, hrecording, hevents, hagrees⟩

end HopfieldDescent

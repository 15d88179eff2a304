import Mathlib
import HopfieldDescent.Proofs.Outcome
import HopfieldDescent.Run

/-!
# The rules of a run

`Dynamics.Executes` says by rules how the loop of a run goes from an iterate to its end.  There is
one rule for each way to end, by convergence, for want of room, by a failure or by the word of an
observer, and one rule to go on after a step.  It is the loop itself (`Dynamics.iterate_eq_ok`), and
whatever holds of every run is proved by induction on the rules.
-/

namespace HopfieldDescent

variable {R G σ : Type}

/-! ## Recording and telling a step -/

namespace Trajectory

/-- Writes the step from the iterate with the given number and the iterate it leads to. -/
def extend (t : Trajectory R) (number : Nat) (step : R) (iterate : Iterate R) :
    Checked (Trajectory R) := do
  (← t.record (number + 1) iterate).recordStep number step

/-- The same trajectory with a step and an iterate at its end. -/
def push (t : Trajectory R) (step : R) (iterate : Iterate R) : Trajectory R :=
  { t with iterates := t.iterates.push iterate, steps := t.steps.push step }

/-- An iterate has the lengths that a trajectory has set aside. -/
structure Takes (t : Trajectory R) (iterate : Iterate R) : Prop where
  /-- The point. -/
  x : t.dimension = iterate.x.length
  /-- The hidden state. -/
  hidden : t.dimension = iterate.hidden.length
  /-- The slack, where slacks mean anything. -/
  slack : ∀ slacks ∈ t.slackDimension, slacks = iterate.slack.length

variable {t t' : Trajectory R} {remaining number size : Nat} {step : R} {iterate : Iterate R}

/-- An iterate with the lengths that have been set aside passes the check. -/
lemma checkLengths_eq_ok {u : Unit} : t.checkLengths iterate = .ok u ↔ t.Takes iterate := by
  simp only [checkLengths, Outcome.bind_eq_ok, Breach.sameLength_eq_ok, exists_const]
  cases hslack : t.slackDimension with
  | none =>
    exact ⟨fun ⟨hx, hhidden, _⟩ => ⟨hx, hhidden, by simp [hslack]⟩,
      fun h => ⟨h.x, h.hidden, rfl⟩⟩
  | some slacks =>
    simp only [Breach.sameLength_eq_ok]
    exact ⟨fun ⟨hx, hhidden, h⟩ => ⟨hx, hhidden, by simpa [hslack] using h⟩,
      fun h => ⟨h.x, h.hidden, h.slack slacks hslack⟩⟩

/-- An iterate is written at a place of the room, and nothing else is changed. -/
lemma record_eq_ok : t.record number iterate = .ok t' ↔
    (number < t.iterates.size ∧ t.Takes iterate) ∧
      t' = { t with iterates := t.iterates.setIfInBounds number iterate } := by
  simp only [record, Outcome.ite_error_eq_ok, Outcome.bind_eq_ok, checkLengths_eq_ok,
    Outcome.pure_eq_ok, exists_const, and_assoc, @eq_comm _ t']

/-- A trajectory is extended as long as there is room for both, and nothing else of it changes. -/
lemma extend_eq_ok : t.extend number step iterate = .ok t' ↔
    ((number + 1 < t.iterates.size ∧ number < t.steps.size) ∧ t.Takes iterate) ∧
      t' = { t with
        iterates := t.iterates.setIfInBounds (number + 1) iterate
        steps := t.steps.setIfInBounds number step } := by
  simp only [extend, recordStep, Outcome.bind_eq_ok, record_eq_ok, Outcome.ite_error_eq_ok,
    Except.ok.injEq]
  constructor
  · rintro ⟨_, ⟨⟨hroom, htakes⟩, rfl⟩, hroom', rfl⟩
    exact ⟨⟨⟨hroom, hroom'⟩, htakes⟩, rfl⟩
  · rintro ⟨⟨⟨hroom, hroom'⟩, htakes⟩, rfl⟩
    exact ⟨_, ⟨⟨hroom, htakes⟩, rfl⟩, hroom', rfl⟩

/-- An array that is written at a place, and cut off behind it. -/
lemma take_setIfInBounds {α : Type} {places : Array α} {place : Nat} (h : place < places.size)
    (entry : α) :
    (places.setIfInBounds place entry).take (place + 1) = (places.take place).push entry := by
  refine Array.ext (by simp; omega) fun i hi hi' => ?_
  have hle : i ≤ place := by
    simp only [Array.take_eq_extract, Array.size_extract] at hi
    omega
  rcases hle.lt_or_eq with hlt | rfl
  · simp only [Array.take_eq_extract, Array.getElem_extract, Nat.zero_add, Array.getElem_push,
      Array.size_extract, Nat.min_eq_left h.le, Nat.sub_zero, hlt, dif_pos]
    exact Array.getElem_setIfInBounds_ne _ hlt.ne'
  · simp [Array.getElem_push, Nat.min_eq_left h.le]

/-- A trajectory that is extended has as much room as before. -/
lemma size_extend (h : t.extend number step iterate = .ok t') :
    t'.iterates.size = t.iterates.size := by
  obtain ⟨-, rfl⟩ := extend_eq_ok.1 h
  exact Array.size_setIfInBounds

/-- A trajectory that is extended takes the same iterates as before. -/
lemma takes_extend (h : t.extend number step iterate = .ok t') {other : Iterate R} :
    t'.Takes other ↔ t.Takes other := by
  obtain ⟨-, rfl⟩ := extend_eq_ok.1 h
  exact ⟨fun h => ⟨h.x, h.hidden, h.slack⟩, fun h => ⟨h.x, h.hidden, h.slack⟩⟩

/-- What has been written up to an iterate grows by the step and the iterate after it. -/
lemma upTo_extend (h : t.extend number step iterate = .ok t') :
    t'.upTo (number + 2) = (t.upTo (number + 1)).push step iterate := by
  obtain ⟨⟨⟨hroom, hroom'⟩, -⟩, rfl⟩ := extend_eq_ok.1 h
  simp only [upTo, push, Nat.add_sub_cancel, take_setIfInBounds hroom,
    show number + 2 - 1 = number + 1 from rfl, take_setIfInBounds hroom']

/-- A trajectory with room for the iterate with the given number and for `remaining` more. -/
structure HasRoom (t : Trajectory R) (remaining number : Nat) : Prop where
  /-- There is a place for every iterate, from the start point on. -/
  iterates : t.iterates.size = number + 1 + remaining
  /-- There is a place for the step between each two of them. -/
  steps : t.steps.size = number + remaining

/-- What has been written up to an iterate is one step less than iterates. -/
lemma HasRoom.size_upTo (h : t.HasRoom remaining number) :
    (t.upTo (number + 1)).iterates.size = number + 1 ∧
      (t.upTo (number + 1)).steps.size = number := by
  have hiterates := h.iterates
  have hsteps := h.steps
  constructor
  · simp only [upTo, Array.take_eq_extract, Array.size_extract]
    omega
  · simp only [upTo, Array.take_eq_extract, Array.size_extract]
    omega

/-- Where room remains, a trajectory is extended by an iterate of the right lengths. -/
lemma HasRoom.exists_extend (h : t.HasRoom (remaining + 1) number) (htakes : t.Takes iterate)
    (step : R) : ∃ t', t.extend number step iterate = .ok t' := by
  have hiterates := h.iterates
  have hsteps := h.steps
  exact ⟨_, extend_eq_ok.2 ⟨⟨⟨by omega, by omega⟩, htakes⟩, rfl⟩⟩

/-- A trajectory that is extended has room for one less. -/
lemma HasRoom.of_extend (h : t.HasRoom (remaining + 1) number)
    (h' : t.extend number step iterate = .ok t') : t'.HasRoom remaining (number + 1) := by
  have hiterates := h.iterates
  have hsteps := h.steps
  obtain ⟨-, rfl⟩ := extend_eq_ok.1 h'
  constructor
  · simp only [Array.size_setIfInBounds]
    omega
  · simp only [Array.size_setIfInBounds]
    omega

end Trajectory

/-- Whatever happens, there is no answer. -/
def Observer.NeverAnswers {ε α : Type} (observer : Observer σ ε α) : Prop :=
  ∀ w event, (observer.observe w event).1 = none

/-- Nobody answers where nobody watches. -/
lemma Observer.neverAnswers_silent {ε α : Type} :
    (Observer.silent : Observer Unit ε α).NeverAnswers := fun _ _ => rfl

/-- What an observer hears of a step to a position. -/
def Position.event (number : Nat) (step : R) (p : Position R G) : Event R :=
  .iteration number p.x p.hidden p.objective step p.stationarity

variable [Scalar R] [RandomSource G R]

/-! ## The rules -/

/-- From the iterate with the given number, with room for `remaining` more, a run comes to a result
and leaves its observer in a last state. -/
inductive Dynamics.Executes (d : Dynamics R) (observer : Observer σ (Event R) Action) :
    (remaining number : Nat) → Position R G → Trajectory R → σ →
      Except RunError (RunEnd R G) → σ → Prop
  | settled {remaining n p t w} (settled : p.stationarity < d.config.precision) :
      Executes d observer remaining n p t w (.ok ⟨.converged, n, p, t⟩) w
  | full {n p t w} (unsettled : ¬p.stationarity < d.config.precision) :
      Executes d observer 0 n p t w (.ok ⟨.maxIterations, n, p, t⟩) w
  | failed {remaining n p t w failure} (unsettled : ¬p.stationarity < d.config.precision)
      (moved : d.move n p = .ok (.error failure)) :
      Executes d observer (remaining + 1) n p t w (.error failure) w
  | stopped {remaining n p t w step q t' w'} (unsettled : ¬p.stationarity < d.config.precision)
      (moved : d.move n p = .ok (.ok (step, q))) (recorded : t.extend n step q.iterate = .ok t')
      (answered : observer.observe w (q.event (n + 1) step) = (some .stopEarly, w')) :
      Executes d observer (remaining + 1) n p t w (.ok ⟨.stoppedByObserver, n + 1, q, t'⟩) w'
  | next {remaining n p t w step q t' w' result w''}
      (unsettled : ¬p.stationarity < d.config.precision)
      (moved : d.move n p = .ok (.ok (step, q))) (recorded : t.extend n step q.iterate = .ok t')
      (answered : observer.observe w (q.event (n + 1) step) = (none, w'))
      (rest : Executes d observer remaining (n + 1) q t' w' result w'') :
      Executes d observer (remaining + 1) n p t w result w''

/-- An iterate has an entry for each variable and a slack for each inequality of a problem. -/
structure Iterate.Fits (iterate : Iterate R) (problem : Problem R) : Prop where
  /-- The point. -/
  length_x : iterate.x.length = problem.dimension
  /-- The hidden state. -/
  length_hidden : iterate.hidden.length = problem.dimension
  /-- The slack. -/
  length_slack : iterate.slack.length = problem.slackDimension

namespace Dynamics

variable {d : Dynamics R} {observer : Observer σ (Event R) Action} {remaining n : Nat}
  {p : Position R G} {t : Trajectory R} {w w' : σ} {result : Except RunError (RunEnd R G)}

/-- A loop that has come to a result has followed the rules. -/
lemma executes_of_iterate (h : d.iterate observer remaining n p t w = .ok (result, w')) :
    d.Executes observer remaining n p t w result w' := by
  induction remaining generalizing n p t w with
  | zero =>
    unfold iterate at h
    split_ifs at h with hsettled
    · obtain ⟨rfl, rfl⟩ := Prod.mk.inj (Except.ok.inj h)
      exact .settled hsettled
    · obtain ⟨rfl, rfl⟩ := Prod.mk.inj (Except.ok.inj h)
      exact .full hsettled
  | succ remaining ih =>
    unfold iterate at h
    split_ifs at h with hsettled
    · obtain ⟨rfl, rfl⟩ := Prod.mk.inj (Except.ok.inj h)
      exact .settled hsettled
    · simp only [Outcome.bind_eq_ok] at h
      obtain ⟨failure | ⟨step, q⟩, hmove, h⟩ := h
      · obtain ⟨rfl, rfl⟩ := Prod.mk.inj (Outcome.pure_eq_ok.1 h)
        exact .failed hsettled hmove
      · simp only [Outcome.bind_eq_ok] at h
        obtain ⟨t', hrecord, t'', hstep, h⟩ := h
        have hextend : t.extend n step q.iterate = .ok t'' :=
          Outcome.bind_eq_ok.2 ⟨t', hrecord, hstep⟩
        split at h
        · rename_i hanswer
          obtain ⟨rfl, rfl⟩ := Prod.mk.inj (Outcome.pure_eq_ok.1 h)
          exact .stopped hsettled hmove hextend hanswer
        · rename_i hanswer
          exact .next hsettled hmove hextend hanswer (ih h)

/-- A result that the rules allow is the one of the loop. -/
lemma Executes.iterate_eq (h : d.Executes observer remaining n p t w result w') :
    d.iterate observer remaining n p t w = .ok (result, w') := by
  induction h with
  | settled hsettled =>
    unfold iterate
    rw [if_pos hsettled]
  | full hunsettled =>
    unfold iterate
    rw [if_neg hunsettled]
  | failed hunsettled hmove =>
    unfold iterate
    rw [if_neg hunsettled]
    simp only [hmove, Outcome.ok_bind]
    rfl
  | stopped hunsettled hmove hextend hanswer =>
    obtain ⟨t', hrecord, hstep⟩ := Outcome.bind_eq_ok.1 hextend
    unfold iterate
    rw [if_neg hunsettled]
    simp only [hmove, hrecord, hstep, Outcome.ok_bind]
    rw [Position.event] at hanswer
    simp only [hanswer]
    rfl
  | next hunsettled hmove hextend hanswer _ ih =>
    obtain ⟨t', hrecord, hstep⟩ := Outcome.bind_eq_ok.1 hextend
    unfold iterate
    rw [if_neg hunsettled]
    simp only [hmove, hrecord, hstep, Outcome.ok_bind]
    rw [Position.event] at hanswer
    simp only [hanswer]
    exact ih

/-- The loop is what the rules say. -/
theorem iterate_eq_ok : d.iterate observer remaining n p t w = .ok (result, w') ↔
    d.Executes observer remaining n p t w result w' :=
  ⟨executes_of_iterate, Executes.iterate_eq⟩

/-! ## Before and after the loop -/

/-- The observer hears of the duals if there are constraints, and lets the run begin. -/
def Informs (d : Dynamics R) (observer : Observer σ (Event R) Action) (estimate : DualEstimate R)
    (w w' : σ) : Prop :=
  if d.problem.isConstrained then observer.observe w (.dualsResolved estimate) = (none, w')
  else w' = w

/-- The trajectory with which a run begins. -/
def opened (d : Dynamics R) (first : Position R G) : Checked (Trajectory R) :=
  (d.blankTrajectory d.config.maxIterations).record 0 first.iterate

omit [RandomSource G R] in
/-- A blank trajectory takes the iterates that fit the problem. -/
lemma takes_blankTrajectory {iterate : Iterate R} (hfits : iterate.Fits d.problem) (room : Nat) :
    (d.blankTrajectory room).Takes iterate := by
  refine ⟨hfits.length_x.symm, hfits.length_hidden.symm, fun slacks hslacks => ?_⟩
  obtain ⟨_, -, rfl⟩ := Option.map_eq_some_iff.1 hslacks
  exact hfits.length_slack.symm

omit [RandomSource G R] in
/-- A run begins with its first iterate if there is room for it. -/
lemma opened_eq_ok {first : Position R G} : d.opened first = .ok t ↔
    (0 < d.config.maxIterations ∧
      (d.blankTrajectory d.config.maxIterations).Takes first.iterate) ∧
      t = { d.blankTrajectory d.config.maxIterations with
        iterates := (d.blankTrajectory d.config.maxIterations).iterates.setIfInBounds 0
          first.iterate } := by
  have hsize : (d.blankTrajectory d.config.maxIterations).iterates.size =
      d.config.maxIterations := Array.size_replicate
  rw [opened, Trajectory.record_eq_ok, hsize]

omit [RandomSource G R] in
/-- A run with room for an iterate begins at a first one that fits. -/
lemma exists_opened {first : Position R G} (hroom : 0 < d.config.maxIterations)
    (hfits : first.iterate.Fits d.problem) : ∃ t, d.opened first = .ok t :=
  ⟨_, opened_eq_ok.2 ⟨⟨hroom, takes_blankTrajectory hfits _⟩, rfl⟩⟩

omit [RandomSource G R] in
/-- The lengths that are set aside do not depend on the room. -/
lemma takes_opened {first : Position R G} (h : d.opened first = .ok t) (room : Nat)
    {iterate : Iterate R} : t.Takes iterate ↔ (d.blankTrajectory room).Takes iterate := by
  obtain ⟨-, rfl⟩ := opened_eq_ok.1 h
  exact ⟨fun h => ⟨h.x, h.hidden, h.slack⟩, fun h => ⟨h.x, h.hidden, h.slack⟩⟩

omit [RandomSource G R] in
/-- There is room for iterates that fit the problem. -/
lemma takes_of_opened {first : Position R G} (h : d.opened first = .ok t) {iterate : Iterate R}
    (hfits : iterate.Fits d.problem) : t.Takes iterate :=
  (takes_opened h 0).2 (takes_blankTrajectory hfits 0)

omit [RandomSource G R] in
/-- There is room for as many iterates as the settings allow. -/
lemma size_of_opened {first : Position R G} (h : d.opened first = .ok t) :
    t.iterates.size = d.config.maxIterations := by
  obtain ⟨-, rfl⟩ := opened_eq_ok.1 h
  exact Array.size_setIfInBounds.trans Array.size_replicate

omit [RandomSource G R] in
/-- There is room for all iterates but the first. -/
lemma hasRoom_of_opened {first : Position R G} (h : d.opened first = .ok t) :
    t.HasRoom (d.config.maxIterations - 1) 0 := by
  have hsize := size_of_opened h
  obtain ⟨⟨hroom, -⟩, rfl⟩ := opened_eq_ok.1 h
  constructor
  · omega
  · simp only [blankTrajectory, Trajectory.withCapacity, Array.size_replicate, Nat.zero_add]

omit [RandomSource G R] in
/-- The first iterate is all that has been written. -/
lemma upTo_of_opened {first : Position R G} (h : d.opened first = .ok t) :
    t.upTo 1 = ⟨d.problem.dimension, d.problem.inequalities.map fun _ => d.problem.slackDimension,
      #[first.iterate], #[]⟩ := by
  obtain ⟨⟨hroom, -⟩, rfl⟩ := opened_eq_ok.1 h
  have hsize : 0 < (d.blankTrajectory d.config.maxIterations).iterates.size := by
    simpa [blankTrajectory, Trajectory.withCapacity] using hroom
  simp only [Trajectory.upTo, Trajectory.take_setIfInBounds hsize]
  simp [blankTrajectory, Trajectory.withCapacity]

/-- A run that is watched is ended by the word of the observer on the duals, or goes through the
loop. -/
lemma watch_eq_ok {estimate : DualEstimate R} {first : Position R G} :
    d.watch observer estimate first w = .ok (result, w') ↔
      ∃ t, d.opened first = .ok t ∧
        ((d.problem.isConstrained = true ∧
            observer.observe w (.dualsResolved estimate) = (some .stopEarly, w') ∧
            result = .ok ⟨.stoppedByObserver, 0, first, t⟩) ∨
          ∃ w₀, d.Informs observer estimate w w₀ ∧
            d.Executes observer (d.config.maxIterations - 1) 0 first t w₀ result w') := by
  simp only [watch, Outcome.bind_eq_ok, opened]
  refine exists_congr fun t => and_congr_right fun _ => ?_
  by_cases hconstrained : d.problem.isConstrained = true
  · simp only [hconstrained, if_true, Informs, true_and]
    rcases hanswer : observer.observe w (.dualsResolved estimate) with ⟨_ | ⟨⟨⟩⟩, w₀⟩
    · simp [iterate_eq_ok]
    · simp only [Outcome.pure_eq_ok, Prod.mk.injEq, true_and, reduceCtorEq, false_and, exists_false,
        or_false]
      exact ⟨fun h => ⟨h.2, h.1.symm⟩, fun h => ⟨h.2.symm, h.1⟩⟩
  · simp [hconstrained, Informs, iterate_eq_ok]

end Dynamics

omit [Scalar R] [RandomSource G R] in
/-- A solution keeps what has been written up to its last iterate. -/
lemma RunEnd.solution_eq_ok {e : RunEnd R G} {estimate : DualEstimate R} {solution : Solution R} :
    e.solution estimate = .ok solution ↔
      (e.iterations + 1 ≤ e.trajectory.iterates.size ∧
        e.iterations ≤ e.trajectory.steps.size) ∧
      solution = ⟨e.status, e.trajectory.upTo (e.iterations + 1), estimate.duals, estimate.status,
        e.iterations, e.position.stationarity⟩ := by
  simp only [RunEnd.solution, Trajectory.trimmed, Outcome.bind_eq_ok, Outcome.ite_error_eq_ok,
    Outcome.pure_eq_ok, Except.ok.injEq, Nat.add_sub_cancel]
  constructor
  · rintro ⟨_, ⟨hroom, rfl⟩, rfl⟩
    exact ⟨hroom, rfl⟩
  · rintro ⟨hroom, rfl⟩
    exact ⟨_, ⟨hroom, rfl⟩, rfl⟩

omit [Scalar R] [RandomSource G R] in
/-- An end has a solution if there is room for its last iterate. -/
lemma RunEnd.solution_eq {e : RunEnd R G} {unused : Nat}
    (hroom : e.trajectory.HasRoom unused e.iterations) (estimate : DualEstimate R) :
    e.solution estimate = .ok ⟨e.status, e.trajectory.upTo (e.iterations + 1), estimate.duals,
      estimate.status, e.iterations, e.position.stationarity⟩ := by
  have hiterates := hroom.iterates
  have hsteps := hroom.steps
  exact solution_eq_ok.2 ⟨⟨by omega, by omega⟩, rfl⟩

omit [Scalar R] [RandomSource G R] in
/-- The report of a run that has started is a failure or a solution. -/
lemma RunReport.ofEnd_eq_ok {estimate : DualEstimate R} {opening : List (Notice R)}
    {result : Except RunError (RunEnd R G)} {w : σ} {report : RunReport R σ} :
    ofEnd estimate opening result w = .ok report ↔
      (∃ failure, result = .error failure ∧ report = ⟨.error failure, w, opening, []⟩) ∨
        ∃ final solution, result = .ok final ∧ final.solution estimate = .ok solution ∧
          report = ⟨.ok solution, w, opening, [final.notice]⟩ := by
  rcases result with failure | final
  · simp [ofEnd, @eq_comm _ report]
  · simp only [ofEnd, Outcome.bind_eq_ok, Outcome.pure_eq_ok]
    simp [@eq_comm _ report]

/-- The report is that of a run of the dynamics with duals that have been estimated: either the run
fails to start, or it is watched to its end. -/
def Dynamics.Reports (d : Dynamics R) (observer : Observer σ (Event R) Action) (source : G)
    (estimate : DualEstimate R) (opening : List (Notice R)) (w : σ) (report : RunReport R σ) :
    Prop :=
  (∃ failure, d.start source = .ok (.error failure) ∧ report = ⟨.error failure, w, opening, []⟩) ∨
    ∃ first result w', d.start source = .ok (.ok first) ∧
      d.watch observer estimate first w = .ok (result, w') ∧
      RunReport.ofEnd estimate opening result w' = .ok report

/-- A solution bears the duals of its run, and their status. -/
lemma Dynamics.Reports.duals_eq {d : Dynamics R} {observer : Observer σ (Event R) Action}
    {source : G} {estimate : DualEstimate R} {opening : List (Notice R)} {w : σ}
    {report : RunReport R σ} (h : d.Reports observer source estimate opening w report)
    {solution : Solution R} (hsolution : report.outcome = .ok solution) :
    solution.duals = estimate.duals ∧ solution.dualStatus = estimate.status := by
  obtain ⟨failure, -, rfl⟩ | ⟨first, result, w', -, -, hreport⟩ := h
  · cases hsolution
  obtain ⟨failure, rfl, rfl⟩ | ⟨final, solution', rfl, hfinal, rfl⟩ :=
    RunReport.ofEnd_eq_ok.1 hreport
  · cases hsolution
  · obtain rfl := Except.ok.inj hsolution
    obtain ⟨-, rfl⟩ := RunEnd.solution_eq_ok.1 hfinal
    exact ⟨rfl, rfl⟩

/-- A run resolves the duals, starts, and unless the start has failed it is watched to its end. -/
lemma solve_eq_ok {radius : ConstraintBlock R → Checked R} {problem : Problem R}
    {config : Config R} {observer : Observer σ (Event R) Action} {w : σ}
    {report : RunReport R σ} :
    solve G problem config observer w radius = .ok report ↔
      ∃ estimate opening d,
        DualAscent.resolve problem config.dualAscent radius = .ok (estimate, opening) ∧
        Dynamics.ofProblem problem config estimate.duals radius = .ok d ∧
        d.Reports observer (RandomSource.ofSeed config.seed : G) estimate opening w report := by
  simp only [solve, Dynamics.Reports, Outcome.bind_eq_ok, Prod.exists]
  constructor
  · rintro ⟨estimate, opening, hresolve, d, hd, failure | first, hstart, h⟩
    · exact ⟨estimate, opening, d, hresolve, hd,
        .inl ⟨failure, hstart, (Outcome.pure_eq_ok.1 h).symm⟩⟩
    · obtain ⟨⟨result, w'⟩, hwatch, h⟩ := Outcome.bind_eq_ok.1 h
      exact ⟨estimate, opening, d, hresolve, hd, .inr ⟨first, result, w', hstart, hwatch, h⟩⟩
  · rintro ⟨estimate, opening, d, hresolve, hd, ⟨failure, hstart, rfl⟩ |
      ⟨first, result, w', hstart, hwatch, hreport⟩⟩
    · exact ⟨estimate, opening, hresolve, d, hd, _, hstart, rfl⟩
    · exact ⟨estimate, opening, hresolve, d, hd, _, hstart,
        Outcome.bind_eq_ok.2 ⟨(result, w'), hwatch, hreport⟩⟩

end HopfieldDescent

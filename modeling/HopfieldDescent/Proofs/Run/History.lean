import Mathlib
import HopfieldDescent.Proofs.Run.Execution
import HopfieldDescent.Proofs.StepLength.Backtracking

/-!
# The history of a run

A run that does not fail has gone from position to position by moves, has recorded every one of
them, and has looked at the stationarity before each move.  `Dynamics.Path` is that history up to
some iterate, and `solve_history` finds it behind every solution.

What holds at every iterate of a run is proved by induction on the path.  The numbered entries of
the recorded trajectory lead back to the path by `Path.exists_position` and `Path.exists_move`.
-/

namespace HopfieldDescent

variable {R G σ : Type} [Scalar R]

/-! ## The parts of a step -/

namespace Dynamics

variable {d : Dynamics R}

/-- The parts of the dynamics of a problem. -/
lemma ofProblem_eq_ok {radius : ConstraintBlock R → Checked R} {problem : Problem R}
    {config : Config R} {duals : DualVariables R} :
    ofProblem problem config duals radius = .ok d ↔
      ∃ smoothness, problem.effectiveSmoothness radius = .ok smoothness ∧
        d = ⟨problem, config, .ofProblem problem duals, problem.boxMap config.activation,
          smoothness⟩ := by
  simp only [ofProblem, Outcome.bind_eq_ok, Outcome.pure_eq_ok, @eq_comm _ d]

/-- The parts of a stationarity. -/
lemma stationarity_eq_ok {x gradient : Vec R} {s : R} :
    d.stationarity x gradient = .ok s ↔
      ∃ proxy weighted, d.map.proxyDistance x = .ok proxy ∧
        Vec.mul proxy gradient = .ok weighted ∧ Vec.norm weighted = s := by
  simp only [stationarity, Outcome.bind_eq_ok, Outcome.pure_eq_ok]
  constructor
  · rintro ⟨proxy, hproxy, weighted, hweighted, hs⟩
    exact ⟨proxy, weighted, hproxy, hweighted, hs⟩
  · rintro ⟨proxy, weighted, hproxy, hweighted, hs⟩
    exact ⟨proxy, hproxy, weighted, hweighted, hs⟩

/-- The parts of a trial step. -/
lemma candidate_eq_ok {hidden slack direction : Vec R} {step : R} {c : Candidate R} :
    d.candidate hidden slack direction step = .ok c ↔
      hidden.shiftScaled step direction = .ok c.hidden ∧ d.map.activate c.hidden = .ok c.x ∧
        d.lagrangian.updateSlack c.x slack = .ok c.slack ∧
        d.lagrangian.value c.x c.slack = .ok c.objective := by
  simp only [candidate, Outcome.bind_eq_ok, Outcome.pure_eq_ok]
  constructor
  · rintro ⟨_, hhidden, _, hx, _, hslack, _, hobjective, rfl⟩
    exact ⟨hhidden, hx, hslack, hobjective⟩
  · rintro ⟨hhidden, hx, hslack, hobjective⟩
    exact ⟨_, hhidden, _, hx, _, hslack, _, hobjective, rfl⟩

/-- Whatever the step rule, the chosen step leads to its own candidate. -/
lemma candidate_of_chosenStep {iteration : Nat} {p : Position R G} {direction : Vec R} {step : R}
    {c : Candidate R} (h : d.chosenStep iteration p direction = .ok (step, c)) :
    d.candidate p.hidden p.slack direction step = .ok c := by
  simp only [chosenStep, Outcome.bind_eq_ok] at h
  obtain ⟨proxy, -, h⟩ := h
  cases hstep : d.config.step with
  | classic =>
    simp only [hstep, Outcome.bind_eq_ok, Outcome.pure_eq_ok] at h
    obtain ⟨_, -, _, hc, hpair⟩ := h
    obtain ⟨rfl, rfl⟩ := Prod.mk.inj hpair
    exact hc
  | armijo =>
    simp only [hstep, Outcome.bind_eq_ok] at h
    obtain ⟨_, -, _, -, h⟩ := h
    obtain ⟨_, -, -, value, htrial, -⟩ := StepLength.exists_halved_of_backtrack h
    simp only [Outcome.bind_eq_ok, Outcome.pure_eq_ok] at htrial
    obtain ⟨_, hc, hpair⟩ := htrial
    obtain ⟨-, rfl⟩ := Prod.mk.inj hpair
    exact hc

variable [RandomSource G R]

/-- The parts of a start: a gradient that vanishes is replaced, and nothing else is changed. -/
lemma start_eq_ok {source : G} {p : Position R G} (h : d.start source = .ok (.ok p)) :
    p.x = d.problem.start ∧ d.map.inverse p.x = .ok p.hidden ∧
      p.slack = Vec.zeros d.problem.slackDimension ∧
      d.lagrangian.value p.x p.slack = .ok p.objective ∧
      (∃ gradient, d.lagrangian.gradient p.x p.slack = .ok gradient ∧
        (Vec.isZero gradient = false → p.gradient = gradient)) ∧
      d.stationarity p.x p.gradient = .ok p.stationarity := by
  simp only [start, Outcome.bind_eq_ok] at h
  obtain ⟨hidden, hhidden, objective, hobjective, gradient, hgradient, h⟩ := h
  split_ifs at h with hfinite hzero
  · cases Outcome.pure_eq_ok.1 h
  · simp only [Outcome.bind_eq_ok, Outcome.pure_eq_ok, Except.ok.injEq] at h
    obtain ⟨stationarity, hstationarity, rfl⟩ := h
    refine ⟨rfl, hhidden, rfl, hobjective, ⟨gradient, hgradient, fun hnonzero => ?_⟩,
      hstationarity⟩
    exact absurd hzero (by simp [hnonzero])
  · simp only [Outcome.bind_eq_ok, Outcome.pure_eq_ok, Except.ok.injEq] at h
    obtain ⟨stationarity, hstationarity, rfl⟩ := h
    exact ⟨rfl, hhidden, rfl, hobjective, ⟨gradient, hgradient, fun _ => rfl⟩, hstationarity⟩

/-- The parts of a move: a direction, a step to a candidate, and the candidate absorbed. -/
lemma move_eq_ok {iteration : Nat} {p q : Position R G} {step : R}
    (h : d.move iteration p = .ok (.ok (step, q))) :
    ∃ direction source, ∃ c : Candidate R,
      Direction.find d.problem d.map d.config p.x p.gradient p.source = .ok (direction, source) ∧
      d.chosenStep iteration p direction = .ok (step, c) ∧
      d.lagrangian.gradient c.x c.slack = .ok q.gradient ∧
      d.absorb c.x = .ok q.x ∧
      d.stationarity q.x q.gradient = .ok q.stationarity ∧
      q.hidden = c.hidden ∧ q.slack = c.slack ∧ q.objective = c.objective := by
  simp only [move, Outcome.bind_eq_ok] at h
  obtain ⟨⟨direction, source⟩, hdirection, ⟨step', c⟩, hstep, gradient, hgradient, h⟩ := h
  split_ifs at h with hfinite
  · cases Outcome.pure_eq_ok.1 h
  · simp only [Outcome.bind_eq_ok, Outcome.pure_eq_ok, Except.ok.injEq, Prod.mk.injEq] at h
    obtain ⟨x, hx, stationarity, hstationarity, rfl, rfl⟩ := h
    exact ⟨direction, source, c, hdirection, hstep, hgradient, hx, hstationarity, rfl, rfl, rfl⟩

end Dynamics

/-! ## Paths -/

variable [RandomSource G R]

/-- The moves from a first position on, with their number, the position they lead to, and what has
been recorded on the way.  Each move starts where the stationarity is not yet below the
precision. -/
inductive Dynamics.Path (d : Dynamics R) (first : Position R G) :
    Nat → Position R G → Array (Iterate R) → Array R → Prop
  | start : Path d first 0 first #[first.iterate] #[]
  | move {n : Nat} {p q : Position R G} {step : R} {iterates : Array (Iterate R)}
      {steps : Array R} (path : Path d first n p iterates steps)
      (unsettled : ¬p.stationarity < d.config.precision)
      (moved : d.move n p = .ok (.ok (step, q))) :
      Path d first (n + 1) q (iterates.push q.iterate) (steps.push step)

namespace Dynamics.Path

variable {d : Dynamics R} {first last : Position R G} {n : Nat} {iterates : Array (Iterate R)}
  {steps : Array R}

/-- A path of `n` moves records `n + 1` iterates and `n` steps. -/
lemma size_eq (path : d.Path first n last iterates steps) :
    iterates.size = n + 1 ∧ steps.size = n := by
  induction path with
  | start => simp
  | move _ _ _ ih => simp [ih]

/-- The last iterate of a path is what was recorded of its last position. -/
lemma getElem?_last (path : d.Path first n last iterates steps) :
    iterates[n]? = some last.iterate := by
  cases path with
  | start => rfl
  | move path unsettled moved =>
    rw [Array.getElem?_push, if_pos path.size_eq.1.symm]

/-- Every iterate of a path is what was recorded of a position of the path. -/
theorem exists_position (path : d.Path first n last iterates steps) {k : Nat} (hk : k ≤ n) :
    ∃ p iterates' steps', d.Path first k p iterates' steps' ∧
      iterates[k]? = some p.iterate := by
  induction path with
  | start =>
    obtain rfl := Nat.le_zero.1 hk
    exact ⟨first, _, _, .start, rfl⟩
  | @move n p q step iterates steps path unsettled moved ih =>
    obtain ⟨hsize, -⟩ := path.size_eq
    rcases Nat.le_succ_iff.1 hk with hle | rfl
    · obtain ⟨p', iterates', steps', path', hget⟩ := ih hle
      refine ⟨p', iterates', steps', path', ?_⟩
      rw [Array.getElem?_push, if_neg (by omega), hget]
    · have path' := path.move unsettled moved
      exact ⟨q, _, _, path', path'.getElem?_last⟩

/-- Every step of a path is what was recorded of a move of the path. -/
theorem exists_move (path : d.Path first n last iterates steps) {k : Nat} (hk : k < n) :
    ∃ p q step iterates' steps', d.Path first k p iterates' steps' ∧
      ¬p.stationarity < d.config.precision ∧ d.move k p = .ok (.ok (step, q)) ∧
      iterates[k]? = some p.iterate ∧ iterates[k + 1]? = some q.iterate ∧
      steps[k]? = some step := by
  induction path with
  | start => exact absurd hk k.not_lt_zero
  | @move n p q step iterates steps path unsettled moved ih =>
    obtain ⟨hsize, hsize'⟩ := path.size_eq
    rcases Nat.lt_succ_iff_lt_or_eq.1 hk with hlt | rfl
    · obtain ⟨p', q', step', iterates', steps', path', unsettled', moved', hp, hq, hstep⟩ := ih hlt
      refine ⟨p', q', step', iterates', steps', path', unsettled', moved', ?_, ?_, ?_⟩
      · rw [Array.getElem?_push, if_neg (by omega), hp]
      · rw [Array.getElem?_push, if_neg (by omega), hq]
      · rw [Array.getElem?_push, if_neg (by omega), hstep]
    · refine ⟨p, q, step, iterates, steps, path, unsettled, moved, ?_, ?_, ?_⟩
      · rw [Array.getElem?_push, if_neg (by omega), path.getElem?_last]
      · rw [Array.getElem?_push, if_pos hsize.symm]
      · rw [Array.getElem?_push, if_pos hsize'.symm]

end Dynamics.Path

/-! ## The loop and the run -/

/-- The loop only ever continues a path: where it ends without a failure, a path has led to its
last position, and it has recorded that path. -/
lemma Dynamics.Executes.path {d : Dynamics R} {observer : Observer σ (Event R) Action}
    {first p : Position R G} {remaining n : Nat} {t : Trajectory R} {w w' : σ} {e : RunEnd R G}
    (h : d.Executes observer remaining n p t w (.ok e) w')
    (path : d.Path first n p (t.upTo (n + 1)).iterates (t.upTo (n + 1)).steps) :
    d.Path first e.iterations e.position (e.trajectory.upTo (e.iterations + 1)).iterates
        (e.trajectory.upTo (e.iterations + 1)).steps ∧
      (e.status = .converged → e.position.stationarity < d.config.precision) := by
  generalize hresult : (Except.ok e : Except RunError (RunEnd R G)) = result at h
  induction h with
  | settled hsettled =>
    obtain rfl := Except.ok.inj hresult
    exact ⟨path, fun _ => hsettled⟩
  | full =>
    obtain rfl := Except.ok.inj hresult
    exact ⟨path, nofun⟩
  | failed => cases hresult
  | stopped hunsettled hmove hextend =>
    obtain rfl := Except.ok.inj hresult
    refine ⟨?_, nofun⟩
    rw [Trajectory.upTo_extend hextend]
    exact path.move hunsettled hmove
  | next hunsettled hmove hextend _ _ ih =>
    refine ih ?_ hresult
    rw [Trajectory.upTo_extend hextend]
    exact path.move hunsettled hmove

/-- A run that is watched records its first position and enters the loop, or ends there. -/
lemma Dynamics.path_of_watch {d : Dynamics R} {observer : Observer σ (Event R) Action}
    {estimate : DualEstimate R} {first : Position R G} {w w' : σ} {e : RunEnd R G}
    (h : d.watch observer estimate first w = .ok (.ok e, w')) :
    d.Path first e.iterations e.position (e.trajectory.upTo (e.iterations + 1)).iterates
        (e.trajectory.upTo (e.iterations + 1)).steps ∧
      (e.status = .converged → e.position.stationarity < d.config.precision) := by
  obtain ⟨t, hopened, hcase⟩ := watch_eq_ok.1 h
  have path : d.Path first 0 first (t.upTo 1).iterates (t.upTo 1).steps := by
    rw [upTo_of_opened hopened]
    exact .start
  obtain ⟨-, -, hresult⟩ | ⟨w₀, -, hrun⟩ := hcase
  · obtain rfl := Except.ok.inj hresult
    exact ⟨path, nofun⟩
  · exact hrun.path path

/-- What lies behind the solution of a run. -/
structure Solution.History (G : Type) [RandomSource G R] (problem : Problem R) (config : Config R)
    (solution : Solution R)
    (radius : ConstraintBlock R → Checked R := ConstraintBlock.gramSpectralRadius) where
  /-- What was said about the duals. -/
  opening : List (Notice R)
  /-- What stays fixed during the run. -/
  dynamics : Dynamics R
  /-- The position at the start point. -/
  first : Position R G
  /-- The position at the last iterate. -/
  last : Position R G
  /-- The duals are those resolved for the problem. -/
  resolved : DualAscent.resolve problem config.dualAscent radius =
    .ok (⟨solution.duals, solution.dualStatus⟩, opening)
  /-- The dynamics is that of the problem at the duals. -/
  dynamics_eq : Dynamics.ofProblem problem config solution.duals radius = .ok dynamics
  /-- The first position is the start. -/
  start_eq : dynamics.start (RandomSource.ofSeed config.seed : G) = .ok (.ok first)
  /-- The trajectory records a path from the first position to the last. -/
  path : dynamics.Path first solution.iterations last solution.trajectory.iterates
    solution.trajectory.steps
  /-- The stationarity is that of the last position. -/
  stationarity_eq : solution.stationarity = last.stationarity
  /-- A run has converged only below the precision. -/
  lt_of_converged : solution.status = .converged → last.stationarity < config.precision

section Runs

variable {radius : ConstraintBlock R → Checked R} {problem : Problem R} {config : Config R}
  {observer : Observer σ (Event R) Action} {w : σ} {report : RunReport R σ}
  {solution : Solution R}

/-- Behind every solution there is a run that has been watched to its end. -/
lemma exists_watch_of_solve (h : solve G problem config observer w radius = .ok report)
    (hsolution : report.outcome = .ok solution) :
    ∃ estimate opening d, ∃ first : Position R G, ∃ final w',
      DualAscent.resolve problem config.dualAscent radius = .ok (estimate, opening) ∧
      Dynamics.ofProblem problem config estimate.duals radius = .ok d ∧
      d.start (RandomSource.ofSeed config.seed : G) = .ok (.ok first) ∧
      d.watch observer estimate first w = .ok (.ok final, w') ∧
      final.solution estimate = .ok solution := by
  obtain ⟨estimate, opening, d, hresolve, hd, ⟨failure, -, rfl⟩ |
    ⟨first, result, w', hstart, hwatch, hreport⟩⟩ := solve_eq_ok.1 h
  · cases hsolution
  obtain ⟨failure, rfl, rfl⟩ | ⟨final, solution', rfl, hfinal, rfl⟩ :=
    RunReport.ofEnd_eq_ok.1 hreport
  · cases hsolution
  · obtain rfl := Except.ok.inj hsolution
    exact ⟨estimate, opening, d, first, final, w', hresolve, hd, hstart, hwatch, hfinal⟩

/-- Every solution has a history. -/
theorem solve_history (h : solve G problem config observer w radius = .ok report)
    (hsolution : report.outcome = .ok solution) :
    Nonempty (solution.History G problem config radius) := by
  obtain ⟨estimate, opening, d, first, final, w', hresolve, hd, hstart, hwatch, hfinal⟩ :=
    exists_watch_of_solve h hsolution
  obtain ⟨path, hconverged⟩ := Dynamics.path_of_watch hwatch
  obtain ⟨-, rfl⟩ := RunEnd.solution_eq_ok.1 hfinal
  have hconfig : d.config = config := by
    obtain ⟨_, -, rfl⟩ := Dynamics.ofProblem_eq_ok.1 hd
    rfl
  rw [hconfig] at hconverged
  exact ⟨⟨opening, d, first, final.position, hresolve, hd, hstart, path, rfl, hconverged⟩⟩

end Runs

/-! ## The room of a trajectory -/

/-- The loop keeps to the room that there is, and to whether slacks mean anything. -/
lemma Dynamics.Executes.hasRoom {d : Dynamics R} {observer : Observer σ (Event R) Action}
    {p : Position R G} {remaining n : Nat} {t : Trajectory R} {w w' : σ} {e : RunEnd R G}
    (h : d.Executes observer remaining n p t w (.ok e) w') (hroom : t.HasRoom remaining n) :
    (∃ unused, e.trajectory.HasRoom unused e.iterations) ∧
      e.trajectory.iterates.size = t.iterates.size ∧ e.trajectory.hasSlack = t.hasSlack := by
  generalize hresult : (Except.ok e : Except RunError (RunEnd R G)) = result at h
  induction h with
  | settled =>
    obtain rfl := Except.ok.inj hresult
    exact ⟨⟨_, hroom⟩, rfl, rfl⟩
  | full =>
    obtain rfl := Except.ok.inj hresult
    exact ⟨⟨_, hroom⟩, rfl, rfl⟩
  | failed => cases hresult
  | stopped _ _ hextend =>
    obtain rfl := Except.ok.inj hresult
    have hroom' := hroom.of_extend hextend
    refine ⟨⟨_, hroom'⟩, Trajectory.size_extend hextend, ?_⟩
    obtain ⟨-, rfl⟩ := Trajectory.extend_eq_ok.1 hextend
    rfl
  | next _ _ hextend _ _ ih =>
    obtain ⟨hunused, hsize, hslack⟩ := ih (hroom.of_extend hextend) hresult
    refine ⟨hunused, hsize.trans (Trajectory.size_extend hextend), hslack.trans ?_⟩
    obtain ⟨-, rfl⟩ := Trajectory.extend_eq_ok.1 hextend
    rfl

/-- A run that is watched ends with the room with which it has begun. -/
lemma Dynamics.hasRoom_of_watch {d : Dynamics R} {observer : Observer σ (Event R) Action}
    {estimate : DualEstimate R} {first : Position R G} {w w' : σ} {e : RunEnd R G}
    (h : d.watch observer estimate first w = .ok (.ok e, w')) :
    (∃ unused, e.trajectory.HasRoom unused e.iterations) ∧
      e.trajectory.iterates.size = d.config.maxIterations ∧
      e.trajectory.hasSlack = d.problem.inequalities.isSome := by
  obtain ⟨t, hopened, hcase⟩ := watch_eq_ok.1 h
  have hroom := hasRoom_of_opened hopened
  have hshape : t.iterates.size = d.config.maxIterations ∧
      t.hasSlack = d.problem.inequalities.isSome := by
    refine ⟨size_of_opened hopened, ?_⟩
    obtain ⟨-, rfl⟩ := opened_eq_ok.1 hopened
    exact Option.isSome_map
  obtain ⟨-, -, hresult⟩ | ⟨w₀, -, hrun⟩ := hcase
  · obtain rfl := Except.ok.inj hresult
    exact ⟨⟨_, hroom⟩, hshape⟩
  · obtain ⟨hunused, hsize, hslack⟩ := hrun.hasRoom hroom
    exact ⟨hunused, hsize.trans hshape.1, hslack.trans hshape.2⟩

/-- A solution keeps to the cap, and has slacks where there are inequalities. -/
theorem cap_of_solve {problem : Problem R} {config : Config R}
    {observer : Observer σ (Event R) Action} {w : σ} {report : RunReport R σ}
    {solution : Solution R} (h : solve G problem config observer w = .ok report)
    (hsolution : report.outcome = .ok solution) :
    solution.iterations + 1 ≤ config.maxIterations ∧
      solution.trajectory.hasSlack = problem.inequalities.isSome := by
  obtain ⟨estimate, opening, d, first, final, w', -, hd, -, hwatch, hfinal⟩ :=
    exists_watch_of_solve h hsolution
  obtain ⟨_, -, rfl⟩ := Dynamics.ofProblem_eq_ok.1 hd
  obtain ⟨⟨unused, hroom⟩, hsize, hslack⟩ := Dynamics.hasRoom_of_watch hwatch
  obtain ⟨-, rfl⟩ := RunEnd.solution_eq_ok.1 hfinal
  refine ⟨?_, hslack⟩
  have hiterates := hroom.iterates
  simp only at hsize ⊢
  omega

/-! ## Runs along a path -/

section Paths

variable {d : Dynamics R} {observer : Observer σ (Event R) Action} {first last : Position R G}
  {n : Nat} {iterates : Array (Iterate R)} {steps : Array R}

/-- Under an observer that never answers, the loop follows a path as long as there is room, and
records it. -/
lemma Dynamics.Path.exists_executes (path : d.Path first n last iterates steps)
    (hquiet : observer.NeverAnswers) {t : Trajectory R} {room : Nat}
    (hroom : t.HasRoom room 0) (hle : n ≤ room) (hiterates : (t.upTo 1).iterates = #[first.iterate])
    (hsteps : (t.upTo 1).steps = #[]) (htakes : ∀ iterate ∈ iterates, t.Takes iterate) (w : σ) :
    ∃ t' w', t'.HasRoom (room - n) n ∧ (∀ iterate, t'.Takes iterate ↔ t.Takes iterate) ∧
      (t'.upTo (n + 1)).iterates = iterates ∧ (t'.upTo (n + 1)).steps = steps ∧
      ∀ result w'', d.Executes observer (room - n) n last t' w' result w'' →
        d.Executes observer room 0 first t w result w'' := by
  induction path with
  | start => exact ⟨t, w, hroom, fun _ => .rfl, hiterates, hsteps, fun _ _ => id⟩
  | @move n p q step iterates steps path unsettled moved ih =>
    obtain ⟨t', w', hroom', htakes', hiterates', hsteps', hrest⟩ :=
      ih (Nat.le_of_succ_le hle) fun iterate hmem => htakes iterate (Array.mem_push_of_mem _ hmem)
    obtain ⟨remaining, hremaining⟩ : ∃ remaining, room - n = remaining + 1 :=
      Nat.exists_eq_succ_of_ne_zero (by omega)
    have hremaining' : room - (n + 1) = remaining := by omega
    rw [hremaining] at hroom' hrest
    rw [hremaining']
    obtain ⟨t'', hextend⟩ := hroom'.exists_extend
      ((htakes' _).2 (htakes q.iterate Array.mem_push_self)) step
    have hupTo := Trajectory.upTo_extend hextend
    refine ⟨t'', (observer.observe w' (q.event (n + 1) step)).2, hroom'.of_extend hextend,
      fun iterate => (Trajectory.takes_extend hextend).trans (htakes' iterate), ?_, ?_, ?_⟩
    · rw [hupTo, Trajectory.push, hiterates']
    · rw [hupTo, Trajectory.push, hsteps']
    · intro result w'' hexecutes
      exact hrest result w'' (.next unsettled moved hextend (Prod.ext (hquiet _ _) rfl) hexecutes)

/-- Under an observer that never answers, a run with room for a path and no more goes along it to
the end. -/
theorem Dynamics.Path.exists_watch (path : d.Path first n last iterates steps)
    (hquiet : observer.NeverAnswers)
    (hcap : d.config.maxIterations = n + 1) (hfits : ∀ iterate ∈ iterates, iterate.Fits d.problem)
    (estimate : DualEstimate R) (w : σ) :
    ∃ final w', d.watch observer estimate first w = .ok (.ok final, w') ∧ final.iterations = n ∧
      (final.trajectory.upTo (n + 1)).iterates = iterates ∧
      (final.trajectory.upTo (n + 1)).steps = steps := by
  obtain ⟨p, iterates', steps', path', hget⟩ := path.exists_position (Nat.zero_le n)
  have hfirst : first.iterate.Fits d.problem := by
    cases path'
    exact hfits _ (Array.mem_of_getElem? hget)
  obtain ⟨t, hopened⟩ := exists_opened (by omega) hfirst
  have hupTo := upTo_of_opened hopened
  have hroom := hasRoom_of_opened hopened
  rw [hcap, Nat.add_sub_cancel] at hroom
  have htakes : ∀ iterate ∈ iterates, t.Takes iterate :=
    fun iterate hmem => takes_of_opened hopened (hfits iterate hmem)
  obtain ⟨w₀, hinforms⟩ : ∃ w₀, d.Informs observer estimate w w₀ := by
    unfold Informs
    split_ifs
    · exact ⟨_, Prod.ext (hquiet _ _) rfl⟩
    · exact ⟨w, rfl⟩
  obtain ⟨t', w', -, -, hiterates, hsteps, hrest⟩ := path.exists_executes hquiet hroom le_rfl
    (by rw [hupTo]) (by rw [hupTo]) htakes w₀
  obtain ⟨status, hend⟩ : ∃ status,
      d.Executes observer (n - n) n last t' w' (.ok ⟨status, n, last, t'⟩) w' := by
    rw [Nat.sub_self]
    by_cases hsettled : last.stationarity < d.config.precision
    · exact ⟨_, .settled hsettled⟩
    · exact ⟨_, .full hsettled⟩
  have hexecutes := hrest _ _ hend
  refine ⟨⟨status, n, last, t'⟩, w', watch_eq_ok.2 ⟨t, hopened, .inr ⟨w₀, hinforms, ?_⟩⟩, rfl,
    hiterates, hsteps⟩
  rw [hcap, Nat.add_sub_cancel]
  exact hexecutes

/-- Under an observer that never answers, a run with room for a path and no more has it as its
solution. -/
theorem Dynamics.Path.exists_solve {radius : ConstraintBlock R → Checked R} {problem : Problem R}
    {config : Config R} {estimate : DualEstimate R} {opening : List (Notice R)}
    (path : d.Path first n last iterates steps)
    (hresolve : DualAscent.resolve problem config.dualAscent radius = .ok (estimate, opening))
    (hd : ofProblem problem config estimate.duals radius = .ok d)
    (hstart : d.start (RandomSource.ofSeed config.seed : G) = .ok (.ok first))
    (hquiet : observer.NeverAnswers)
    (hcap : config.maxIterations = n + 1) (hfits : ∀ iterate ∈ iterates, iterate.Fits problem)
    (w : σ) :
    ∃ report solution, solve G problem config observer w radius = .ok report ∧
      report.outcome = .ok solution ∧ solution.iterations = n ∧
      solution.duals = estimate.duals ∧ solution.trajectory.iterates = iterates ∧
      solution.trajectory.steps = steps := by
  obtain ⟨hproblem, hconfig⟩ : d.problem = problem ∧ d.config = config := by
    obtain ⟨_, -, rfl⟩ := ofProblem_eq_ok.1 hd
    exact ⟨rfl, rfl⟩
  obtain ⟨final, w', hwatch, rfl, hiterates, hsteps⟩ :=
    path.exists_watch hquiet (hconfig ▸ hcap) (hproblem ▸ hfits) estimate w
  obtain ⟨⟨unused, hroom⟩, -⟩ := hasRoom_of_watch hwatch
  have hsolution := RunEnd.solution_eq hroom estimate
  exact ⟨_, _, solve_eq_ok.2 ⟨estimate, opening, d, hresolve, hd, .inr ⟨first, _, w', hstart,
    hwatch, RunReport.ofEnd_eq_ok.2 (.inr ⟨final, _, rfl, hsolution, rfl⟩)⟩⟩, rfl, rfl, rfl,
    hiterates, hsteps⟩

end Paths

end HopfieldDescent

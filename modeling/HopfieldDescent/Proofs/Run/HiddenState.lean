import Mathlib
import HopfieldDescent.Proofs.Direction.Slope
import HopfieldDescent.Proofs.Run.Descent
import HopfieldDescent.Proofs.Run.Truncation

/-!
# The hidden state determines a run

A run carries its point, its slack and its objective from step to step.  In exact arithmetic none of
this is memory: each of them can be computed from the hidden state of the same iterate.

The hidden state itself moves by the recorded step along a direction of length zero or one,
whichever rules find the direction and the step (`Dynamics.Path.movesBy`).  The point is what the
hidden state is squashed to, with absorption on top.  The update of the slack goes to a minimum that
does not depend on where it begins (`Lagrangian.eq_of_updateSlack`), and the objective is the value
there.  `Dynamics.ReadsOff` collects this, and says enough for two runs with the same hidden states
to be compared (`Dynamics.ReadsOff.unique`).
-/

namespace HopfieldDescent

variable {G σ : Type}

/-! ## Moved vectors -/

namespace Vec

variable {v : Vec ℝ}

/-- A combination has the length of its left operand, unless that is a single entry. -/
lemma length_eq_or_of_zipSpread {α β γ : Type} {f : α → β → γ} {v : List α} {w : List β}
    {z : List γ} (h : zipSpread f v w = .ok z) : z.length = v.length ∨ v.length = 1 := by
  unfold zipSpread at h
  split_ifs at h with hlength
  · obtain rfl := Except.ok.inj h
    exact .inl (by simp [hlength])
  · split at h
    · exact .inr rfl
    · obtain rfl := Except.ok.inj h
      exact .inl (List.length_map _)
    · cases h

/-- A vector moved by multiples of another one has moved by those multiples. -/
lemma sub_zipWith_shifted (a : ℝ) {w : Vec ℝ} (h : w.length = v.length) :
    sub (List.zipWith (fun x y => x + a * y) v w) v = .ok (w.map (a * ·)) := by
  have hlength : (List.zipWith (fun x y => x + a * y) v w).length = v.length := by simp [h]
  rw [sub, zipSpread_of_length_eq hlength]
  congr 1
  refine List.ext_getElem (by simp [h]) fun i hi hi' => ?_
  simp

end Vec

namespace Dynamics

variable {d : Dynamics ℝ} {iteration : ℕ} {p : Position ℝ G} {direction : Vec ℝ} {step : ℝ}
  {c : Candidate ℝ}

/-- A step is only ever made along a direction with an entry for each variable.  A single entry
could be spread over a longer hidden state, but both step rules refuse it: they pair the direction
with vectors that have an entry for each variable. -/
lemma length_of_chosenStep (hgain : d.problem.gain.length = d.map.lower.length)
    (hhidden : p.hidden.length = d.map.lower.length)
    (h : d.chosenStep iteration p direction = .ok (step, c)) :
    direction.length = d.map.lower.length := by
  obtain ⟨hshift, -⟩ := candidate_eq_ok.1 (candidate_of_chosenStep h)
  simp only [chosenStep, Outcome.bind_eq_ok] at h
  obtain ⟨proxy, hproxy, h⟩ := h
  have hproxy : proxy.length = d.map.lower.length :=
    (Vec.coords_of_zipExact4 hproxy rfl).2.1
  cases hstep : d.config.step with
  | classic =>
    simp only [hstep, Outcome.bind_eq_ok] at h
    obtain ⟨_, hclosed, -⟩ := h
    exact (StepLength.closedForm_eq_ok hgain hclosed).2.2.1
  | armijo =>
    simp only [hstep, Vec.dot, Outcome.bind_eq_ok, Breach.sameLength_eq_ok] at h
    obtain ⟨weighted, hweighted, _, ⟨_, hdirection, -⟩, -⟩ := h
    rcases Vec.length_eq_or_of_zipOnto hshift with hlength | hsingle
    · exact hlength.symm.trans hhidden
    · rcases Vec.length_eq_or_of_zipSpread hweighted with hlength | hone
      · exact hdirection.symm.trans (hlength.trans hproxy)
      · exact hsingle.trans (hone.symm.trans hproxy)

end Dynamics

/-! ## The hidden state -/

/-- One hidden state is reached from another by a step along a direction of length zero or one. -/
structure Iterate.MovesBy (before after : Iterate ℝ) (step : ℝ) (direction : Vec ℝ) : Prop where
  /-- The direction has an entry for each one of the hidden state. -/
  length_direction : direction.length = before.hidden.length
  /-- It is a unit vector or zero. -/
  norm_direction : Vec.norm direction = 0 ∨ Vec.norm direction = 1
  /-- The step goes along the direction. -/
  hidden_eq : after.hidden = List.zipWith (fun h e => h + step * e) before.hidden direction

/-- A hidden state moves by nothing or by the length of the step. -/
lemma Iterate.MovesBy.exists_moved {before after : Iterate ℝ} {step : ℝ} {direction : Vec ℝ}
    (h : before.MovesBy after step direction) :
    ∃ moved, Vec.sub after.hidden before.hidden = .ok moved ∧
      (Vec.norm moved = 0 ∨ Vec.norm moved = |step|) := by
  refine ⟨direction.map (step * ·), ?_, ?_⟩
  · rw [h.hidden_eq]
    exact Vec.sub_zipWith_shifted step h.length_direction
  · rw [Vec.norm_map_mul]
    rcases h.norm_direction with hzero | hone
    · exact .inl (by rw [hzero, mul_zero])
    · exact .inr (by rw [hone, mul_one])

section Runs

variable [RandomSource G ℝ] {problem : Problem ℝ} {config : Config ℝ} {duals : DualVariables ℝ}
  {d : Dynamics ℝ} {first last : Position ℝ G} {n : ℕ} {iterates : Array (Iterate ℝ)}
  {steps : Array ℝ} {source : G}

namespace Dynamics

/-- Throughout a run the hidden state has an entry for each variable. -/
lemma Path.length_hidden (path : d.Path first n last iterates steps)
    (hstart : d.start source = .ok (.ok first)) :
    last.hidden.length = d.map.lower.length := by
  cases path with
  | start =>
    obtain ⟨-, hinverse, -⟩ := start_eq_ok hstart
    exact (Vec.coords_of_zipExact4 hinverse rfl).2.1
  | move path unsettled moved =>
    obtain ⟨direction, source, c, -, hstep, -, -, -, hhidden, -⟩ := move_eq_ok moved
    obtain ⟨-, hactivate, -⟩ := candidate_eq_ok.1 (candidate_of_chosenStep hstep)
    rw [hhidden]
    exact (Vec.coords_of_zipExact4 hactivate rfl).1

/-- A move from a hidden state that fits goes by the step that it reports. -/
lemma movesBy_of_move {p q : Position ℝ G} {step : ℝ}
    (hgain : d.problem.gain.length = d.map.lower.length)
    (hhidden : p.hidden.length = d.map.lower.length)
    (h : d.move n p = .ok (.ok (step, q))) :
    ∃ direction, p.iterate.MovesBy q.iterate step direction := by
  obtain ⟨direction, source, c, hfind, hstep, -, -, -, hhidden', -⟩ := move_eq_ok h
  have hlength : p.hidden.length = direction.length :=
    hhidden.trans (length_of_chosenStep hgain hhidden hstep).symm
  obtain ⟨hshift, -⟩ := candidate_eq_ok.1 (candidate_of_chosenStep hstep)
  rw [Vec.shiftScaled, Vec.zipOnto_of_length_eq hlength] at hshift
  refine ⟨direction, hlength.symm, Direction.norm_of_find hfind, ?_⟩
  exact hhidden'.trans (Except.ok.inj hshift).symm

end Dynamics

end Runs

/-! ## The slack -/

namespace Lagrangian

variable {l : Lagrangian ℝ} {p : PenalizedBlock ℝ} {n : ℕ} {x slack slack' : Vec ℝ}

/-- Where an update of the slack leads does not depend on where it begins: in each row it is the
residual plus the dual over the penalty, cut off at zero. -/
lemma eq_of_updateSlack (hi : l.inequality = some p) (hp : p.Fits n) (hpenalty : 0 < p.penalty)
    (hlength : slack.length = p.block.height) (h : l.updateSlack x slack = .ok slack') :
    ∃ residual, p.block.residual x = .ok residual ∧ residual.length = p.block.height ∧
      slack' = List.zipWith (fun c μ => min 0 (c + μ / p.penalty)) residual p.dual := by
  obtain ⟨residual, hresidual⟩ : ∃ residual, p.block.residual x = .ok residual := by
    simp only [updateSlack, slackGradient, PenalizedBlock.slackResidual, hi,
      Outcome.bind_eq_ok] at h
    obtain ⟨_, ⟨_, ⟨residual, hresidual, -⟩, -⟩, -⟩ := h
    exact ⟨residual, hresidual⟩
  obtain ⟨-, hr, hcoords⟩ := PenalizedBlock.residual_eq_ok hp hresidual
  have hresidualLength : residual.length = p.block.matrix.height := hr
  have hdual : p.dual.length = p.block.matrix.height := hp.length_dual
  refine ⟨residual, hresidual, hr, ?_⟩
  refine Vec.eq_of_coords_eq (n := p.block.matrix.height)
    ((length_of_updateSlack hi h).trans hlength) (by simp [hresidualLength, hdual]) ?_
  funext i
  rw [coords_of_updateSlack hi hp hpenalty.ne' hlength h, Vec.coords_zipWith hresidualLength hdual,
    hcoords, min_comm, PenalizedBlock.level, Pi.add_apply, Pi.smul_apply, smul_eq_mul,
    div_eq_inv_mul]

end Lagrangian

/-! ## What is read off the hidden state -/

/-- Everything that is recorded of an iterate after a step is read off its hidden state: `x` is the
point that the hidden state is squashed to, and nothing of the iterate before is used. -/
structure Dynamics.ReadsOff (d : Dynamics ℝ) (duals : DualVariables ℝ) (iterate : Iterate ℝ)
    (x : Vec ℝ) : Prop where
  /-- The point before absorption. -/
  activate : d.map.activate iterate.hidden = .ok x
  /-- The recorded point. -/
  absorb : d.absorb x = .ok iterate.x
  /-- The slack of each inequality is the residual plus the dual over the penalty, cut off at
  zero. -/
  slack : ∀ block ∈ d.problem.inequalities, ∃ dual ∈ duals.inequality, ∃ residual,
    block.residual x = .ok residual ∧ residual.length = block.height ∧
      dual.length = block.height ∧
      iterate.slack =
        List.zipWith (fun c μ => min 0 (c + μ / d.problem.inequalityPenalty)) residual dual
  /-- Without inequalities there is no slack. -/
  slack_eq_nil : d.problem.inequalities = none → iterate.slack = []
  /-- The objective is that of the point before absorption. -/
  value : d.lagrangian.value x iterate.slack = .ok iterate.objective

/-- Iterates that are read off the same hidden state in the same way are equal. -/
theorem Dynamics.ReadsOff.unique {d d' : Dynamics ℝ} {duals : DualVariables ℝ}
    {iterate iterate' : Iterate ℝ} {x x' : Vec ℝ} (h : d.ReadsOff duals iterate x)
    (h' : d'.ReadsOff duals iterate' x') (hproblem : d'.problem = d.problem)
    (hmap : d'.map = d.map) (hlagrangian : d'.lagrangian = d.lagrangian)
    (habsorption : d'.config.absorption = d.config.absorption)
    (hhidden : iterate'.hidden = iterate.hidden) : iterate' = iterate := by
  have hx : x' = x := by
    have hactivate := h'.activate
    rw [hhidden, hmap, h.activate] at hactivate
    exact (Except.ok.inj hactivate).symm
  subst hx
  have hpoint : iterate'.x = iterate.x := by
    have hsame : d'.absorb x' = d.absorb x' := by
      simp only [Dynamics.absorb, habsorption, hproblem]
    exact Except.ok.inj (h'.absorb.symm.trans (hsame.trans h.absorb))
  have hslack : iterate'.slack = iterate.slack := by
    cases hblock : d.problem.inequalities with
    | none => rw [h.slack_eq_nil hblock, h'.slack_eq_nil (hproblem ▸ hblock)]
    | some block =>
      obtain ⟨dual, hdual, residual, hresidual, -, -, hslack⟩ := h.slack block hblock
      obtain ⟨dual', hdual', residual', hresidual', -, -, hslack'⟩ :=
        h'.slack block (hproblem ▸ hblock)
      obtain rfl : dual = dual' := Option.mem_unique hdual hdual'
      obtain rfl := Except.ok.inj (hresidual.symm.trans hresidual')
      rw [hslack, hslack', hproblem]
  have hobjective : iterate'.objective = iterate.objective := by
    have hvalue := h'.value
    rw [hlagrangian, hslack] at hvalue
    exact (Except.ok.inj (h.value.symm.trans hvalue)).symm
  cases iterate
  cases iterate'
  rw [Iterate.mk.injEq]
  exact ⟨hpoint, hhidden, hobjective, hslack⟩

section Runs

variable [RandomSource G ℝ] {problem : Problem ℝ} {config : Config ℝ} {duals : DualVariables ℝ}
  {d : Dynamics ℝ} {first last : Position ℝ G} {n : ℕ} {iterates : Array (Iterate ℝ)}
  {steps : Array ℝ} {source : G}

/-- After a move everything is read off the hidden state. -/
theorem Dynamics.Path.readsOff (path : d.Path first n last iterates steps)
    (hstart : d.start source = .ok (.ok first)) (hproblem : problem.WellFormed)
    (hduals : duals.Fit problem) (hd : ofProblem problem config duals = .ok d) (hn : n ≠ 0) :
    ∃ x, d.ReadsOff duals last.iterate x := by
  cases path with
  | start => exact absurd rfl hn
  | move path unsettled moved =>
    obtain ⟨direction, source, c, -, hstep, -, habsorb, -, hhidden, hslack, hobjective⟩ :=
      move_eq_ok moved
    obtain ⟨-, hactivate, hupdate, hvalue⟩ := candidate_eq_ok.1 (candidate_of_chosenStep hstep)
    have hlengthSlack {p : PenalizedBlock ℝ} := path.length_slack hstart (p := p)
    obtain ⟨_, -, rfl⟩ := ofProblem_eq_ok.1 hd
    refine ⟨c.x, ?_, habsorb, ?_, ?_, ?_⟩
    · rw [Position.iterate, hhidden]
      exact hactivate
    · intro block (hblock : block ∈ problem.inequalities)
      obtain ⟨dual, hdual, hlength, hi⟩ := Lagrangian.exists_inequality hduals hblock
      have hp := (Lagrangian.fits_ofProblem hproblem hduals).inequality _ hi
      have hpenalty : 0 < problem.inequalityPenalty :=
        (Lagrangian.penalty_nonneg hproblem).2.2 (Option.isSome_of_mem hblock)
      have hdimension : problem.slackDimension = block.height := by
        simp only [Problem.slackDimension, Option.mem_def.1 hblock]
      obtain ⟨residual, hresidual, hresidualLength, hresult⟩ := Lagrangian.eq_of_updateSlack hi hp
        hpenalty ((hlengthSlack hi).trans hdimension) hupdate
      exact ⟨dual, hdual, residual, hresidual, hresidualLength, hlength, hslack.trans hresult⟩
    · intro (hnone : problem.inequalities = none)
      have hi : (Lagrangian.ofProblem problem duals).inequality = none := by
        simp only [Lagrangian.ofProblem, hnone, Lagrangian.penalized]
      rw [Lagrangian.updateSlack, hi] at hupdate
      exact hslack.trans (Except.ok.inj hupdate).symm
    · rw [Position.iterate, hslack, hobjective]
      exact hvalue

end Runs

/-! ## Whole runs -/

section Solutions

variable {G₀ : Type} [RandomSource G₀ ℝ] [RandomSource G ℝ] {definition : Definition ℝ}
  {setupConfig config : Config ℝ} {prepared : Prepared ℝ}
  {observer : Observer σ (Event ℝ) Action} {w : σ} {report : RunReport ℝ σ}
  {solution : Solution ℝ}

/-- Every iterate of a solution after the first is read off its hidden state. -/
lemma readsOff_of_solve {problem : Problem ℝ} (hproblem : problem.WellFormed)
    (history : solution.History G problem config) {k : ℕ} (hk : 1 ≤ k) {iterate : Iterate ℝ}
    (hget : solution.trajectory.iterates[k]? = some iterate) :
    ∃ x, history.dynamics.ReadsOff solution.duals iterate x := by
  have hlt : k < solution.trajectory.iterates.size := (Array.getElem?_eq_some_iff.1 hget).1
  rw [history.path.size_eq.1] at hlt
  obtain ⟨p, iterates, steps, path, hp⟩ := history.path.exists_position (Nat.le_of_lt_succ hlt)
  obtain rfl := Option.some.inj (hget.symm.trans hp)
  exact path.readsOff history.start_eq hproblem
    (DualAscent.fit_of_resolve hproblem history.resolved) history.dynamics_eq
    (Nat.one_le_iff_ne_zero.1 hk)

/-- In exact arithmetic the hidden state determines a run.  It begins at the inverse of the start
point, and each recorded step moves it along a direction of length zero or one.  After the first
iterate the point, the slack and the objective are read off the hidden state, so that two runs of
one problem with the same duals, squashing function and absorption agree in all of them wherever
they agree in the hidden state, whatever else sets them apart. -/
theorem determined_of_solve (hsetup : setup G₀ definition setupConfig = .ok prepared)
    (hsolve : solve G prepared.problem config observer w = .ok report)
    (hsolution : report.outcome = .ok solution) :
    ∃ d, Dynamics.ofProblem prepared.problem config solution.duals = .ok d ∧
      (∃ iterate, solution.trajectory.iterates[0]? = some iterate ∧
        iterate.x = prepared.problem.start ∧
        d.map.inverse prepared.problem.start = .ok iterate.hidden) ∧
      (∀ k < solution.iterations, ∃ (before after : Iterate ℝ) (step : ℝ) (direction moved : Vec ℝ),
        solution.trajectory.iterates[k]? = some before ∧
        solution.trajectory.iterates[k + 1]? = some after ∧
        solution.trajectory.steps[k]? = some step ∧
        before.MovesBy after step direction ∧
        Vec.sub after.hidden before.hidden = .ok moved ∧
        (Vec.norm moved = 0 ∨ Vec.norm moved = |step|)) ∧
      (∀ k, 1 ≤ k → k ≤ solution.iterations → ∃ iterate x,
        solution.trajectory.iterates[k]? = some iterate ∧
        d.ReadsOff solution.duals iterate x ∧ (config.absorption = none → iterate.x = x)) ∧
      (∀ (G' σ' : Type) [RandomSource G' ℝ] (config' : Config ℝ)
        (observer' : Observer σ' (Event ℝ) Action) (w' : σ') (report' : RunReport ℝ σ')
        (solution' : Solution ℝ),
        solve G' prepared.problem config' observer' w' = .ok report' →
        report'.outcome = .ok solution' → solution'.duals = solution.duals →
        config'.activation = config.activation → config'.absorption = config.absorption →
        ∀ k k', 1 ≤ k → 1 ≤ k' → ∀ iterate iterate' : Iterate ℝ,
          solution.trajectory.iterates[k]? = some iterate →
          solution'.trajectory.iterates[k']? = some iterate' →
          iterate'.hidden = iterate.hidden →
          iterate'.x = iterate.x ∧ iterate'.slack = iterate.slack ∧
            iterate'.objective = iterate.objective) := by
  have hproblem := wellFormed_of_setup hsetup
  obtain ⟨history⟩ := solve_history hsolve hsolution
  have hd := history.dynamics_eq
  obtain ⟨_, hsmoothness, hparts⟩ := Dynamics.ofProblem_eq_ok.1 hd
  refine ⟨history.dynamics, hd, ?_, ?_, ?_, ?_⟩
  · obtain ⟨p, iterates, steps, path, hget⟩ := history.path.exists_position (Nat.zero_le _)
    cases path with
    | start =>
      obtain ⟨hx, hinverse, -⟩ := Dynamics.start_eq_ok history.start_eq
      have hstart : history.first.x = prepared.problem.start := by rw [hx, hparts]
      exact ⟨_, hget, hstart, hstart ▸ hinverse⟩
  · intro k hk
    obtain ⟨p, q, step, _, _, path, -, moved, hp, hq, hstep⟩ := history.path.exists_move hk
    have hgain : history.dynamics.problem.gain.length = history.dynamics.map.lower.length := by
      rw [hparts]
      exact hproblem.length_gain
    obtain ⟨direction, hmoves⟩ :=
      Dynamics.movesBy_of_move hgain (path.length_hidden history.start_eq) moved
    obtain ⟨v, hv, hnorm⟩ := hmoves.exists_moved
    exact ⟨_, _, step, direction, v, hp, hq, hstep, hmoves, hv, hnorm⟩
  · intro k hk hk'
    obtain ⟨p, _, _, _, hget⟩ := history.path.exists_position hk'
    obtain ⟨x, hx⟩ := readsOff_of_solve hproblem history hk hget
    refine ⟨p.iterate, x, hget, hx, fun hnone => ?_⟩
    have habsorb := hx.absorb
    rw [Dynamics.absorb, hparts, hnone] at habsorb
    exact (Except.ok.inj habsorb).symm
  · intro G' σ' _ config' observer' w' report' solution' hsolve' hsolution' hduals hactivation
      habsorption k k' hk hk' iterate iterate' hget hget' hhidden
    obtain ⟨history'⟩ := solve_history hsolve' hsolution'
    obtain ⟨_, -, hparts'⟩ := Dynamics.ofProblem_eq_ok.1 history'.dynamics_eq
    obtain ⟨x, hx⟩ := readsOff_of_solve hproblem history hk hget
    obtain ⟨x', hx'⟩ := readsOff_of_solve hproblem history' hk' hget'
    rw [hduals] at hx'
    have hsame : iterate' = iterate := by
      refine hx.unique hx' ?_ ?_ ?_ ?_ hhidden
      · rw [hparts, hparts']
      · rw [hparts, hparts', hactivation]
      · rw [hparts, hparts', hduals]
      · rw [hparts, hparts', habsorption]
    rw [hsame]
    exact ⟨rfl, rfl, rfl⟩

end Solutions

/-- The run of one step moves its hidden state by the recorded step, and under a log it is read off
the same hidden states. -/
theorem determined_of_solve_oneStep : ∃ (prepared : Prepared ℝ) (report : RunReport ℝ Unit)
    (report' : RunReport ℝ (Array (Notice ℝ))) (solution solution' : Solution ℝ),
    setup Unit OneStep.definition ⟨OneStep.draft none⟩ = .ok prepared ∧
    solve Unit prepared.problem ⟨OneStep.draft none⟩ .silent () = .ok report ∧
    report.outcome = .ok solution ∧ solution.iterations = 1 ∧
    solve Unit prepared.problem ⟨OneStep.draft none⟩ (Log.observer 1) #[] = .ok report' ∧
    report'.outcome = .ok solution' ∧
    (∃ (before after : Iterate ℝ) (direction : Vec ℝ),
      solution.trajectory.iterates[0]? = some before ∧
      solution.trajectory.iterates[1]? = some after ∧ before.MovesBy after (1 / 30) direction) ∧
    (∃ iterate x, solution.trajectory.iterates[1]? = some iterate ∧
      (OneStep.dynamics none).ReadsOff solution.duals iterate x) ∧
    (∀ iterate iterate' : Iterate ℝ, solution.trajectory.iterates[1]? = some iterate →
      solution'.trajectory.iterates[1]? = some iterate' → iterate'.hidden = iterate.hidden →
      iterate'.x = iterate.x ∧ iterate'.slack = iterate.slack ∧
        iterate'.objective = iterate.objective) := by
  obtain ⟨notices, hsetup⟩ := OneStep.setup_definition none (by simp)
  obtain ⟨report, solution, _, hsolve, hsolution, hiterations, hduals, -, hsteps⟩ :=
    OneStep.solve_eq none rfl
  have hquiet : (Observer.silent : Observer Unit (Event ℝ) Action).NeverAnswers := fun _ _ => rfl
  obtain ⟨said, -, hlogged⟩ := solve_of_answersLike (hquiet.answersLike (Log.neverAnswers 1))
    (v := #[]) trivial hsolve
  obtain ⟨d, hd, -, hmoves, hreads, hsame⟩ := determined_of_solve hsetup hsolve hsolution
  have hdynamics : d = OneStep.dynamics none := by
    rw [hduals, OneStep.ofProblem_eq] at hd
    exact (Except.ok.inj hd).symm
  obtain ⟨before, after, step, direction, _, hbefore, hafter, hstep, hmoves, -⟩ :=
    hmoves 0 (by omega)
  obtain rfl : 1 / 30 = step := by
    rw [hsteps] at hstep
    exact Option.some.inj hstep
  obtain ⟨iterate, x, hget, hx, -⟩ := hreads 1 le_rfl (by omega)
  refine ⟨_, report, _, solution, solution, hsetup, hsolve, hsolution, hiterations, hlogged,
    hsolution, ⟨before, after, direction, hbefore, hafter, hmoves⟩,
    ⟨iterate, x, hget, hdynamics ▸ hx⟩, ?_⟩
  exact hsame _ _ _ _ _ _ _ hlogged hsolution rfl rfl rfl 1 1 le_rfl le_rfl

end HopfieldDescent

import Mathlib
import HopfieldDescent.Proofs.Run.Feasibility

/-!
# At which point the recorded values are taken

The objective and the gradient of an iterate are taken when the hidden state has been squashed, and
absorption comes after that.  The recorded objective therefore belongs to the point before
absorption, while the recorded point is the one after it.  The stationarity combines both: the
proxy distance is that of the recorded point, and the gradient that of the point before.

The two points are the same exactly when absorption finds nothing to do: every coordinate near a
bound already lies on the bound of its half (`Problem.NothingToAbsorb`).
-/

namespace HopfieldDescent

variable {R G σ : Type} [Scalar R]

/-- The point at which the objective and the gradient of an iterate are taken: the start point
itself, and later what the hidden state is squashed to, from which absorption leads to the recorded
point. -/
structure Dynamics.TakenAt (d : Dynamics R) (k : Nat) (iterate : Iterate R) (x : Vec R) :
    Prop where
  /-- At the start it is the recorded point. -/
  start : k = 0 → x = iterate.x
  /-- After a step it is the squashed hidden state. -/
  activate : k ≠ 0 → d.map.activate iterate.hidden = .ok x
  /-- After a step the recorded point is its absorption. -/
  absorb : k ≠ 0 → d.absorb x = .ok iterate.x

/-- Every coordinate that is nearer to a bound than the distance lies on the bound of its half. -/
def Problem.NothingToAbsorb (problem : Problem R) (distance : R) (x : Vec R) : Prop :=
  ∀ (i : Nat) a l u m, x[i]? = some a → problem.lower[i]? = some l → problem.upper[i]? = some u →
    problem.midpoint[i]? = some m → Scalar.minNum (a - l) (u - a) < distance →
      (if a < m then l else u) = a

/-- Absorption leads elsewhere exactly when it finds something to do. -/
lemma Dynamics.eq_of_absorb_iff {d : Dynamics R} {x y : Vec R} (h : d.absorb x = .ok y) :
    x = y ↔ ∀ distance ∈ d.config.absorption, d.problem.NothingToAbsorb distance x := by
  unfold absorb at h
  cases habsorption : d.config.absorption with
  | none =>
    rw [habsorption] at h
    simpa using Except.ok.inj h
  | some distance =>
    rw [habsorption] at h
    obtain ⟨hx, hupper, hmidpoint, -⟩ := Vec.zipExact4_eq_ok.1 h
    have hentry {i : Nat} {a l u m : R} (ha : x[i]? = some a) (hl : d.problem.lower[i]? = some l)
        (hu : d.problem.upper[i]? = some u) (hm : d.problem.midpoint[i]? = some m) :
        y[i]? = some (absorbed distance a l u m) := Vec.getElem?_of_zipExact4 h ha hl hu hm
    constructor
    · rintro rfl _ ⟨⟩ i a l u m ha hl hu hm
      have hsame : absorbed distance a l u m = a :=
        Option.some.inj ((hentry ha hl hu hm).symm.trans ha)
      exact ite_eq_right_iff.1 hsame
    · intro hnothing
      refine List.ext_getElem (Vec.length_of_zipExact4 h).symm fun i hi _ => ?_
      have ha := List.getElem?_eq_getElem hi
      have hl := List.getElem?_eq_getElem (hx ▸ hi)
      have hu := List.getElem?_eq_getElem (hupper ▸ hx ▸ hi)
      have hm := List.getElem?_eq_getElem (hmidpoint ▸ hupper ▸ hx ▸ hi)
      have hsame := hentry ha hl hu hm
      rw [absorbed, ite_eq_right_iff.2 (hnothing distance rfl i _ _ _ _ ha hl hu hm)] at hsame
      exact ((List.getElem_eq_iff _).2 hsame).symm

/-- Without absorption the point is the recorded one. -/
lemma Dynamics.TakenAt.eq_of_absorption_eq_none {d : Dynamics R} {k : Nat} {iterate : Iterate R}
    {x : Vec R} (h : d.TakenAt k iterate x) (hnone : d.config.absorption = none) :
    x = iterate.x := by
  by_cases hk : k = 0
  · exact h.start hk
  · exact (eq_of_absorb_iff (h.absorb hk)).2 (by simp [hnone])

variable [RandomSource G R] {d : Dynamics R}

/-- Along a run every value is taken at the point of its iterate, but for the gradient at a start
where it vanishes. -/
theorem Dynamics.Path.exists_takenAt {first last : Position R G} {n : Nat}
    {iterates : Array (Iterate R)} {steps : Array R} {source : G}
    (path : d.Path first n last iterates steps) (hstart : d.start source = .ok (.ok first)) :
    ∃ x gradient, d.TakenAt n last.iterate x ∧
      d.lagrangian.value x last.slack = .ok last.objective ∧
      d.lagrangian.gradient x last.slack = .ok gradient ∧
      (n ≠ 0 ∨ Vec.isZero gradient = false → last.gradient = gradient) ∧
      d.stationarity last.x last.gradient = .ok last.stationarity := by
  cases path with
  | start =>
    obtain ⟨-, -, -, hvalue, ⟨gradient, hgradient, hreplaced⟩, hstationarity⟩ :=
      start_eq_ok hstart
    refine ⟨first.x, gradient, ⟨fun _ => rfl, fun h => absurd rfl h, fun h => absurd rfl h⟩,
      hvalue, hgradient, ?_, hstationarity⟩
    rintro (h | h)
    · exact absurd rfl h
    · exact hreplaced h
  | @move n p q step iterates steps path unsettled moved =>
    obtain ⟨direction, source, c, -, hstep, hgradient, habsorb, hstationarity, hhidden, hslack,
      hobjective⟩ := move_eq_ok moved
    obtain ⟨-, hactivate, -, hvalue⟩ := candidate_eq_ok.1 (candidate_of_chosenStep hstep)
    refine ⟨c.x, last.gradient, ⟨fun h => absurd h n.succ_ne_zero, fun _ => ?_, fun _ => habsorb⟩,
      ?_, ?_, fun _ => rfl, hstationarity⟩
    · rw [Position.iterate, hhidden]
      exact hactivate
    · rw [hslack, hobjective]
      exact hvalue
    · rw [hslack]
      exact hgradient

variable {problem : Problem R} {config : Config R} {observer : Observer σ (Event R) Action}
  {w : σ} {report : RunReport R σ} {solution : Solution R}

/-- Where the recorded values of a run belong.  The objective of every iterate is that of the point
before absorption, which is the recorded point exactly at the start and where there was nothing to
absorb, in particular in runs without absorption.  The stationarity is that of the final iterate
with the gradient from before absorption, if a vanishing gradient was not replaced, and a run has
converged only if it is below the precision. -/
theorem recorded_values_of_solve (hsolve : solve G problem config observer w = .ok report)
    (hsolution : report.outcome = .ok solution) :
    ∃ d, Dynamics.ofProblem problem config solution.duals = .ok d ∧
      (∀ k ≤ solution.iterations, ∃ iterate x,
        solution.trajectory.iterates[k]? = some iterate ∧ d.TakenAt k iterate x ∧
        d.lagrangian.value x iterate.slack = .ok iterate.objective ∧
        (x = iterate.x ↔
          k = 0 ∨ ∀ distance ∈ config.absorption, problem.NothingToAbsorb distance x)) ∧
      (∃ iterate x gradient, solution.trajectory.iterates[solution.iterations]? = some iterate ∧
        d.TakenAt solution.iterations iterate x ∧
        d.lagrangian.gradient x iterate.slack = .ok gradient ∧
        (solution.iterations ≠ 0 ∨ Vec.isZero gradient = false →
          d.stationarity iterate.x gradient = .ok solution.stationarity)) ∧
      (solution.status = .converged → solution.stationarity < config.precision) := by
  obtain ⟨history⟩ := solve_history hsolve hsolution
  obtain ⟨_, -, hd⟩ := Dynamics.ofProblem_eq_ok.1 history.dynamics_eq
  refine ⟨history.dynamics, history.dynamics_eq, ?_, ?_, ?_⟩
  · intro k hk
    obtain ⟨p, iterates, steps, path, hget⟩ := history.path.exists_position hk
    obtain ⟨x, gradient, htaken, hvalue, -⟩ := path.exists_takenAt history.start_eq
    refine ⟨p.iterate, x, hget, htaken, hvalue, ?_⟩
    by_cases hk : k = 0
    · simp [hk, htaken.start hk]
    · rw [Dynamics.eq_of_absorb_iff (htaken.absorb hk), hd]
      simp [hk]
  · obtain ⟨x, gradient, htaken, -, hgradient, hsame, hstationarity⟩ :=
      history.path.exists_takenAt history.start_eq
    refine ⟨history.last.iterate, x, gradient, history.path.getElem?_last, htaken, hgradient, ?_⟩
    intro h
    rw [history.stationarity_eq, ← hstationarity, hsame h]
    rfl
  · intro h
    rw [history.stationarity_eq]
    exact history.lt_of_converged h

/-! ## A run that absorbs -/

namespace OneStep

/-- Absorption over nearly half of the interval takes the reached point to the lower bound. -/
lemma absorb_reached : (dynamics (some 0.49)).absorb [reached] = .ok [0] := by
  have hlt := reached_lt
  have hhalf : reached < 1 / 2 := by
    norm_num at hlt ⊢
    linarith
  have habsorption : (dynamics (some 0.49)).config.absorption = some 0.49 := rfl
  simp only [Dynamics.absorb, habsorption]
  simp [dynamics, problem, Vec.zipExact4, Vec.zipExact3, Vec.zipExact, Breach.sameLength,
    Outcome.ok_bind, Dynamics.absorbed]
  rw [if_pos (Or.inl hlt), if_pos (by norm_num at hhalf ⊢; exact hhalf)]

end OneStep

/-- A recorded objective is not always that of the recorded point. -/
theorem objective_ne_value_absorbed : ∃ (prepared : Prepared ℝ) (report : RunReport ℝ Unit)
    (solution : Solution ℝ) (iterate : Iterate ℝ),
    setup Unit OneStep.definition ⟨OneStep.draft (some 0.49)⟩ = .ok prepared ∧
    solve Unit prepared.problem ⟨OneStep.draft (some 0.49)⟩ .silent () = .ok report ∧
    report.outcome = .ok solution ∧
    (Lagrangian.ofProblem prepared.problem solution.duals).gradient prepared.problem.start
      (Vec.zeros prepared.problem.slackDimension) = .ok [1] ∧
    solution.trajectory.iterates[1]? = some iterate ∧
    (Lagrangian.ofProblem prepared.problem solution.duals).value iterate.x iterate.slack ≠
      .ok iterate.objective := by
  obtain ⟨notices, hsetup⟩ := OneStep.setup_definition (some 0.49) (by norm_num)
  obtain ⟨report, solution, s, hsolve, hsolution, -, hduals, hiterates, -⟩ :=
    OneStep.solve_eq (some 0.49) OneStep.absorb_reached
  refine ⟨_, report, solution, (OneStep.second 0 s).iterate, hsetup, hsolve, hsolution, ?_, ?_, ?_⟩
  · rw [hduals, OneStep.zeros_slackDimension, OneStep.start_problem]
    exact OneStep.gradient_first (some 0.49)
  · rw [hiterates]
    rfl
  · rw [hduals]
    intro hvalue
    have := Except.ok.inj ((OneStep.value_eq (some 0.49) 0 (OneStep.reached - 1)).symm.trans hvalue)
    simp only [OneStep.second, Position.iterate] at this
    have hpos := OneStep.reached_pos
    nlinarith

/-- The objective of the step that absorbs is that of the point before. -/
theorem recorded_values_of_solve_absorbed : ∃ (prepared : Prepared ℝ) (report : RunReport ℝ Unit)
    (solution : Solution ℝ) (d : Dynamics ℝ) (iterate : Iterate ℝ) (x : Vec ℝ),
    setup Unit OneStep.definition ⟨OneStep.draft (some 0.49)⟩ = .ok prepared ∧
    solve Unit prepared.problem ⟨OneStep.draft (some 0.49)⟩ .silent () = .ok report ∧
    report.outcome = .ok solution ∧
    Dynamics.ofProblem prepared.problem ⟨OneStep.draft (some 0.49)⟩ solution.duals = .ok d ∧
    solution.trajectory.iterates[1]? = some iterate ∧ iterate.x = [0] ∧ x ≠ iterate.x ∧
    d.TakenAt 1 iterate x ∧ d.lagrangian.value x iterate.slack = .ok iterate.objective := by
  obtain ⟨notices, hsetup⟩ := OneStep.setup_definition (some 0.49) (by norm_num)
  obtain ⟨report, solution, s, hsolve, hsolution, hiterations, hduals, hiterates, -⟩ :=
    OneStep.solve_eq (some 0.49) OneStep.absorb_reached
  obtain ⟨d, hd, htaken, -⟩ := recorded_values_of_solve hsolve hsolution
  obtain ⟨iterate, x, hget, htaken, hvalue, -⟩ := htaken 1 hiterations.ge
  have hiterate : iterate = (OneStep.second 0 s).iterate := by
    rw [hiterates] at hget
    exact (Option.some.inj hget).symm
  have hdynamics : d = OneStep.dynamics (some 0.49) := by
    rw [hduals, OneStep.ofProblem_eq] at hd
    exact (Except.ok.inj hd).symm
  have hx : x = [OneStep.reached] := by
    have hactivate := htaken.activate one_ne_zero
    rw [hiterate, hdynamics, OneStep.second_eq] at hactivate
    exact Except.ok.inj (hactivate.symm.trans (OneStep.activate_step (some 0.49)))
  refine ⟨_, report, solution, d, iterate, x, hsetup, hsolve, hsolution, hd, hget, ?_, ?_, htaken,
    hvalue⟩
  · rw [hiterate]
    rfl
  · rw [hiterate, hx]
    simpa [OneStep.second, Position.iterate] using OneStep.reached_pos.ne'

end HopfieldDescent

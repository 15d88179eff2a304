import Mathlib
import HopfieldDescent.Proofs.Direction.Absorbed
import HopfieldDescent.Proofs.Run.Consistency

/-!
# Absorbed coordinates stay absorbed

With absorption, every coordinate after a step lies on a bound or keeps clear of both.  Absorption
sets the point onto the bound and leaves the hidden state alone, so that nothing in it alone would
keep a coordinate where it is.  A binary one stays because the mask stops its hidden state: the next
point is squashed from the same hidden coordinate, lies on the same side of the midpoint and is
absorbed by the same bound again.  By induction this goes on to the end of the run
(`Dynamics.Path.exists_absorbed`).
-/

namespace HopfieldDescent

namespace Vec

/-- In a strict pairing of four vectors an entry of the first decides the entry of the result. -/
lemma getElem?_zipExact4_congr {α β γ δ ε : Type} {f : α → β → γ → δ → ε} {t t' : List α}
    {u : List β} {v : List γ} {w : List δ} {z z' : List ε} (h : zipExact4 f t u v w = .ok z)
    (h' : zipExact4 f t' u v w = .ok z') {i : ℕ} (hi : t'[i]? = t[i]?) : z'[i]? = z[i]? := by
  obtain ⟨-, -, -, rfl⟩ := zipExact4_eq_ok.1 h
  obtain ⟨-, -, -, rfl⟩ := zipExact4_eq_ok.1 h'
  rw [List.getElem?_zipWith, List.getElem?_zipWith, hi]

end Vec

/-- Every coordinate lies exactly on one of its bounds, or keeps a distance from both. -/
def Problem.KeepsClear (problem : Problem ℝ) (distance : ℝ) (x : Vec ℝ) : Prop :=
  x.length = problem.dimension ∧ ∀ (i : ℕ) a, x[i]? = some a →
    ∃ l u, problem.lower[i]? = some l ∧ problem.upper[i]? = some u ∧
      (a = l ∨ a = u ∨ (distance ≤ a - l ∧ distance ≤ u - a))

namespace Dynamics

variable {d : Dynamics ℝ} {distance : ℝ}

/-- An absorbed value is a bound, or lies clear of both. -/
lemma absorbed_eq_or (distance x l u m : ℝ) : absorbed distance x l u m = l ∨
    absorbed distance x l u m = u ∨ (distance ≤ absorbed distance x l u m - l ∧
      distance ≤ u - absorbed distance x l u m) := by
  unfold absorbed
  split_ifs with hnear hside
  · exact .inl rfl
  · exact .inr (.inl rfl)
  · rw [Scalar.minNum_real, min_lt_iff, not_or, not_lt, not_lt] at hnear
    exact .inr (.inr hnear)

/-- An absorbed point keeps clear of the bounds where it does not touch them. -/
lemma keepsClear_of_absorb (habsorption : d.config.absorption = some distance) {x y : Vec ℝ}
    (h : d.absorb x = .ok y) : d.problem.KeepsClear distance y := by
  simp only [absorb, habsorption] at h
  obtain ⟨hx, hupper, hmidpoint, -⟩ := Vec.zipExact4_eq_ok.1 h
  have hlength := Vec.length_of_zipExact4 h
  refine ⟨hlength.trans hx, fun i a ha => ?_⟩
  obtain ⟨hi, -⟩ := List.getElem?_eq_some_iff.1 ha
  have hil : i < d.problem.lower.length := by omega
  have hiu : i < d.problem.upper.length := by omega
  have hentry := Vec.getElem?_of_zipExact4 h (List.getElem?_eq_getElem (hlength ▸ hi))
    (List.getElem?_eq_getElem hil) (List.getElem?_eq_getElem hiu)
    (List.getElem?_eq_getElem (by omega))
  obtain rfl := Option.some.inj (ha.symm.trans hentry)
  exact ⟨_, _, List.getElem?_eq_getElem hil, List.getElem?_eq_getElem hiu, absorbed_eq_or ..⟩

/-- After a step, the hidden coordinate decides the recorded one. -/
lemma TakenAt.getElem?_x_eq (habsorption : d.config.absorption = some distance) {k k' : ℕ}
    {iterate iterate' : Iterate ℝ} {x x' : Vec ℝ} (h : d.TakenAt k iterate x)
    (h' : d.TakenAt k' iterate' x') (hk : k ≠ 0) (hk' : k' ≠ 0) {i : ℕ}
    (hi : iterate'.hidden[i]? = iterate.hidden[i]?) : iterate'.x[i]? = iterate.x[i]? := by
  have hsquashed := Vec.getElem?_zipExact4_congr (h.activate hk) (h'.activate hk') hi
  have habsorb := h.absorb hk
  have habsorb' := h'.absorb hk'
  simp only [Dynamics.absorb, habsorption] at habsorb habsorb'
  exact Vec.getElem?_zipExact4_congr habsorb habsorb' hsquashed

variable {G : Type} [RandomSource G ℝ]

/-- A move leaves the hidden state of an absorbed coordinate alone. -/
lemma getElem?_hidden_of_move {n : ℕ} {p q : Position ℝ G} {step : ℝ} {i : ℕ}
    (habsorption : d.config.absorption = some distance) (hi : d.problem.IsAbsorbed p.x i)
    (h : d.move n p = .ok (.ok (step, q))) : q.hidden[i]? = p.hidden[i]? := by
  obtain ⟨direction, source, c, hfind, hstep, -, -, -, hhidden, -⟩ := move_eq_ok h
  obtain ⟨hshift, -⟩ := candidate_eq_ok.1 (candidate_of_chosenStep hstep)
  have habsorbs : d.config.absorbs = true := by
    rw [Config.absorbs, habsorption]
    rfl
  rw [hhidden]
  exact Vec.getElem?_of_shiftScaled hshift (Direction.partner_of_find habsorbs hi hfind)

/-- Between two iterates after the first step, an absorbed coordinate has not moved, nor has its
hidden state. -/
theorem Path.exists_absorbed {first last : Position ℝ G} {n : ℕ} {iterates : Array (Iterate ℝ)}
    {steps : Array ℝ} {source : G} (path : d.Path first n last iterates steps)
    (hstart : d.start source = .ok (.ok first))
    (habsorption : d.config.absorption = some distance) {k j : ℕ} (hk : 1 ≤ k) (hkj : k ≤ j)
    (hj : j ≤ n) :
    ∃ iterate iterate', iterates[k]? = some iterate ∧ iterates[j]? = some iterate' ∧
      ∀ i, d.problem.IsAbsorbed iterate.x i →
        iterate'.x[i]? = iterate.x[i]? ∧ iterate'.hidden[i]? = iterate.hidden[i]? := by
  induction j, hkj using Nat.le_induction with
  | base =>
    obtain ⟨p, -, -, -, hget⟩ := path.exists_position hj
    exact ⟨p.iterate, p.iterate, hget, hget, fun i _ => ⟨rfl, rfl⟩⟩
  | succ j hkj ih =>
    obtain ⟨iterate, _, hget, hget', hsame⟩ := ih (by omega)
    obtain ⟨p, q, step, iterates', steps', path', unsettled, moved, hp, hq, -⟩ :=
      path.exists_move (k := j) (by omega)
    obtain rfl := Option.some.inj (hp.symm.trans hget')
    obtain ⟨_, _, htaken, -⟩ := path'.exists_takenAt hstart
    obtain ⟨_, _, htaken', -⟩ := (path'.move unsettled moved).exists_takenAt hstart
    refine ⟨iterate, q.iterate, hget, hq, fun i hi => ?_⟩
    obtain ⟨hx, hhidden⟩ := hsame i hi
    -- the coordinate still sits on its bound, so that the mask stops it in this move as well
    have habsorbed : d.problem.IsAbsorbed p.x i := ⟨hi.1, by
      rw [show p.x[i]? = iterate.x[i]? from hx]
      exact hi.2⟩
    have hmoved : q.iterate.hidden[i]? = p.iterate.hidden[i]? :=
      getElem?_hidden_of_move habsorption habsorbed moved
    exact ⟨(htaken.getElem?_x_eq habsorption htaken' (by omega) (by omega) hmoved).trans hx,
      hmoved.trans hhidden⟩

end Dynamics

section Runs

variable {G σ : Type} [RandomSource G ℝ] {problem : Problem ℝ} {config : Config ℝ}
  {observer : Observer σ (Event ℝ) Action} {w : σ} {report : RunReport ℝ σ}
  {solution : Solution ℝ} {distance : ℝ}

/-- What absorption guarantees of a whole run, under every rule and activation, for every random
source and observer.  After the first step each coordinate lies exactly on a bound or keeps the
absorption distance from both; and from the first iterate on at which a binary coordinate lies on a
bound, neither it nor its hidden state moves any more. -/
theorem absorption_of_solve (habsorption : config.absorption = some distance)
    (hsolve : solve G problem config observer w = .ok report)
    (hsolution : report.outcome = .ok solution) :
    (∀ k, 1 ≤ k → k ≤ solution.iterations → ∃ iterate,
      solution.trajectory.iterates[k]? = some iterate ∧
        problem.KeepsClear distance iterate.x) ∧
    ∀ k j, 1 ≤ k → k ≤ j → j ≤ solution.iterations → ∃ iterate iterate',
      solution.trajectory.iterates[k]? = some iterate ∧
      solution.trajectory.iterates[j]? = some iterate' ∧
      ∀ i, problem.IsAbsorbed iterate.x i →
        iterate'.x[i]? = iterate.x[i]? ∧ iterate'.hidden[i]? = iterate.hidden[i]? := by
  obtain ⟨history⟩ := solve_history hsolve hsolution
  obtain ⟨_, -, hd⟩ := Dynamics.ofProblem_eq_ok.1 history.dynamics_eq
  have hproblem : history.dynamics.problem = problem := by rw [hd]
  have hconfig : history.dynamics.config.absorption = some distance := by rw [hd, habsorption]
  rw [← hproblem]
  refine ⟨fun k hk hle => ?_, fun k j hk hkj hj =>
    history.path.exists_absorbed history.start_eq hconfig hk hkj hj⟩
  obtain ⟨p, iterates, steps, path, hget⟩ := history.path.exists_position hle
  obtain ⟨_, _, htaken, -⟩ := path.exists_takenAt history.start_eq
  exact ⟨p.iterate, hget, Dynamics.keepsClear_of_absorb hconfig (htaken.absorb (by omega))⟩

end Runs

/-! ## A run of two steps -/

namespace TwoSteps

/-- A slope over the unit square, steeper along the first coordinate, which is binary. -/
noncomputable def problem : Problem ℝ where
  objective := Landscape.linear [4.0, 3.0]
  lower := [0, 0]
  upper := [1, 1]
  midpoint := [0.5, 0.5]
  binary := [true, false]
  equalities := none
  inequalities := none
  equalityPenalty := 0
  inequalityPenalty := 0
  smoothness := 50.0
  start := [0.5, 0.5]
  gain := [1, 1]
  equalityDual := none
  inequalityDual := none

/-- Room for two steps of plain descent with backtracking, and absorption over most of each half
of an interval. -/
noncomputable def config : Config ℝ where
  toSettings :=
    { Settings.standard with
      activation := .piecewiseLinear
      direction := .classic
      step := .armijo
      absorption := some 0.43
      maxIterations := 3 }

/-- The dynamics of the run. -/
noncomputable def dynamics : Dynamics ℝ where
  problem := problem
  config := config
  lagrangian := .ofProblem problem ⟨none, none⟩
  map := problem.boxMap .piecewiseLinear
  smoothness := 50.0

/-- The start in the centre. -/
noncomputable def first : Position ℝ Unit :=
  ⟨[0.5, 0.5], [0.5, 0.5], [], 3.5, [4.0, 3.0], 5.0, ()⟩

/-- After one step the binary coordinate is absorbed, and its hidden state is not. -/
noncomputable def second : Position ℝ Unit :=
  ⟨[0, 0.44], [0.42, 0.44], [], 3.0, [4.0, 3.0], 3.0, ()⟩

/-- After two steps both coordinates are absorbed, and only the second one has moved. -/
noncomputable def third : Position ℝ Unit :=
  ⟨[0, 0], [0.42, 0.34], [], 2.7, [4.0, 3.0], 0, ()⟩

lemma first_eq : first = ⟨[0.5, 0.5], [0.5, 0.5], [], 3.5, [4, 3], 5, ()⟩ := by
  norm_num [first]

lemma second_eq : second = ⟨[0, 0.44], [0.42, 0.44], [], 3, [4, 3], 3, ()⟩ := by
  norm_num [second]

lemma value_eq (x y : ℝ) : dynamics.lagrangian.value [x, y] [] = .ok (4 * x + 3 * y) := by
  simp [Lagrangian.value, dynamics, Lagrangian.ofProblem, problem, Landscape.linear,
    Objective.ofFunctions, Lagrangian.penalized, Vec.inner, Vec.sum]
  norm_num

lemma gradient_eq (x : Vec ℝ) : dynamics.lagrangian.gradient x [] = .ok [4, 3] := by
  change Except.ok [4.0, 3.0] = _
  norm_num

lemma activate_eq {x y : ℝ} (hx : x ∈ Set.Icc 0 1) (hy : y ∈ Set.Icc 0 1) :
    dynamics.map.activate [x, y] = .ok [x, y] := by
  simp [BoxMap.activate, Problem.boxMap, dynamics, problem, Vec.zipExact4, Vec.zipExact3,
    Vec.zipExact, Breach.sameLength, Outcome.ok_bind, BoxMap.lifted, BoxMap.normalized,
    Activation.squashing, PiecewiseLinear.activate, Scalar.clamp_of_mem_Icc hx,
    Scalar.clamp_of_mem_Icc hy]

lemma proxyDistance_eq (x y : ℝ) : dynamics.map.proxyDistance [x, y] =
    .ok [if 0 < x ∧ x < 1 then 1 else 0, if 0 < y ∧ y < 1 then 1 else 0] := by
  simp [BoxMap.proxyDistance, Problem.boxMap, dynamics, problem, Vec.zipExact4, Vec.zipExact3,
    Vec.zipExact, Breach.sameLength, Outcome.ok_bind, BoxMap.normalized, Activation.squashing,
    PiecewiseLinear.proxy]

lemma ofProblem_eq : Dynamics.ofProblem problem config ⟨none, none⟩ = .ok dynamics := by
  simp [Dynamics.ofProblem, Problem.effectiveSmoothness, Problem.blockSmoothness, problem,
    Outcome.ok_bind, dynamics, config]

/-- The slope has the length five, and three along the second coordinate alone. -/
lemma norm_slope : Vec.norm [(4 : ℝ), 3] = 5 ∧ Vec.norm [(0 : ℝ), 3] = 3 ∧
    Vec.norm [(-4 : ℝ), -3] = 5 ∧ Vec.norm [(0 : ℝ), -3] = 3 := by
  have h (a b : ℝ) : Vec.norm [a, b] = Real.sqrt (a * a + b * b) := by
    simp [Vec.norm, Vec.inner, Vec.sum]
  have h₅ : Real.sqrt 25 = 5 := by
    rw [show (25 : ℝ) = 5 ^ 2 by norm_num, Real.sqrt_sq (by norm_num)]
  have h₃ : Real.sqrt 9 = 3 := by
    rw [show (9 : ℝ) = 3 ^ 2 by norm_num, Real.sqrt_sq (by norm_num)]
  simp only [h]
  norm_num [h₅, h₃]

lemma start_eq (g : Unit) : dynamics.start g = .ok (.ok first) := by
  have hstart : dynamics.problem.start = [1 / 2, 1 / 2] := by simp [dynamics, problem]
  have hinverse : dynamics.map.inverse [1 / 2, 1 / 2] = .ok [1 / 2, 1 / 2] := by
    simp [BoxMap.inverse, Problem.boxMap, dynamics, problem, Vec.zipExact4, Vec.zipExact3,
      Vec.zipExact, Breach.sameLength, Outcome.ok_bind, BoxMap.lifted, BoxMap.normalized,
      Activation.squashing, PiecewiseLinear.inverse]
    norm_num
  have hzeros : Vec.zeros dynamics.problem.slackDimension = ([] : Vec ℝ) := rfl
  have hstationarity : dynamics.stationarity [1 / 2, 1 / 2] [4, 3] = .ok 5 := by
    simp only [Dynamics.stationarity, proxyDistance_eq, Outcome.ok_bind]
    norm_num [Vec.mul, Vec.zipSpread, norm_slope, Outcome.ok_bind]
  have hfinite : Dynamics.isFinite (4 * (1 / 2) + 3 * (1 / 2) : ℝ) [4, 3] = true := by
    simp [Dynamics.isFinite, Vec.isFinite]
  have hzero : Vec.isZero [(4 : ℝ), 3] = false := by simp [Vec.isZero]
  simp only [Dynamics.start, hstart, hinverse, hzeros, value_eq, gradient_eq, Outcome.ok_bind,
    hfinite, hzero, Bool.not_true, Bool.false_eq_true, if_false, hstationarity]
  norm_num [first, Outcome.pure_eq_ok]

/-- The direction is down the slope, along the coordinates that are not absorbed. -/
lemma find_eq (x y : ℝ) (g : Unit) :
    Direction.find dynamics.problem dynamics.map dynamics.config [x, y] [4, 3] g =
      .ok (Vec.normalize [-4 * (if x = 0 ∨ x = 1 then 0 else 1), -3], ()) := by
  have hrule : dynamics.config.direction = .classic := rfl
  have habsorbs : dynamics.config.absorbs = true := rfl
  have hmask : Direction.absorptionMask dynamics.problem [x, y] =
      .ok [if x = 0 ∨ x = 1 then 0 else 1, 1] := by
    simp [Direction.absorptionMask, dynamics, problem, Vec.zipExact4, Vec.zipExact3,
      Vec.zipExact, Breach.sameLength, Outcome.ok_bind]
  simp only [Direction.find, habsorbs, hrule, hmask, Outcome.ok_bind, if_true]
  simp [Direction.descent, Vec.neg, Vec.mul, Vec.zipSpread, Outcome.ok_bind]

/-- A step of a tenth is the first guess, and it is taken where it decreases the slope enough. -/
lemma chosenStep_eq {n : ℕ} {x : Vec ℝ} {v w a b proxy proxy' objective stationarity : ℝ}
    (hproxy : dynamics.map.proxyDistance x = .ok [proxy, proxy'])
    (hv : v + 0.1 * a ∈ Set.Icc 0 1) (hw : w + 0.1 * b ∈ Set.Icc 0 1)
    (haccepted : 4 * (v + 0.1 * a) + 3 * (w + 0.1 * b) ≤
      objective + 0.5 * 0.1 * (proxy * 4 * a + proxy' * 3 * b)) :
    dynamics.chosenStep n ⟨x, [v, w], [], objective, [4, 3], stationarity, ()⟩ [a, b] =
      .ok (0.1, ⟨[v + 0.1 * a, w + 0.1 * b], [v + 0.1 * a, w + 0.1 * b], [],
        4 * (v + 0.1 * a) + 3 * (w + 0.1 * b)⟩) := by
  have hcandidate : dynamics.candidate [v, w] [] [a, b] 0.1 =
      .ok ⟨[v + 0.1 * a, w + 0.1 * b], [v + 0.1 * a, w + 0.1 * b], [],
        4 * (v + 0.1 * a) + 3 * (w + 0.1 * b)⟩ :=
    Dynamics.candidate_eq_ok.2 ⟨rfl, activate_eq hv hw, rfl, value_eq _ _⟩
  have hweighted : Vec.mul [proxy, proxy'] [4, 3] = .ok [proxy * 4, proxy' * 3] := rfl
  have hslope : Vec.dot [proxy * 4, proxy' * 3] [a, b] =
      .ok (proxy * 4 * a + proxy' * 3 * b) := by
    simp [Vec.dot, Breach.sameLength, Vec.inner, Vec.sum]
  have hguess : Vec.norm [(4 : ℝ), 3] / dynamics.smoothness = 0.1 := by
    norm_num [norm_slope, dynamics]
  have hrule : dynamics.config.step = .armijo := rfl
  simp only [Dynamics.chosenStep, hproxy, hrule, hweighted, hslope, hguess, Outcome.ok_bind]
  refine StepLength.backtrack_of_accepts ?_ (decide_eq_true haccepted)
  rw [hcandidate]
  rfl

/-- Near a bound a point is set onto it. -/
lemma absorb_eq (x y : ℝ) : dynamics.absorb [x, y] = .ok
    [Dynamics.absorbed 0.43 x 0 1 0.5, Dynamics.absorbed 0.43 y 0 1 0.5] := by
  simp [Dynamics.absorb, dynamics, config, problem, Vec.zipExact4, Vec.zipExact3, Vec.zipExact,
    Breach.sameLength, Outcome.ok_bind]

/-- The second coordinate alone keeps a proxy distance once the first one is absorbed. -/
lemma stationarity_eq (y : ℝ) : dynamics.stationarity [0, y] [4, 3] =
    .ok (Vec.norm [0, (if 0 < y ∧ y < 1 then 1 else 0) * 3]) := by
  simp only [Dynamics.stationarity, proxyDistance_eq, Outcome.ok_bind, lt_irrefl, false_and,
    if_false]
  simp [Vec.mul, Vec.zipSpread]

/-- What a move does, put together from its parts. -/
lemma move_eq {n : ℕ} {p : Position ℝ Unit} {direction : Vec ℝ} {v w y stationarity : ℝ}
    (hgradient : p.gradient = [4, 3])
    (hfind : Direction.find dynamics.problem dynamics.map dynamics.config p.x [4, 3] p.source =
      .ok (direction, ()))
    (hstep : dynamics.chosenStep n p direction = .ok (0.1, ⟨[v, w], [v, w], [], 4 * v + 3 * w⟩))
    (habsorb : dynamics.absorb [v, w] = .ok [0, y])
    (hstationarity : dynamics.stationarity [0, y] [4, 3] = .ok stationarity) :
    dynamics.move n p = .ok (.ok (0.1,
      ⟨[0, y], [v, w], [], 4 * v + 3 * w, [4, 3], stationarity, ()⟩)) := by
  have hfinite : Dynamics.isFinite (4 * v + 3 * w) [(4 : ℝ), 3] = true := by
    simp [Dynamics.isFinite, Vec.isFinite]
  simp only [Dynamics.move, hgradient, hfind, hstep, gradient_eq, hfinite, habsorb, hstationarity,
    Outcome.ok_bind, Bool.not_true, Bool.false_eq_true, if_false]
  rfl

/-- The first step goes down the slope, and the binary coordinate comes near its lower bound. -/
lemma move_first : dynamics.move 0 first = .ok (.ok (0.1, second)) := by
  have hfind : Direction.find dynamics.problem dynamics.map dynamics.config first.x [4, 3]
      first.source = .ok ([-0.8, -0.6], ()) := by
    refine (find_eq 0.5 0.5 ()).trans ?_
    norm_num [Vec.normalize, norm_slope]
  have hstep : dynamics.chosenStep 0 first [-0.8, -0.6] =
      .ok (0.1, ⟨[0.42, 0.44], [0.42, 0.44], [], 4 * 0.42 + 3 * 0.44⟩) := by
    rw [first_eq]
    refine (chosenStep_eq (proxyDistance_eq 0.5 0.5) ?_ ?_ ?_).trans ?_ <;> norm_num
  have habsorb : dynamics.absorb [0.42, 0.44] = .ok [0, 0.44] := by
    rw [absorb_eq]
    norm_num [Dynamics.absorbed]
  have hstationarity : dynamics.stationarity [0, 0.44] [4, 3] = .ok 3 := by
    rw [stationarity_eq]
    norm_num [norm_slope]
  have hgradient : first.gradient = [4, 3] := by rw [first_eq]
  rw [move_eq hgradient hfind hstep habsorb hstationarity]
  norm_num [second]

/-- The second step goes along the other coordinate alone. -/
lemma move_second : dynamics.move 1 second = .ok (.ok (0.1, third)) := by
  have hfind : Direction.find dynamics.problem dynamics.map dynamics.config second.x [4, 3]
      second.source = .ok ([0, -1], ()) := by
    refine (find_eq 0 0.44 ()).trans ?_
    norm_num [Vec.normalize, norm_slope]
  have hstep : dynamics.chosenStep 1 second [0, -1] =
      .ok (0.1, ⟨[0.42, 0.34], [0.42, 0.34], [], 4 * 0.42 + 3 * 0.34⟩) := by
    rw [second_eq]
    refine (chosenStep_eq (proxyDistance_eq 0 0.44) ?_ ?_ ?_).trans ?_ <;> norm_num
  have habsorb : dynamics.absorb [0.42, 0.34] = .ok [0, 0] := by
    rw [absorb_eq]
    norm_num [Dynamics.absorbed]
  have hstationarity : dynamics.stationarity [0, 0] [4, 3] = .ok 0 := by
    rw [stationarity_eq]
    simp [Vec.norm, Vec.inner, Vec.sum]
  have hgradient : second.gradient = [4, 3] := by rw [second_eq]
  rw [move_eq hgradient hfind hstep habsorb hstationarity]
  norm_num [third]

/-- The run makes two steps. -/
lemma solve_eq : ∃ (report : RunReport ℝ Unit) (solution : Solution ℝ),
    solve Unit problem config .silent () = .ok report ∧ report.outcome = .ok solution ∧
      solution.iterations = 2 ∧
      solution.trajectory.iterates = #[first.iterate, second.iterate, third.iterate] := by
  have hprecision : dynamics.config.precision = 1e-6 := rfl
  have hunsettled : ¬first.stationarity < dynamics.config.precision ∧
      ¬second.stationarity < dynamics.config.precision := by
    norm_num [hprecision, first, second]
  have path : dynamics.Path first 2 third #[first.iterate, second.iterate, third.iterate]
      #[0.1, 0.1] :=
    .move (.move .start hunsettled.1 move_first) hunsettled.2 move_second
  have hfits : ∀ iterate ∈ #[first.iterate, second.iterate, third.iterate],
      iterate.Fits problem := by
    intro iterate hmem
    obtain rfl | rfl | rfl : iterate = first.iterate ∨ iterate = second.iterate ∨
        iterate = third.iterate := by simpa using hmem
    all_goals exact ⟨rfl, rfl, rfl⟩
  obtain ⟨report, solution, hsolve, hsolution, hiterations, -, hiterates, -⟩ :=
    path.exists_solve rfl ofProblem_eq (start_eq ()) Observer.neverAnswers_silent rfl hfits ()
  exact ⟨report, solution, hsolve, hsolution, hiterations, hiterates⟩

end TwoSteps

/-- In the run of two steps the binary coordinate is absorbed by the first one, and does not move
in the second. -/
theorem absorption_of_solve_twoSteps : ∃ (report : RunReport ℝ Unit) (solution : Solution ℝ)
    (iterate iterate' : Iterate ℝ),
    TwoSteps.config.absorption = some 0.43 ∧
    solve Unit TwoSteps.problem TwoSteps.config .silent () = .ok report ∧
    report.outcome = .ok solution ∧ solution.iterations = 2 ∧
    (∀ k, 1 ≤ k → k ≤ 2 → ∃ iterate, solution.trajectory.iterates[k]? = some iterate ∧
      TwoSteps.problem.KeepsClear 0.43 iterate.x) ∧
    solution.trajectory.iterates[1]? = some iterate ∧
    solution.trajectory.iterates[2]? = some iterate' ∧
    TwoSteps.problem.IsAbsorbed iterate.x 0 ∧
    iterate'.x[0]? = iterate.x[0]? ∧ iterate'.hidden[0]? = iterate.hidden[0]? := by
  obtain ⟨report, solution, hsolve, hsolution, hiterations, hiterates⟩ := TwoSteps.solve_eq
  have habsorption : TwoSteps.config.absorption = some 0.43 := rfl
  obtain ⟨hclear, hfrozen⟩ := absorption_of_solve habsorption hsolve hsolution
  rw [hiterations] at hclear hfrozen
  obtain ⟨iterate, iterate', hget, hget', hsame⟩ := hfrozen 1 2 le_rfl one_le_two le_rfl
  have hsecond : TwoSteps.second.iterate = iterate := by
    rw [hiterates] at hget
    exact Option.some.inj hget
  have habsorbed : TwoSteps.problem.IsAbsorbed iterate.x 0 := by
    rw [← hsecond]
    exact ⟨rfl, .inl rfl⟩
  exact ⟨report, solution, iterate, iterate', habsorption, hsolve, hsolution, hiterations, hclear,
    hget, hget', habsorbed, hsame 0 habsorbed⟩

end HopfieldDescent

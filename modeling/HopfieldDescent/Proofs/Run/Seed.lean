import Mathlib
import HopfieldDescent.Proofs.Run.Feasibility

/-!
# Where the seed matters

Random numbers are drawn in four places: to sample a smoothness coefficient that nobody knows, in
place of a gradient that vanishes, at the point from which the start ascent sets out and again at
the start point, and by the stochastic rule for directions.  Away from these places the random
source is handed on untouched, so that neither the seed nor the source has any influence.

A part that draws nothing is described by one equation: with another source it gives the same
result, next to that other source (`Direction.find_reseeded`, `Dynamics.start_reseeded`,
`Dynamics.move_reseeded`).  The loop repeats the equation of its move
(`Dynamics.iterate_reseeded`), and whole runs with different sources are then equal.
-/

namespace HopfieldDescent

variable {R G G' σ : Type} [Scalar R]

omit [Scalar R] in
/-- The same configuration with another seed. -/
def Config.reseeded (config : Config R) (seed : UInt64) : Config R :=
  ⟨{ config.toSettings with seed }⟩

/-! ## Setting up -/

section Setup

variable [RandomSource G R] [RandomSource G' R] {definition : Definition R} {config : Config R}

/-- A smoothness coefficient that is known is found without random numbers. -/
lemma Definition.findSmoothness_of_known
    (hknown : definition.smoothness ≠ none ∨ definition.objective.smoothness ≠ .ok none)
    (source : G) (source' : G') : definition.findSmoothness source' =
      (fun found => (found.1, found.2.1, source')) <$> definition.findSmoothness source := by
  unfold findSmoothness
  cases hsupplied : definition.smoothness with
  | some value => rfl
  | none =>
    rcases hgiven : definition.objective.smoothness with breach | _ | value
    · rfl
    · simp [hsupplied, hgiven] at hknown
    · rfl

/-- The start point is found without random numbers if the gradient does not vanish where the
ascent sets out. -/
lemma StartPoint.compute_reseeded {objective : Objective R} {lower upper : Vec R}
    {given : Option (Vec R)}
    (hgradient : ∀ x gradient, seedPoint lower upper given = .ok x →
      objective.gradient x = .ok gradient → Vec.isZero gradient = false)
    (config : Config R) (binary : List Bool) (smoothness : R) (seed : UInt64) (source : G)
    (source' : G') :
    compute (config.reseeded seed) objective lower upper binary smoothness given source' =
      (fun found => (found.1, source')) <$>
        compute config objective lower upper binary smoothness given source := by
  unfold compute
  have hstop : (config.reseeded seed).effectiveAscentStop = config.effectiveAscentStop := rfl
  have hrule : (config.reseeded seed).startAscent = config.startAscent := rfl
  cases hx : seedPoint lower upper given with
  | error breach => rfl
  | ok x =>
    cases hg : objective.gradient x with
    | error breach => simp only [Outcome.ok_bind, hg]; rfl
    | ok gradient =>
      simp only [Outcome.ok_bind, hg, hgradient x gradient hx hg, hstop, hrule, map_bind, map_pure,
        Bool.false_eq_true, if_false]

/-- With a known smoothness coefficient and a gradient that does not vanish, a definition becomes
the same problem, or is refused for the same cause, whatever the seed and the source. -/
theorem setup_reseeded
    (hknown : definition.smoothness ≠ none ∨ definition.objective.smoothness ≠ .ok none)
    (hgradient : ∀ x gradient,
      StartPoint.seedPoint definition.lower definition.upper definition.start = .ok x →
      definition.objective.gradient x = .ok gradient → Vec.isZero gradient = false)
    (seed : UInt64) : setup G' definition (config.reseeded seed) = setup G definition config := by
  have hseed : (config.reseeded seed).seed = seed := rfl
  have hgains : (config.reseeded seed).coordinateGains = config.coordinateGains := rfl
  have hfind := definition.findSmoothness_of_known hknown (RandomSource.ofSeed config.seed : G)
    (RandomSource.ofSeed seed : G')
  unfold setup
  simp only [hseed, hgains, hfind]
  cases definition.frame with
  | error cause => rfl
  | ok frame =>
    rcases definition.findSmoothness (RandomSource.ofSeed config.seed : G) with
      breach | ⟨smoothness, notices, source⟩
    · rfl
    · have hcompute := StartPoint.compute_reseeded hgradient config frame.binary smoothness
        seed source (RandomSource.ofSeed seed : G')
      simp only [Outcome.ofExcept_ok, Outcome.liftM_ok, Outcome.ok_bind, Outcome.ok_map, hcompute]
      cases StartPoint.compute config definition.objective definition.lower definition.upper
        frame.binary smoothness definition.start source <;> rfl

end Setup

/-! ## Running -/

/-- The same position with another random source. -/
def Position.withSource (p : Position R G) (source : G') : Position R G' := { p with source }

/-- The same end of a run with another random source. -/
def RunEnd.withSource (e : RunEnd R G) (source : G') : RunEnd R G' :=
  { e with position := e.position.withSource source }

/-- The same dynamics with another seed. -/
def Dynamics.reseeded (d : Dynamics R) (seed : UInt64) : Dynamics R :=
  { d with config := d.config.reseeded seed }

section Runs

variable [RandomSource G R] [RandomSource G' R] {d : Dynamics R} {config : Config R}

/-- Only the stochastic rule draws random numbers for a direction. -/
lemma Direction.find_reseeded (hrule : config.direction ≠ .stochastic) (problem : Problem R)
    (map : BoxMap R) (x gradient : Vec R) (seed : UInt64) (source : G) (source' : G') :
    find problem map (config.reseeded seed) x gradient source' =
      (fun found => (found.1, source')) <$> find problem map config x gradient source := by
  unfold find
  have habsorbs : (config.reseeded seed).absorbs = config.absorbs := rfl
  have hdirection : (config.reseeded seed).direction = config.direction := rfl
  have hweights : (config.reseeded seed).gamma = config.gamma ∧
      (config.reseeded seed).theta = config.theta := ⟨rfl, rfl⟩
  rw [habsorbs, hdirection, hweights.1, hweights.2]
  cases hcase : config.direction with
  | stochastic => exact absurd hcase hrule
  | classic | binary | softBinary =>
    split_ifs
    · simp only [map_bind, map_pure]
    · simp only [map_bind, map_pure]

namespace Dynamics

/-- A start whose gradient does not vanish draws no random numbers. -/
lemma start_reseeded
    (hgradient : ∀ gradient, d.lagrangian.gradient d.problem.start
      (Vec.zeros d.problem.slackDimension) = .ok gradient → Vec.isZero gradient = false)
    (seed : UInt64) (source : G) (source' : G') : (d.reseeded seed).start source' =
      (fun first => (fun p => p.withSource source') <$> first) <$> d.start source := by
  have hsame : (d.reseeded seed).stationarity = d.stationarity := rfl
  unfold start
  simp only [hsame, map_bind]
  refine bind_congr fun hidden => bind_congr fun objective => ?_
  cases hg : d.lagrangian.gradient d.problem.start (Vec.zeros d.problem.slackDimension) with
  | error breach => simp only [reseeded, hg]; rfl
  | ok gradient =>
    simp only [reseeded, hg, Outcome.ok_bind, hgradient gradient hg, Bool.false_eq_true, if_false]
    split_ifs
    · rfl
    · simp only [map_bind, map_pure]
      rfl

/-- A move under any other rule than the stochastic one draws no random numbers. -/
lemma move_reseeded (hrule : d.config.direction ≠ .stochastic) (seed : UInt64) (n : ℕ)
    (p : Position R G) (source' : G') : (d.reseeded seed).move n (p.withSource source') =
      (fun moved => (fun next => (next.1, next.2.withSource source')) <$> moved) <$>
        d.move n p := by
  have hfind : Direction.find (d.reseeded seed).problem (d.reseeded seed).map
      (d.reseeded seed).config (p.withSource source').x (p.withSource source').gradient
      (p.withSource source').source = (fun found => (found.1, source')) <$>
        Direction.find d.problem d.map d.config p.x p.gradient p.source :=
    Direction.find_reseeded hrule d.problem d.map p.x p.gradient seed p.source source'
  have hstep (direction : Vec R) : (d.reseeded seed).chosenStep n (p.withSource source')
      direction = d.chosenStep n p direction := rfl
  have hsame : (d.reseeded seed).absorb = d.absorb ∧
      (d.reseeded seed).stationarity = d.stationarity := ⟨rfl, rfl⟩
  unfold move
  simp only [hfind, hstep, hsame.1, hsame.2, map_bind, bind_map_left]
  refine bind_congr fun found => bind_congr fun chosen => bind_congr fun gradient => ?_
  split_ifs
  · rfl
  · simp only [map_bind, map_pure]
    rfl

/-- Without the stochastic rule the loop makes the same moves. -/
lemma iterate_reseeded (hrule : d.config.direction ≠ .stochastic) (seed : UInt64)
    (observer : Observer σ (Event R) Action) (remaining n : ℕ) (p : Position R G) (source' : G')
    (t : Trajectory R) (w : σ) :
    (d.reseeded seed).iterate observer remaining n (p.withSource source') t w =
      (fun ended => ((fun e => e.withSource source') <$> ended.1, ended.2)) <$>
        d.iterate observer remaining n p t w := by
  have hprecision : (d.reseeded seed).config.precision = d.config.precision := rfl
  have hstationarity (p : Position R G) :
      (p.withSource source').stationarity = p.stationarity := rfl
  induction remaining generalizing n p t w with
  | zero =>
    unfold iterate
    rw [hprecision, hstationarity]
    split_ifs
    · rfl
    · rfl
  | succ remaining ih =>
    unfold iterate
    rw [hprecision, hstationarity, move_reseeded hrule]
    by_cases hsettled : p.stationarity < d.config.precision
    · rw [if_pos hsettled, if_pos hsettled]
      rfl
    · rw [if_neg hsettled, if_neg hsettled]
      simp only [map_bind, bind_map_left]
      refine bind_congr fun moved => ?_
      rcases moved with failure | ⟨step, q⟩
      · rfl
      · simp only [Outcome.ok_map, map_bind]
        refine bind_congr fun recorded => bind_congr fun extended => ?_
        -- both observers hear of the same event
        have hevent : (q.withSource source').event (n + 1) step = q.event (n + 1) step := rfl
        simp only [Position.event] at hevent
        simp only [hevent]
        split
        · rfl
        · exact ih (n + 1) q extended _

/-- A run that is watched is the same but for the source. -/
lemma watch_reseeded (hrule : d.config.direction ≠ .stochastic) (seed : UInt64)
    (observer : Observer σ (Event R) Action) (estimate : DualEstimate R) (p : Position R G)
    (source' : G') (w : σ) :
    (d.reseeded seed).watch observer estimate (p.withSource source') w =
      (fun ended => ((fun e => e.withSource source') <$> ended.1, ended.2)) <$>
        d.watch observer estimate p w := by
  have hroom : (d.reseeded seed).config.maxIterations = d.config.maxIterations := rfl
  unfold watch
  simp only [hroom, map_bind]
  refine bind_congr fun t => ?_
  by_cases hconstrained : d.problem.isConstrained = true
  · have hconstrained' : (d.reseeded seed).problem.isConstrained = true := hconstrained
    rw [if_pos hconstrained, if_pos hconstrained']
    split
    · rfl
    · exact iterate_reseeded hrule seed observer _ 0 p source' t _
  · have hconstrained' : ¬(d.reseeded seed).problem.isConstrained = true := hconstrained
    rw [if_neg hconstrained, if_neg hconstrained']
    exact iterate_reseeded hrule seed observer _ 0 p source' t w

end Dynamics

/-- Where the gradient at the start point does not vanish and no rule draws random numbers, every
run is the same whatever the seed and the source. -/
theorem solve_reseeded {problem : Problem R} (hrule : config.direction ≠ .stochastic)
    (hgradient : ∀ estimate opening gradient,
      DualAscent.resolve problem config.dualAscent = .ok (estimate, opening) →
      (Lagrangian.ofProblem problem estimate.duals).gradient problem.start
        (Vec.zeros problem.slackDimension) = .ok gradient → Vec.isZero gradient = false)
    (seed : UInt64) (observer : Observer σ (Event R) Action) (w : σ) :
    solve G' problem (config.reseeded seed) observer w = solve G problem config observer w := by
  have hascent : (config.reseeded seed).dualAscent = config.dualAscent := rfl
  have hseed : (config.reseeded seed).seed = seed := rfl
  unfold solve
  simp only [hascent, hseed]
  rcases hresolve : DualAscent.resolve problem config.dualAscent with breach | ⟨estimate, opening⟩
  · rfl
  · have hd : Dynamics.ofProblem problem (config.reseeded seed) estimate.duals =
        (fun d => d.reseeded seed) <$> Dynamics.ofProblem problem config estimate.duals := by
      simp only [Dynamics.ofProblem, map_bind, map_pure]
      rfl
    simp only [Outcome.ok_bind, hd, bind_map_left]
    cases hdynamics : Dynamics.ofProblem problem config estimate.duals with
    | error breach => rfl
    | ok d =>
      obtain ⟨_, -, hparts⟩ := Dynamics.ofProblem_eq_ok.1 hdynamics
      have hgradient' : ∀ gradient, d.lagrangian.gradient d.problem.start
          (Vec.zeros d.problem.slackDimension) = .ok gradient → Vec.isZero gradient = false := by
        rw [hparts]
        intro gradient h
        exact hgradient estimate opening gradient hresolve h
      have hrule' : d.config.direction ≠ .stochastic := by
        rw [hparts]
        exact hrule
      simp only [Outcome.ok_bind, bind_map_left,
        Dynamics.start_reseeded hgradient' seed (RandomSource.ofSeed config.seed : G)]
      refine bind_congr fun first => ?_
      rcases first with failure | p
      · rfl
      · simp only [Outcome.ok_map, Dynamics.watch_reseeded hrule', bind_map_left]
        refine bind_congr fun ended => ?_
        rcases ended with ⟨failure | e, w'⟩
        · rfl
        · rfl

/-- The seed matters only where random numbers are called for.  Let the smoothness coefficient be
known and the gradient of the objective not vanish where the start ascent sets out.  Then setting up
gives the same answer for all seeds.  If moreover the rule for directions is not the stochastic one
and the gradient of the Lagrangian does not vanish at the start point, every observer is told of the
same events and every run comes to the same end.  Not even the source of random numbers matters. -/
theorem seed_irrelevant (G G' : Type) [RandomSource G R] [RandomSource G' R]
    (definition : Definition R) (config : Config R) (seed : UInt64)
    (hknown : definition.smoothness ≠ none ∨ definition.objective.smoothness ≠ .ok none)
    (hgradient : ∀ x gradient,
      StartPoint.seedPoint definition.lower definition.upper definition.start = .ok x →
      definition.objective.gradient x = .ok gradient → Vec.isZero gradient = false) :
    setup G' definition (config.reseeded seed) = setup G definition config ∧
    ∀ prepared, setup G definition config = .ok prepared → config.direction ≠ .stochastic →
      (∀ estimate opening gradient,
        DualAscent.resolve prepared.problem config.dualAscent = .ok (estimate, opening) →
        (Lagrangian.ofProblem prepared.problem estimate.duals).gradient prepared.problem.start
          (Vec.zeros prepared.problem.slackDimension) = .ok gradient →
        Vec.isZero gradient = false) →
      ∀ (σ : Type) (observer : Observer σ (Event R) Action) (w : σ),
        solve G' prepared.problem (config.reseeded seed) observer w =
          solve G prepared.problem config observer w ∧
        solve G' prepared.problem (config.reseeded seed) observer.recording (w, #[]) =
          solve G prepared.problem config observer.recording (w, #[]) := by
  refine ⟨setup_reseeded hknown hgradient seed, ?_⟩
  intro prepared _ hrule hgradient' σ observer w
  constructor
  · exact solve_reseeded hrule hgradient' seed observer w
  · exact solve_reseeded hrule hgradient' seed observer.recording (w, #[])

end Runs

/-! ## The run of one step under other seeds -/

/-- Random numbers that alternate between two values; the parity of the seed says which one comes
first. -/
noncomputable instance : RandomSource UInt64 ℝ :=
  ⟨id, fun s => (if s.toNat % 2 = 0 then 0 else Scalar.quarterPi, s + 1)⟩

/-- A slope has a gradient everywhere, and so the run of one step is the same whatever the seed. -/
theorem seed_irrelevant_oneStep : ∃ (prepared : Prepared ℝ) (report : RunReport ℝ Unit)
    (solution : Solution ℝ),
    report.outcome = .ok solution ∧ solution.iterations = 1 ∧
    ∀ seed : UInt64,
      setup UInt64 OneStep.definition ((Config.mk (OneStep.draft none)).reseeded seed) =
        .ok prepared ∧
      solve UInt64 prepared.problem ((Config.mk (OneStep.draft none)).reseeded seed) .silent () =
        .ok report := by
  obtain ⟨notices, hsetup⟩ := OneStep.setup_definition none (by simp)
  obtain ⟨report, solution, _, hsolve, hsolution, hiterations, -⟩ := OneStep.solve_eq none rfl
  refine ⟨⟨OneStep.problem, notices⟩, report, solution, hsolution, hiterations, fun seed => ?_⟩
  have hnonzero : Vec.isZero [(1 : ℝ)] = false := by simp [Vec.isZero]
  obtain ⟨hsetup', hsolve'⟩ := seed_irrelevant Unit UInt64 OneStep.definition
    ⟨OneStep.draft none⟩ seed (.inl (Option.some_ne_none 1)) (by
      intro x gradient _ hgradient
      obtain rfl : [1] = gradient := Except.ok.inj hgradient
      exact hnonzero)
  have hgradient : ∀ estimate opening gradient,
      DualAscent.resolve OneStep.problem (Config.mk (OneStep.draft none)).dualAscent =
        .ok (estimate, opening) →
      (Lagrangian.ofProblem OneStep.problem estimate.duals).gradient OneStep.problem.start
        (Vec.zeros OneStep.problem.slackDimension) = .ok gradient →
      Vec.isZero gradient = false := by
    intro estimate opening gradient hresolve hgradient
    obtain ⟨rfl, -⟩ := Prod.mk.inj (Except.ok.inj hresolve)
    rw [OneStep.zeros_slackDimension, OneStep.start_problem] at hgradient
    obtain rfl := Except.ok.inj ((OneStep.gradient_first none).symm.trans hgradient)
    exact hnonzero
  obtain ⟨hsame, -⟩ := hsolve' _ hsetup (by decide) hgradient Unit .silent ()
  exact ⟨hsetup'.trans hsetup, hsame.trans hsolve⟩

end HopfieldDescent

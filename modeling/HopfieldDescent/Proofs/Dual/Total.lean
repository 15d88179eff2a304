import Mathlib
import HopfieldDescent.Proofs.Dual.Fit
import HopfieldDescent.Proofs.Lagrangian.Total
import HopfieldDescent.Proofs.Scalar.Ieee

/-!
# The dual ascent returns

On a problem that has been set up, duals are estimated without a breach.  The inner descent keeps
an entry for each variable and for each inequality from step to step, and clamps between bounds
that are in order; an update leads from duals that fit to duals that fit, so that any two in
succession can be compared.

The order of the bounds is the one place where a law of the scalars is needed: what is strictly
below is at most.
-/

open HopfieldDescent.Outcome (Returns)

namespace HopfieldDescent

variable {R : Type} [Scalar R] {n : ℕ} {problem : Problem R} {duals duals' : DualVariables R}

/-- The Lipschitz constant of a problem is estimated. -/
lemma Problem.returns_effectiveSmoothness (problem : Problem R) :
    Returns problem.effectiveSmoothness fun _ => True := by
  have hblock (block : Option (ConstraintBlock R)) (penalty : R) :
      Returns (blockSmoothness block penalty) fun _ => True := by
    cases block with
    | none => exact .ok trivial
    | some block =>
      exact (DenseMatrix.returns_gramSpectralRadius block.matrix).bind fun _ _ => .ok trivial
  exact (hblock _ _).bind fun _ _ => (hblock _ _).bind fun _ _ => .ok trivial

/-! ## Inner descent -/

namespace InnerDescent

variable {lower upper x : Vec R}

/-- A point is projected onto a box whose bounds are in order. -/
lemma returns_projectOntoBox (hx : x.length = n) (hlower : lower.length = n)
    (hupper : upper.length = n) (hbounds : ∀ pair ∈ List.zip lower upper, pair.1 ≤ pair.2) :
    Returns (projectOntoBox lower upper x) fun y => y.length = n := by
  have hzip := Vec.zipExact3_eq_ok (f := fun v l u => project l u v).2
    ⟨hx.trans hlower.symm, hlower.trans hupper.symm, rfl⟩
  rw [projectOntoBox, hzip, Outcome.ok_bind]
  refine (Returns.mapM fun value hvalue => ?_).imp fun y hy =>
    hy.trans (by simp [hx, hlower, hupper])
  obtain ⟨i, hi, rfl⟩ := List.mem_iff_getElem.1 hvalue
  rw [List.getElem_zipWith]
  exact ⟨_, if_pos (hbounds _ (List.getElem_mem _)), trivial⟩

/-- Lagrangian and box of a descent suit `n` variables. -/
structure Descent.Fits (descent : Descent R) (n : ℕ) : Prop where
  /-- The objective. -/
  objective : descent.lagrangian.objective.ReturnsOn n
  /-- The blocks. -/
  lagrangian : descent.lagrangian.Fits n
  /-- The lower bounds. -/
  length_lower : descent.lower.length = n
  /-- The upper bounds. -/
  length_upper : descent.upper.length = n
  /-- The bounds are in order. -/
  bounds : ∀ pair ∈ List.zip descent.lower descent.upper, pair.1 ≤ pair.2

/-- A place has an entry for each variable and a slack for each inequality. -/
structure Place.Fits (place : Place R) (l : Lagrangian R) (n : ℕ) : Prop where
  /-- The point. -/
  length_x : place.x.length = n
  /-- The slack. -/
  length_slack : place.slack.length = l.slackDimension

variable {descent : Descent R} {place : Place R}

/-- One step leads from a place that fits to a place that fits. -/
lemma Descent.returns_step (hdescent : descent.Fits n) (hplace : place.Fits descent.lagrangian n) :
    Returns (descent.step place) fun next => next.1.Fits descent.lagrangian n := by
  obtain ⟨hx, hslack⟩ := hplace
  have hslackFits := Lagrangian.slackFits_of_length hslack
  refine (Lagrangian.returns_gradient (hdescent.objective.gradient _ hx) hdescent.lagrangian hx
    hslackFits).bind fun gradient hgradient => ?_
  refine (Lagrangian.returns_slackGradient hdescent.lagrangian hx hslack).bind
    fun slackGradient hslackGradient => ?_
  refine (Vec.returns_zipOnto hx hgradient).bind fun moved hmoved => ?_
  refine (returns_projectOntoBox hmoved hdescent.length_lower hdescent.length_upper
    hdescent.bounds).bind fun x' hx' => ?_
  refine (Vec.returns_zipOnto hslack hslackGradient).bind fun movedSlack hmovedSlack => ?_
  have hslack' : (movedSlack.map fun s => Scalar.minNum s 0.0).length =
      descent.lagrangian.slackDimension := (List.length_map _).trans hmovedSlack
  exact (Vec.returns_zipSpread hx' hx).bind fun _ _ =>
    (Vec.returns_zipSpread hslack' hslack).bind fun _ _ => .ok ⟨hx', hslack'⟩

/-- Any number of steps leads from a place that fits to a place that fits. -/
lemma Descent.returns_run (hdescent : descent.Fits n) (steps : ℕ)
    (hplace : place.Fits descent.lagrangian n) :
    Returns (descent.run steps place) fun last => last.Fits descent.lagrangian n := by
  induction steps generalizing place with
  | zero => exact .ok hplace
  | succ steps ih =>
    refine (returns_step hdescent hplace).bind fun ⟨next, size⟩ hnext => ?_
    dsimp only
    split_ifs
    · exact .ok hnext
    · exact ih hnext

variable [IeeeComparison R]

/-- Lagrangian and box of a problem suit its variables. -/
lemma descent_fits (hproblem : problem.WellFormed)
    (hobjective : problem.objective.ReturnsOn problem.dimension) (hduals : duals.Fit problem)
    (rate tolerance : R) :
    (⟨.ofProblem problem duals, problem.lower, problem.upper, rate, tolerance⟩ :
      Descent R).Fits problem.dimension where
  objective := hobjective
  lagrangian := Lagrangian.fits_ofProblem hproblem hduals
  length_lower := rfl
  length_upper := hproblem.length_upper
  bounds pair hpair := by
    have henclose := hproblem.bounds pair hpair
    simp only [Definition.boundsEnclose, Bool.and_eq_true, decide_eq_true_eq] at henclose
    exact IeeeComparison.le_of_lt henclose.2

/-- The inner descent of a problem returns. -/
lemma returns_minimize (hproblem : problem.WellFormed)
    (hobjective : problem.objective.ReturnsOn problem.dimension) (hduals : duals.Fit problem)
    (rate : R) (settings : DualAscentSettings R) :
    Returns (minimize problem duals rate settings) fun place =>
      place.Fits (.ofProblem problem duals) problem.dimension := by
  refine Descent.returns_run (descent_fits hproblem hobjective hduals rate settings.tolerance) _
    ⟨hproblem.length_start, ?_⟩
  rw [Vec.length_zeros, Lagrangian.slackDimension_ofProblem hduals]

end InnerDescent

/-! ## Dual ascent -/

namespace DualAscent

/-- A block that takes part moves along a residual with an entry for each dual. -/
lemma returns_raised {block : Option (ConstraintBlock R)} {dual residual : Option (Vec R)}
    {penalty : R} {move : Vec R → Checked (Vec R)}
    (hblocks : ∀ p ∈ Lagrangian.penalized block dual penalty, p.Fits n)
    (hresidual : residual.map List.length =
      (Lagrangian.penalized block dual penalty).map (·.block.height))
    (hmove : ∀ r, r.length = (dual.getD []).length → Returns (move r) fun _ => True) :
    Returns (raised move residual) fun _ => True := by
  cases residual with
  | none => exact .ok trivial
  | some r =>
    obtain ⟨p, hp, hheight⟩ := Option.map_eq_some_iff.1 hresidual.symm
    obtain ⟨b, hb, d, hd, rfl⟩ := Lagrangian.mem_penalized.1 hp
    refine (hmove r ?_).map fun _ _ => trivial
    rw [Option.mem_def.1 hd, Option.getD_some]
    exact hheight.symm.trans (hblocks _ hp).length_dual.symm

/-- Duals that fit one block can be compared. -/
lemma returns_blockChange {before after : Option (Vec R)}
    (h : before.map List.length = after.map List.length) :
    Returns (blockChange before after) fun _ => True := by
  rcases before with _ | before <;> rcases after with _ | after
  · exact .ok trivial
  · exact .ok trivial
  · exact .ok trivial
  · exact (Vec.returns_zipSpread rfl (Option.some.inj h)).bind fun _ _ => .ok trivial

/-- Duals that fit one problem can be compared. -/
lemma returns_change (hduals : duals.Fit problem) (hduals' : duals'.Fit problem) :
    Returns (change duals duals') fun _ => True :=
  (returns_blockChange (hduals.equality.trans hduals'.equality.symm)).bind fun _ _ =>
    (returns_blockChange (hduals.inequality.trans hduals'.inequality.symm)).bind fun _ _ =>
      .ok trivial

variable [IeeeComparison R] {ascent : Ascent R}

/-- An update leads from duals that fit to duals that fit. -/
lemma Ascent.returns_update (hproblem : ascent.problem.WellFormed)
    (hobjective : ascent.problem.objective.ReturnsOn ascent.problem.dimension)
    (hduals : duals.Fit ascent.problem) (decay : R) :
    Returns (ascent.update duals decay) fun duals' => duals'.Fit ascent.problem := by
  have hblocks := Lagrangian.fits_ofProblem hproblem hduals
  have hreturns : Returns (ascent.update duals decay) fun _ => True := by
    refine (InnerDescent.returns_minimize hproblem hobjective hduals _ _).bind
      fun place hplace => ?_
    refine (Lagrangian.returns_equalityResidual hblocks hplace.length_x).bind fun _ hresidual => ?_
    refine (returns_raised hblocks.equality hresidual fun r hr =>
      (Vec.returns_zipOnto rfl hr).imp fun _ _ => trivial).bind fun _ _ => ?_
    refine (Lagrangian.returns_inequalityResidual hblocks hplace.length_x
      (Lagrangian.slackFits_of_length hplace.length_slack)).bind fun _ hresidual' => ?_
    exact (returns_raised hblocks.inequality hresidual' fun r hr =>
      (Vec.returns_zipOnto rfl hr).bind fun _ _ => .ok trivial).bind fun _ _ => .ok trivial
  obtain ⟨duals', hupdate, -⟩ := hreturns
  exact ⟨duals', hupdate, fit_of_update hduals hupdate⟩

/-- Any number of updates returns. -/
lemma Ascent.returns_climb (hproblem : ascent.problem.WellFormed)
    (hobjective : ascent.problem.objective.ReturnsOn ascent.problem.dimension)
    (remaining outer : ℕ) {progress : Progress R} (hprogress : progress.duals.Fit ascent.problem) :
    Returns (ascent.climb remaining outer progress) fun _ => True := by
  induction remaining generalizing outer progress with
  | zero => exact .ok trivial
  | succ remaining ih =>
    refine (returns_update hproblem hobjective hprogress _).bind fun duals' hduals' => ?_
    refine (returns_change hprogress hduals').bind fun _ _ => ?_
    dsimp only
    split_ifs
    · exact .ok trivial
    · exact ih _ hduals'

/-- Duals are estimated, and they fit the problem. -/
theorem returns_estimate (hproblem : problem.WellFormed)
    (hobjective : problem.objective.ReturnsOn problem.dimension)
    (settings : DualAscentSettings R) :
    Returns (estimate problem settings) fun found => found.1.duals.Fit problem := by
  obtain ⟨found, hfound, -⟩ : Returns (estimate problem settings) fun _ => True :=
    problem.returns_effectiveSmoothness.bind fun smoothness _ =>
      let ascent : Ascent R := ⟨problem, settings, 1.0 / smoothness⟩
      ascent.returns_climb hproblem hobjective _ _ fit_initialDuals
  exact ⟨found, hfound, fit_of_estimate hfound⟩

/-- The duals for a run are resolved, and they fit the problem. -/
theorem returns_resolve (hproblem : problem.WellFormed)
    (hobjective : problem.objective.ReturnsOn problem.dimension)
    (settings : DualAscentSettings R) :
    Returns (resolve problem settings) fun found => found.1.duals.Fit problem := by
  have hreturns : Returns (resolve problem settings) fun _ => True := by
    unfold resolve
    split_ifs
    · exact .ok trivial
    · exact .ok trivial
    · exact (returns_estimate hproblem hobjective settings).imp fun _ _ => trivial
  obtain ⟨found, hresolve, -⟩ := hreturns
  exact ⟨found, hresolve, fit_of_resolve hproblem hresolve⟩

end DualAscent

end HopfieldDescent

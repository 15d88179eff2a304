import Mathlib
import HopfieldDescent.Proofs.Config.Accepted
import HopfieldDescent.Proofs.Dual.InnerDescends
import HopfieldDescent.Proofs.Dual.Total
import HopfieldDescent.Proofs.Vec.Spread

/-!
# What the inner descent ends at

Whatever the objective is and wherever the descent starts, the first projection puts the point into
the box and the slacks below zero, and every later one keeps them there.  So the place at the end is
feasible, also if the start was not.

The steps end early only after one whose length, divided by the rate, is below the tolerance.  That
this says something about the minimum lies in the places that a step does not move at all: among the
feasible ones, they are those from which no direction into the feasible set leads downwards to first
order (`Place.Feasible.step_eq_self_iff`).
-/

open scoped Matrix

namespace HopfieldDescent

/-- The problem with another start point, which may lie outside of the box. -/
def Problem.startingAt {R : Type} (problem : Problem R) (x : Vec R) : Problem R :=
  { problem with start := x }

/-- A problem stays well formed if the other start point has an entry for each variable. -/
lemma Problem.WellFormed.startingAt {R : Type} [Scalar R] {problem : Problem R}
    (hproblem : problem.WellFormed) {x : Vec R} (hx : x.length = problem.dimension) :
    (problem.startingAt x).WellFormed :=
  { hproblem with length_start := hx }

namespace InnerDescent

/-! ## The course of a descent -/

section Course

variable {R : Type} [Scalar R] {descent : Descent R} {first place last : Place R} {steps k : ℕ}

/-- A number of steps, none of them small, leads from one place to another. -/
inductive Descent.Strides (descent : Descent R) (first : Place R) : ℕ → Place R → Prop
  | start : Strides descent first 0 first
  | step {k : ℕ} {place next : Place R} {size : R} (strode : Strides descent first k place)
      (stepped : descent.step place = .ok (next, size)) (large : ¬size < descent.tolerance) :
      Strides descent first (k + 1) next

/-- Strides are steps. -/
lemma Descent.Strides.reaches (h : descent.Strides first k place) :
    descent.Reaches first place := by
  induction h with
  | start => exact .start
  | step _ stepped _ ih => exact ih.step stepped

/-- A descent strides up to its last step, which is small unless the steps are used up. -/
lemma Descent.exists_strides_of_run (hstrides : descent.Strides first k place)
    (h : descent.run (steps + 1) place = .ok last) :
    ∃ taken before size, taken ≤ k + steps ∧ descent.Strides first taken before ∧
      descent.step before = .ok (last, size) ∧
      (taken < k + steps → size < descent.tolerance) := by
  induction steps generalizing k place with
  | zero =>
    rw [run, Outcome.bind_eq_ok] at h
    obtain ⟨⟨next, size⟩, hstep, h⟩ := h
    have hlast : next = last := by
      dsimp only at h
      split_ifs at h
      · exact Outcome.pure_eq_ok.1 h
      · exact Except.ok.inj h
    exact ⟨k, place, size, le_rfl, hstrides, hlast ▸ hstep, fun hlt => absurd hlt (lt_irrefl k)⟩
  | succ steps ih =>
    rw [run, Outcome.bind_eq_ok] at h
    obtain ⟨⟨next, size⟩, hstep, h⟩ := h
    dsimp only at h
    split_ifs at h with hsmall
    · obtain rfl := Outcome.pure_eq_ok.1 h
      exact ⟨k, place, size, k.le_add_right _, hstrides, hstep, fun _ => hsmall⟩
    · obtain ⟨taken, before, size', hle, hbefore, hlast, hend⟩ :=
        ih (hstrides.step hstep hsmall) h
      exact ⟨taken, before, size', by omega, hbefore, hlast, fun hlt => hend (by omega)⟩

end Course

/-! ## The size of a step -/

variable {problem : Problem ℝ} {duals : DualVariables ℝ} {rate tolerance size : ℝ}
  {place next : Place ℝ} {n m : ℕ}

/-- How far apart two places are, point and slack together. -/
noncomputable def Place.distance (place next : Place ℝ) : ℝ :=
  Vec.norm (List.zipWith (· - ·) next.x place.x ++ List.zipWith (· - ·) next.slack place.slack)

/-- The squared distance of two places is that of their points and that of their slacks. -/
lemma Place.distance_sq (hx : place.x.length = n) (hx' : next.x.length = n)
    (hslack : place.slack.length = m) (hslack' : next.slack.length = m) :
    place.distance next ^ 2 =
      Vec.displacement n place.x next.x ⬝ᵥ Vec.displacement n place.x next.x +
        Vec.displacement m place.slack next.slack ⬝ᵥ
          Vec.displacement m place.slack next.slack := by
  rw [distance, Vec.norm_append_sq, sq, sq, Vec.norm_mul_self (n := n) (by simp [hx, hx']),
    Vec.norm_mul_self (n := m) (by simp [hslack, hslack']), Vec.coords_zipWith_sub hx' hx,
    Vec.coords_zipWith_sub hslack' hslack]
  rfl

/-- Places that are not apart are one. -/
lemma Place.eq_of_distance_sq_nonpos (hx : next.x.length = place.x.length)
    (hslack : next.slack.length = place.slack.length) (h : place.distance next ^ 2 ≤ 0) :
    next = place := by
  have hzero : place.distance next ^ 2 = 0 := le_antisymm h (sq_nonneg _)
  rw [distance, Vec.norm_append_sq,
    add_eq_zero_iff_of_nonneg (sq_nonneg _) (sq_nonneg _)] at hzero
  have hpoint := (Vec.norm_zipWith_sub_eq_zero_iff hx rfl).1 (sq_eq_zero_iff.1 hzero.1)
  have hslacks := (Vec.norm_zipWith_sub_eq_zero_iff hslack rfl).1 (sq_eq_zero_iff.1 hzero.2)
  exact congrArg₂ Place.mk hpoint hslacks

/-- The size of a step is the distance it moves, divided by the rate. -/
lemma Descent.size_of_step {descent : Descent ℝ} (h : descent.step place = .ok (next, size)) :
    size = place.distance next / descent.rate := by
  obtain ⟨_, _, moved, _, -, -, hmoved, hproject, -, -⟩ := step_eq_ok h
  have hx : next.x.length = place.x.length := by
    obtain ⟨⟨hlength, -, hlength'⟩, -⟩ := coords_of_projectOntoBox hproject rfl
    rw [hlength', ← hlength, Vec.length_of_zipOnto hmoved]
  have hslack := length_slack_of_step h
  simp only [step, Outcome.bind_eq_ok, Outcome.pure_eq_ok, Prod.mk.injEq] at h
  obtain ⟨_, -, _, -, _, -, x, -, _, -, dx, hdx, ds, hds, rfl, rfl⟩ := h
  rw [Vec.sub, Vec.zipSpread_of_length_eq hx] at hdx
  rw [Vec.sub, Vec.zipSpread_of_length_eq hslack] at hds
  obtain rfl := Except.ok.inj hdx
  obtain rfl := Except.ok.inj hds
  congr 1
  calc Scalar.hypot _ _ = √(Vec.norm _ ^ 2 + Vec.norm _ ^ 2) := rfl
    _ = √(Vec.norm _ ^ 2) := by rw [Vec.norm_append_sq]
    _ = Vec.norm _ := Real.sqrt_sq (Vec.norm_nonneg _)

/-! ## Feasible places -/

/-- A point of the box with a slack of at most zero for each inequality of a problem. -/
structure Place.Feasible (place : Place ℝ) (problem : Problem ℝ) : Prop where
  /-- The point lies in the box. -/
  inBox : Vec.InBox problem.lower problem.upper place.x
  /-- There is a slack for each inequality. -/
  length_slack : place.slack.length = problem.slackDimension
  /-- No slack is positive. -/
  nonpos : ∀ s ∈ place.slack, s ≤ 0

/-- A step from any place with a slack for each inequality leads to a feasible one. -/
lemma Place.feasible_of_step (hlength : place.slack.length = problem.slackDimension)
    (hstep : (Descent.ofProblem problem duals rate tolerance).step place = .ok (next, size)) :
    next.Feasible problem := by
  obtain ⟨hinBox, hnonpos⟩ := Descent.feasible_of_step hstep
  exact ⟨hinBox, (Descent.length_slack_of_step hstep).trans hlength, hnonpos⟩

/-! ## Places that a step does not move -/

/-- How fast the Lagrangian grows from one place towards another, by its gradients. -/
def Place.slope (place other : Place ℝ) (problem : Problem ℝ) (gradient slackGradient : Vec ℝ) :
    ℝ :=
  Vec.coords problem.dimension gradient ⬝ᵥ Vec.displacement problem.dimension place.x other.x +
    Vec.coords problem.slackDimension slackGradient ⬝ᵥ
      Vec.displacement problem.slackDimension place.slack other.slack

/-- Towards no feasible place the Lagrangian falls to first order. -/
def Place.FirstOrder (place : Place ℝ) (problem : Problem ℝ) (gradient slackGradient : Vec ℝ) :
    Prop :=
  ∀ other : Place ℝ, other.Feasible problem → 0 ≤ place.slope other problem gradient slackGradient

/-- From a feasible place, a step does not move exactly if the place is a first-order point. -/
lemma Place.Feasible.step_eq_self_iff (hplace : place.Feasible problem) (hrate : 0 < rate)
    {gradient slackGradient : Vec ℝ}
    (hgradient : (Lagrangian.ofProblem problem duals).gradient place.x place.slack = .ok gradient)
    (hlength : gradient.length = problem.dimension)
    (hslackGradient : (Lagrangian.ofProblem problem duals).slackGradient place.x place.slack =
      .ok slackGradient) (hslackLength : slackGradient.length = problem.slackDimension)
    (hstep : (Descent.ofProblem problem duals rate tolerance).step place = .ok (next, size)) :
    next = place ↔ place.FirstOrder problem gradient slackGradient := by
  have hnext := feasible_of_step hplace.length_slack hstep
  obtain ⟨_, _, moved, movedSlack, hgradient', hslackGradient', hmoved, hproject, hmovedSlack,
    hslack⟩ := Descent.step_eq_ok hstep
  obtain rfl := Except.ok.inj (hgradient.symm.trans hgradient')
  obtain rfl := Except.ok.inj (hslackGradient.symm.trans hslackGradient')
  constructor
  · rintro rfl other hother
    -- nothing is left of the step itself, so that the obtuse angle is one with the gradient
    have hpoint := obtuse_of_projectOntoBox (n := problem.dimension) hother.inBox rfl hlength
      hmoved hproject
    have hslacks := obtuse_of_cut hother.length_slack hother.nonpos hplace.length_slack
      hslackLength hmovedSlack hslack
    rw [Vec.displacement_self, zero_add, smul_dotProduct, smul_eq_mul] at hpoint hslacks
    exact add_nonneg (nonneg_of_mul_nonneg_right hpoint hrate)
      (nonneg_of_mul_nonneg_right hslacks hrate)
  · intro hfirst
    have hpoint := dotProduct_displacement_le (n := problem.dimension) hrate hplace.inBox rfl
      hlength hmoved hproject
    have hslacks := dotProduct_slackDisplacement_le hrate hplace.length_slack hplace.nonpos
      hslackLength hmovedSlack hslack
    have hslope := hfirst next hnext
    have hx : place.x.length = problem.dimension := hplace.inBox.length_eq
    have hx' : next.x.length = problem.dimension := hnext.inBox.length_eq
    refine Place.eq_of_distance_sq_nonpos (hx'.trans hx.symm)
      (hnext.length_slack.trans hplace.length_slack.symm) ?_
    rw [Place.distance_sq hx hx' hplace.length_slack hnext.length_slack]
    have hrate' : 0 < 1 / rate := one_div_pos.2 hrate
    refine nonpos_of_mul_nonpos_right ?_ hrate'
    rw [Place.slope] at hslope
    linarith

/-- The inner descent of a problem that has been set up, from any point, ends at a feasible place
whatever the objective does, and unless its steps are used up, with a step whose length times the
smoothness coefficient is below the tolerance.  If the objective returns, so do the descent and
every step from a feasible place, and the step does not move exactly at first-order points. -/
theorem minimize_of_setup {G : Type} [RandomSource G ℝ] {definition : Definition ℝ}
    {config : Config ℝ} {prepared : Prepared ℝ}
    (hsetup : setup G definition config = .ok prepared) {settings : DualAscentSettings ℝ}
    (hsettings : settings.check = .ok settings) (hduals : duals.Fit prepared.problem) :
    ∃ smoothness : ℝ, 0 < smoothness ∧ prepared.problem.effectiveSmoothness = .ok smoothness ∧
      (∀ x last, minimize (prepared.problem.startingAt x) duals (1.0 / smoothness) settings =
          .ok last → last.Feasible prepared.problem ∧
        ∃ taken before size, taken < settings.maxInner ∧
          (Descent.ofProblem prepared.problem duals (1.0 / smoothness) settings.tolerance).Strides
            (.first (prepared.problem.startingAt x)) taken before ∧
          (Descent.ofProblem prepared.problem duals (1.0 / smoothness) settings.tolerance).step
            before = .ok (last, size) ∧
          (taken + 1 < settings.maxInner →
            before.distance last * smoothness < settings.tolerance)) ∧
      (prepared.problem.objective.ReturnsOn prepared.problem.dimension →
        (∀ x : Vec ℝ, x.length = prepared.problem.dimension →
          ∃ last, minimize (prepared.problem.startingAt x) duals (1.0 / smoothness) settings =
            .ok last) ∧
        ∀ place : Place ℝ, place.Feasible prepared.problem →
          ∃ next size gradient slackGradient,
            (Lagrangian.ofProblem prepared.problem duals).gradient place.x place.slack =
              .ok gradient ∧
            gradient.length = prepared.problem.dimension ∧
            (Lagrangian.ofProblem prepared.problem duals).slackGradient place.x place.slack =
              .ok slackGradient ∧
            slackGradient.length = prepared.problem.slackDimension ∧
            (Descent.ofProblem prepared.problem duals (1.0 / smoothness)
              settings.tolerance).step place = .ok (next, size) ∧
            (next = place ↔ place.FirstOrder prepared.problem gradient slackGradient)) := by
  have hproblem := wellFormed_of_setup hsetup
  obtain ⟨smoothness, hsmoothness, -⟩ := prepared.problem.returns_effectiveSmoothness
  have hpos := Lagrangian.effectiveSmoothness_pos hproblem hsmoothness
  refine ⟨smoothness, hpos, hsmoothness, fun x last hlast => ?_, fun hobjective => ⟨?_, ?_⟩⟩
  · have hroom := (DualAscentSettings.inRange_of_check hsettings).2.maxInner
    obtain ⟨steps, hsteps⟩ := Nat.exists_eq_succ_of_ne_zero hroom
    have hrun : (Descent.ofProblem prepared.problem duals (1.0 / smoothness)
        settings.tolerance).run (steps + 1) (.first (prepared.problem.startingAt x)) =
          .ok last := by
      rw [← Nat.succ_eq_add_one, ← hsteps]
      exact hlast
    obtain ⟨taken, before, size, htaken, hstrides, hstep, hend⟩ :=
      Descent.exists_strides_of_run .start hrun
    have hslack : before.slack.length = prepared.problem.slackDimension :=
      hstrides.reaches.length_slack.trans (Vec.length_zeros _)
    refine ⟨Place.feasible_of_step hslack hstep, taken, before, size, by omega, hstrides, hstep,
      fun hearly => ?_⟩
    have hsmall := hend (by omega)
    rw [Descent.size_of_step hstep] at hsmall
    simpa [Descent.ofProblem] using hsmall
  · intro x hx
    have hduals' : duals.Fit (prepared.problem.startingAt x) :=
      ⟨hduals.equality, hduals.inequality⟩
    obtain ⟨last, hlast, -⟩ := returns_minimize (hproblem.startingAt hx) hobjective hduals'
      (1.0 / smoothness) settings
    exact ⟨last, hlast⟩
  · intro place hplace
    have hfits := Lagrangian.fits_ofProblem hproblem hduals
    have hx : place.x.length = prepared.problem.dimension := hplace.inBox.length_eq
    have hslack : place.slack.length =
        (Lagrangian.ofProblem prepared.problem duals).slackDimension :=
      hplace.length_slack.trans (Lagrangian.slackDimension_ofProblem hduals).symm
    obtain ⟨gradient, hgradient, hlength⟩ := Lagrangian.returns_gradient
      (hobjective.gradient place.x hx) hfits hx (Lagrangian.slackFits_of_length hslack)
    obtain ⟨slackGradient, hslackGradient, hslackLength⟩ :=
      Lagrangian.returns_slackGradient hfits hx hslack
    rw [Lagrangian.slackDimension_ofProblem hduals] at hslackLength
    obtain ⟨⟨next, size⟩, hstep, -⟩ := Descent.returns_step
      (descent_fits hproblem hobjective hduals (1.0 / smoothness) settings.tolerance) ⟨hx, hslack⟩
    have hrate : 0 < 1.0 / smoothness := by
      rw [Scalar.literal_one]
      exact one_div_pos.2 hpos
    exact ⟨next, size, gradient, slackGradient, hgradient, hlength, hslackGradient, hslackLength,
      hstep, hplace.step_eq_self_iff hrate hgradient hlength hslackGradient hslackLength hstep⟩

/-- Against the row `x ≤ 1/2`, a descent from outside of the box ends in it, and a step does not
move from where the row is just met. -/
theorem minimize_of_setup_unitRow : ∃ (prepared : Prepared ℝ) (last : Place ℝ) (size : ℝ),
    setup Unit (SingleRow.definition 1 0.5 1) SingleRow.config = .ok prepared ∧
    DualAscentSettings.standard.check = .ok (.standard : DualAscentSettings ℝ) ∧
    SingleRow.duals.Fit prepared.problem ∧
    prepared.problem.effectiveSmoothness = .ok 2 ∧
    ¬Vec.InBox prepared.problem.lower prepared.problem.upper [3] ∧
    minimize (prepared.problem.startingAt [3]) SingleRow.duals (1.0 / 2) .standard = .ok last ∧
    last.Feasible prepared.problem ∧
    (Descent.ofProblem prepared.problem SingleRow.duals (1.0 / 2)
      (1e-3 : ℝ)).step ⟨[0.5], [0]⟩ = .ok (⟨[0.5], [0]⟩, size) := by
  obtain ⟨notices, hsetup⟩ := SingleRow.setup_definition 1 0.5 one_pos
  have hcheck : DualAscentSettings.standard.check =
      .ok (.standard : DualAscentSettings ℝ) := by
    simp [DualAscentSettings.check, DualAscentSettings.standard]
    norm_num
  have hobjective : (SingleRow.problem 1 0.5 1).objective.ReturnsOn 1 :=
    ⟨fun _ _ => .ok trivial, fun _ hx => .ok (by simpa using hx), .ok trivial⟩
  obtain ⟨smoothness, -, hsmoothness, hfeasible, hreturns⟩ :=
    minimize_of_setup hsetup hcheck SingleRow.fit_duals
  have htwo : (SingleRow.problem 1 0.5 1).effectiveSmoothness = .ok 2 := by
    rw [SingleRow.effectiveSmoothness_problem one_ne_zero]
    norm_num
  obtain rfl : (2 : ℝ) = smoothness := Except.ok.inj (htwo.symm.trans hsmoothness)
  obtain ⟨hminimize, hsteps⟩ := hreturns hobjective
  obtain ⟨last, hlast⟩ := hminimize [3] rfl
  have hplace : (⟨[0.5], [0]⟩ : Place ℝ).Feasible (SingleRow.problem 1 0.5 1) := by
    refine ⟨?_, rfl, by simp⟩
    simp only [Vec.InBox, SingleRow.problem, List.forall₂_cons, List.forall₂_nil_left_iff]
    norm_num
  obtain ⟨next, size, gradient, slackGradient, hgradient, -, hslackGradient, -, hstep, hiff⟩ :=
    hsteps _ hplace
  have hmet : (1 : ℝ) * 0.5 - 0.5 - 0 = 0 := by norm_num
  rw [SingleRow.gradient_eq, hmet, zero_mul, mul_zero] at hgradient
  rw [SingleRow.slackGradient_eq, hmet, zero_mul, neg_zero] at hslackGradient
  obtain rfl := Except.ok.inj hgradient
  obtain rfl := Except.ok.inj hslackGradient
  -- where both gradients vanish, nothing lies below
  have hzero (n : ℕ) : Vec.coords n [0] = 0 := by
    funext i
    simp only [Vec.coords, List.getElem?_singleton, Pi.zero_apply]
    split_ifs <;> rfl
  have hfirst : (⟨[0.5], [0]⟩ : Place ℝ).FirstOrder (SingleRow.problem 1 0.5 1) [0] [0] := by
    intro other _
    rw [Place.slope, hzero, hzero, zero_dotProduct, zero_dotProduct, add_zero]
  rw [hiff.2 hfirst] at hstep
  refine ⟨_, last, size, hsetup, hcheck, SingleRow.fit_duals, htwo, ?_, hlast,
    (hfeasible _ _ hlast).1, hstep⟩
  rintro ⟨-, hupper⟩
  simp only [SingleRow.problem, List.forall₂_cons] at hupper
  linarith [hupper.1]

end InnerDescent

end HopfieldDescent

import Mathlib
import HopfieldDescent.Proofs.Dual.Projection
import HopfieldDescent.Proofs.Lagrangian.Descent
import HopfieldDescent.Proofs.Lagrangian.Joint

/-!
# Steps of the inner descent

Each step of the inner descent moves the point and the slack at once, at the reciprocal of the
smoothness coefficient, and projects both back.  A place that a step leads to is admissible: its
point lies in the box, and its slacks are at most zero.

Along the point a step goes down by the coefficient times its squared length, and along the slack
alike.  Half of the first pays for the curvature of objective and equations.  What is left pays for
the inequalities if the coefficient covers the slack, and the Lagrangian does not increase
(`Place.Admissible.value_le_of_step`).
-/

open scoped Matrix

namespace HopfieldDescent.InnerDescent

/-! ## The places of a descent -/

section Places

variable {R : Type} [Scalar R]

/-- The inner descent of a problem at fixed duals. -/
def Descent.ofProblem (problem : Problem R) (duals : DualVariables R) (rate tolerance : R) :
    Descent R where
  lagrangian := .ofProblem problem duals
  lower := problem.lower
  upper := problem.upper
  rate
  tolerance

/-- Where the inner descent of a problem begins. -/
def Place.first (problem : Problem R) : Place R :=
  ⟨problem.start, Vec.zeros problem.slackDimension⟩

/-- The places that the steps of a descent lead to, whether or not they have become small. -/
inductive Descent.Reaches (descent : Descent R) (first : Place R) : Place R → Prop
  | start : Reaches descent first first
  | step {place next : Place R} {size : R} (reached : Reaches descent first place)
      (stepped : descent.step place = .ok (next, size)) : Reaches descent first next

/-- Wherever a descent ends, its steps have led there. -/
lemma Descent.reaches_of_run {descent : Descent R} {first place last : Place R} {steps : ℕ}
    (hreaches : descent.Reaches first place) (h : descent.run steps place = .ok last) :
    descent.Reaches first last := by
  induction steps generalizing place with
  | zero =>
    obtain rfl := Except.ok.inj h
    exact hreaches
  | succ steps ih =>
    simp only [run, Outcome.bind_eq_ok] at h
    obtain ⟨⟨next, size⟩, hstep, h⟩ := h
    dsimp only at h
    split_ifs at h
    · obtain rfl := Outcome.pure_eq_ok.1 h
      exact hreaches.step hstep
    · exact ih (hreaches.step hstep) h

/-- The place where the Lagrangian is left by an inner descent has been reached by its steps. -/
lemma reaches_of_minimize {problem : Problem R} {duals : DualVariables R} {rate : R}
    {settings : DualAscentSettings R} {last : Place R}
    (h : minimize problem duals rate settings = .ok last) :
    (Descent.ofProblem problem duals rate settings.tolerance).Reaches (.first problem) last :=
  Descent.reaches_of_run .start h

/-- The parts of a step. -/
lemma Descent.step_eq_ok {descent : Descent R} {place next : Place R} {size : R}
    (h : descent.step place = .ok (next, size)) :
    ∃ gradient slackGradient moved movedSlack,
      descent.lagrangian.gradient place.x place.slack = .ok gradient ∧
      descent.lagrangian.slackGradient place.x place.slack = .ok slackGradient ∧
      place.x.shiftScaled (-descent.rate) gradient = .ok moved ∧
      projectOntoBox descent.lower descent.upper moved = .ok next.x ∧
      place.slack.shiftScaled (-descent.rate) slackGradient = .ok movedSlack ∧
      next.slack = movedSlack.map fun s => Scalar.minNum s 0.0 := by
  simp only [step, Outcome.bind_eq_ok, Outcome.pure_eq_ok, Prod.mk.injEq] at h
  obtain ⟨gradient, hgradient, slackGradient, hslackGradient, moved, hmoved, x, hx, movedSlack,
    hmovedSlack, _, -, _, -, rfl, -⟩ := h
  exact ⟨gradient, slackGradient, moved, movedSlack, hgradient, hslackGradient, hmoved, hx,
    hmovedSlack, rfl⟩

/-- A step keeps the number of slacks. -/
lemma Descent.length_slack_of_step {descent : Descent R} {place next : Place R} {size : R}
    (h : descent.step place = .ok (next, size)) : next.slack.length = place.slack.length := by
  obtain ⟨_, _, _, movedSlack, -, -, -, -, hmovedSlack, hslack⟩ := step_eq_ok h
  rw [hslack, List.length_map, Vec.length_of_zipOnto hmovedSlack]

/-- Steps keep the number of slacks. -/
lemma Descent.Reaches.length_slack {descent : Descent R} {first place : Place R}
    (hreaches : descent.Reaches first place) : place.slack.length = first.slack.length := by
  induction hreaches with
  | start => rfl
  | step reached stepped ih => exact (Descent.length_slack_of_step stepped).trans ih

/-- An inner descent ends with a slack for each inequality of the problem. -/
lemma length_slack_of_minimize {problem : Problem R} {duals : DualVariables R} {rate : R}
    {settings : DualAscentSettings R} {last : Place R}
    (h : minimize problem duals rate settings = .ok last) :
    last.slack.length = problem.slackDimension :=
  (reaches_of_minimize h).length_slack.trans (Vec.length_zeros _)

end Places

variable {problem : Problem ℝ} {duals : DualVariables ℝ} {rate tolerance : ℝ}
  {place next : Place ℝ} {size : ℝ}

/-- A point of the box with one slack of at most zero for each inequality. -/
structure Place.Admissible (place : Place ℝ) (problem : Problem ℝ) (duals : DualVariables ℝ) :
    Prop where
  /-- The point lies in the box. -/
  inBox : Vec.InBox problem.lower problem.upper place.x
  /-- There is a slack for each inequality. -/
  slackFits : (Lagrangian.ofProblem problem duals).SlackFits place.slack
  /-- No slack is positive. -/
  nonpos : ∀ s ∈ place.slack, s ≤ 0

/-- The place where the inner descent begins is admissible if the start point lies in the box. -/
lemma Place.admissible_first (hstart : Vec.InBox problem.lower problem.upper problem.start) :
    (Place.first problem).Admissible problem duals := by
  refine ⟨hstart, ?_, ?_⟩
  · intro p hp
    obtain ⟨block, hblock, dual, -, rfl⟩ := Lagrangian.mem_penalized.1 hp
    simp [first, Vec.zeros, Problem.slackDimension, Option.mem_def.1 hblock]
  · intro s hs
    rw [List.eq_of_mem_replicate hs]
    exact Scalar.literal_zero.le

/-- A step leads into the box, and to slacks of at most zero. -/
lemma Descent.feasible_of_step {descent : Descent ℝ} (h : descent.step place = .ok (next, size)) :
    Vec.InBox descent.lower descent.upper next.x ∧ ∀ s ∈ next.slack, s ≤ 0 := by
  obtain ⟨_, _, _, _, -, -, -, hproject, -, hslack⟩ := step_eq_ok h
  refine ⟨inBox_of_projectOntoBox hproject, fun s hs => ?_⟩
  rw [hslack] at hs
  obtain ⟨t, -, rfl⟩ := List.mem_map.1 hs
  rw [Scalar.minNum_real, Scalar.literal_zero]
  exact min_le_right _ _

/-- A step leads to an admissible place. -/
lemma Place.Admissible.step (hplace : place.Admissible problem duals)
    (hstep : (Descent.ofProblem problem duals rate tolerance).step place = .ok (next, size)) :
    next.Admissible problem duals := by
  obtain ⟨hinBox, hnonpos⟩ := Descent.feasible_of_step hstep
  exact ⟨hinBox, fun p hp => (Descent.length_slack_of_step hstep).trans (hplace.slackFits p hp),
    hnonpos⟩

/-- Wherever the steps of a descent lead, the place is admissible. -/
lemma Descent.Reaches.admissible
    (hreaches : (Descent.ofProblem problem duals rate tolerance).Reaches (.first problem) place)
    (hstart : Vec.InBox problem.lower problem.upper problem.start) :
    place.Admissible problem duals := by
  induction hreaches with
  | start => exact Place.admissible_first hstart
  | step reached stepped ih => exact ih.step stepped

/-! ## One step -/

/-- Against constraints the gradient has an entry for each variable, if it moves a point. -/
lemma length_of_gradient (hproblem : problem.WellFormed) (hduals : duals.Fit problem)
    (hconstrained : problem.isConstrained = true) {x slack gradient moved : Vec ℝ} {a : ℝ}
    (hx : x.length = problem.dimension)
    (hgradient : (Lagrangian.ofProblem problem duals).gradient x slack = .ok gradient)
    (hmoved : x.shiftScaled a gradient = .ok moved) : gradient.length = problem.dimension := by
  have hblock : (Lagrangian.ofProblem problem duals).equality.isSome ∨
      (Lagrangian.ofProblem problem duals).inequality.isSome := by
    by_contra hnone
    simp only [not_or, Option.not_isSome_iff_eq_none] at hnone
    have hequalities := Lagrangian.block_eq_none_of_penalized hduals.equality hnone.1
    have hinequalities := Lagrangian.block_eq_none_of_penalized hduals.inequality hnone.2
    simp [Problem.isConstrained, hequalities, hinequalities] at hconstrained
  obtain ⟨g, pull, hpull, hshift⟩ := Lagrangian.exists_shift_of_gradient
    (Lagrangian.fits_ofProblem hproblem hduals) hgradient hblock
  have hlength := Vec.length_of_zipOnto hshift
  rcases Vec.length_eq_or_of_zipOnto hshift with hsame | hsingle
  · omega
  · -- a single pull means a single variable, and its point is moved by single entries only
    rcases Vec.length_eq_or_of_zipOnto hmoved with hsame | hsingle' <;> omega

/-- Seen from where a projected step ends, the rest of the step lies away from the box. -/
lemma obtuse_of_projectOntoBox {n : ℕ} {lower upper x gradient moved x' y : Vec ℝ}
    (hy : Vec.InBox lower upper y) (hlower : lower.length = n) (hgradient : gradient.length = n)
    (hmoved : x.shiftScaled (-rate) gradient = .ok moved)
    (hproject : projectOntoBox lower upper moved = .ok x') :
    0 ≤ (Vec.displacement n x x' + rate • Vec.coords n gradient) ⬝ᵥ Vec.displacement n x' y := by
  obtain ⟨⟨hmovedn, -⟩, hcoords⟩ := coords_of_projectOntoBox hproject hlower
  have hxn : x.length = n := (Vec.length_of_zipOnto hmoved).symm.trans hmovedn
  rw [Vec.shiftScaled, Vec.zipOnto_of_length_eq (hxn.trans hgradient.symm)] at hmoved
  obtain rfl := Except.ok.inj hmoved
  refine Finset.sum_nonneg fun i _ => ?_
  obtain ⟨hle, hclamp⟩ := hcoords i
  have hobtuse := clamp_obtuse hle (hy.coords_mem_Icc hlower i)
    (Vec.coords n x i + -rate * Vec.coords n gradient i)
  rw [Vec.coords_zipWith hxn hgradient] at hclamp
  simp only [Vec.displacement, Pi.add_apply, Pi.sub_apply, Pi.smul_apply, smul_eq_mul]
  rw [← hclamp] at hobtuse
  linarith

/-- Seen from where a step of the slack is cut off, the rest of the step lies away from all slacks
of at most zero. -/
lemma obtuse_of_cut {n : ℕ} {slack gradient moved slack' t : Vec ℝ} (ht : t.length = n)
    (hnonpos : ∀ s ∈ t, s ≤ 0) (hlength : slack.length = n) (hgradient : gradient.length = n)
    (hmoved : slack.shiftScaled (-rate) gradient = .ok moved)
    (hslack : slack' = moved.map fun s => Scalar.minNum s 0.0) :
    0 ≤ (Vec.displacement n slack slack' + rate • Vec.coords n gradient) ⬝ᵥ
      Vec.displacement n slack' t := by
  rw [Vec.shiftScaled, Vec.zipOnto_of_length_eq (hlength.trans hgradient.symm)] at hmoved
  obtain rfl := Except.ok.inj hmoved
  refine Finset.sum_nonneg fun i _ => ?_
  have hobtuse := min_obtuse (hnonpos _ (Vec.coords_mem ht i))
    (Vec.coords n slack i + -rate * Vec.coords n gradient i)
  have hcut : Vec.coords n slack' i =
      min (Vec.coords n slack i + -rate * Vec.coords n gradient i) 0 := by
    rw [hslack, Vec.coords_map (by simp [hlength, hgradient]),
      Vec.coords_zipWith hlength hgradient, Scalar.minNum_real, Scalar.literal_zero]
  simp only [Vec.displacement, Pi.add_apply, Pi.sub_apply, Pi.smul_apply, smul_eq_mul]
  rw [← hcut] at hobtuse
  linarith

/-- A step goes down by its square over the rate if, seen from its end, what the projection took
away lies away from its start. -/
lemma dotProduct_le_of_obtuse {n : ℕ} {gradient v w : Vec ℝ} (hrate : 0 < rate)
    (h : 0 ≤ (Vec.displacement n v w + rate • Vec.coords n gradient) ⬝ᵥ Vec.displacement n w v) :
    Vec.coords n gradient ⬝ᵥ Vec.displacement n v w ≤
      -(1 / rate * (Vec.displacement n v w ⬝ᵥ Vec.displacement n v w)) := by
  have hback : Vec.displacement n w v = -Vec.displacement n v w := (neg_sub _ _).symm
  rw [hback, dotProduct_neg, add_dotProduct, smul_dotProduct, smul_eq_mul] at h
  rw [one_div, ← div_eq_inv_mul, ← neg_div, le_div_iff₀ hrate]
  linarith

/-- A projected step goes down along the point by its square over the rate. -/
lemma dotProduct_displacement_le {n : ℕ} {lower upper x gradient moved x' : Vec ℝ}
    (hrate : 0 < rate) (hx : Vec.InBox lower upper x) (hlower : lower.length = n)
    (hgradient : gradient.length = n) (hmoved : x.shiftScaled (-rate) gradient = .ok moved)
    (hproject : projectOntoBox lower upper moved = .ok x') :
    Vec.coords n gradient ⬝ᵥ Vec.displacement n x x' ≤
      -(1 / rate * (Vec.displacement n x x' ⬝ᵥ Vec.displacement n x x')) :=
  dotProduct_le_of_obtuse hrate (obtuse_of_projectOntoBox hx hlower hgradient hmoved hproject)

/-- A step of the slack that is cut off at zero goes down by its square over the rate. -/
lemma dotProduct_slackDisplacement_le {n : ℕ} {slack gradient moved slack' : Vec ℝ}
    (hrate : 0 < rate) (hlength : slack.length = n) (hnonpos : ∀ s ∈ slack, s ≤ 0)
    (hgradient : gradient.length = n) (hmoved : slack.shiftScaled (-rate) gradient = .ok moved)
    (hslack : slack' = moved.map fun s => Scalar.minNum s 0.0) :
    Vec.coords n gradient ⬝ᵥ Vec.displacement n slack slack' ≤
      -(1 / rate * (Vec.displacement n slack slack' ⬝ᵥ Vec.displacement n slack slack')) :=
  dotProduct_le_of_obtuse hrate (obtuse_of_cut hlength hnonpos hlength hgradient hmoved hslack)

variable {radius : ConstraintBlock ℝ → Checked ℝ} {smoothness : ℝ}

/-- In a step what the inequalities add changes at most by its first order in the point and half of
the smoothness coefficient and their own curvature, if the coefficient covers the slack. -/
lemma Place.Admissible.inequality_le_of_step (hplace : place.Admissible problem duals)
    (hproblem : problem.WellFormed) (hduals : duals.Fit problem)
    (hinequalities : ∀ block ∈ problem.inequalities, block.BoundedBy radius) (hpos : 0 < smoothness)
    (hcovers : problem.CoversSlack smoothness radius) {slackGradient movedSlack slack' : Vec ℝ}
    (hgradient : (Lagrangian.ofProblem problem duals).slackGradient place.x place.slack =
      .ok slackGradient)
    (hmoved : place.slack.shiftScaled (-(1 / smoothness)) slackGradient = .ok movedSlack)
    (hslack : slack' = movedSlack.map fun s => Scalar.minNum s 0.0) {c : ℝ}
    (hc : Problem.blockSmoothness problem.inequalities problem.inequalityPenalty radius = .ok c)
    (x' : Vec ℝ) :
    (Lagrangian.ofProblem problem duals).inequality.elim 0
        (fun p => p.term (p.residualAt problem.dimension x' slack')) -
      (Lagrangian.ofProblem problem duals).inequality.elim 0
        (fun p => p.term (p.residualAt problem.dimension place.x place.slack)) -
      (Lagrangian.ofProblem problem duals).inequality.elim 0
        (fun p => p.pull problem.dimension (p.residualAt problem.dimension place.x place.slack)) ⬝ᵥ
          Vec.displacement _ place.x x' ≤
      (smoothness + c) / 2 *
        (Vec.displacement problem.dimension place.x x' ⬝ᵥ Vec.displacement _ place.x x') := by
  cases hi : (Lagrangian.ofProblem problem duals).inequality with
  | none =>
    rw [Lagrangian.block_eq_none_of_penalized hduals.inequality hi,
      Lagrangian.blockSmoothness_none_eq_ok] at hc
    have hsquare := Vec.dotProduct_self_nonneg (Vec.displacement problem.dimension place.x x')
    simp only [Option.elim_none, zero_dotProduct, sub_zero, ← hc, add_zero]
    positivity
  | some p =>
    have hp := (Lagrangian.fits_ofProblem hproblem hduals).inequality p hi
    obtain ⟨hlength, hcoords⟩ :=
      Lagrangian.coords_of_slackGradient hi hp (hplace.slackFits p hi) hgradient
    have hstep := dotProduct_slackDisplacement_le (one_div_pos.2 hpos) (hplace.slackFits p hi)
      hplace.nonpos hlength hmoved hslack
    have hpaid : smoothness * (Vec.displacement p.block.matrix.height place.slack slack' ⬝ᵥ
          Vec.displacement _ place.slack slack') ≤
        p.weight (p.residualAt problem.dimension place.x place.slack) ⬝ᵥ
          Vec.displacement _ place.slack slack' := by
      rw [← neg_le_neg_iff, ← neg_dotProduct, ← hcoords]
      exact hstep.trans_eq (by rw [one_div_one_div]; rfl)
    obtain ⟨block, hblock, dual, -, rfl⟩ := Lagrangian.mem_penalized.1 hi
    obtain ⟨-, hpenalty, -⟩ := Lagrangian.penalty_nonneg hproblem
    rw [Option.mem_def.1 hblock, Lagrangian.blockSmoothness_some_eq_ok] at hc
    obtain ⟨r, hr, rfl⟩ := hc
    have hjoint := PenalizedBlock.term_joint_le hp (hinequalities block hblock) hpenalty hr hpos
      (Scalar.literal_two ▸ hcovers block hblock r hr) hpaid x'
    simp only [Option.elim_some]
    linarith

/-- From an admissible place a step at the reciprocal of the smoothness coefficient does not
increase the Lagrangian, if the coefficient covers the slack. -/
lemma Place.Admissible.value_le_of_step (hplace : place.Admissible problem duals)
    (hproblem : problem.WellFormed) (hduals : duals.Fit problem)
    (hconstrained : problem.isConstrained = true)
    (hobjective : problem.objective.SmoothOn problem.lower problem.upper problem.smoothness)
    (hequalities : ∀ block ∈ problem.equalities, block.BoundedBy radius)
    (hinequalities : ∀ block ∈ problem.inequalities, block.BoundedBy radius)
    (hsmoothness : problem.effectiveSmoothness radius = .ok smoothness)
    (hcovers : problem.CoversSlack smoothness radius)
    (hstep : (Descent.ofProblem problem duals (1.0 / smoothness) tolerance).step place =
      .ok (next, size)) {v v' : ℝ}
    (hvalue : (Lagrangian.ofProblem problem duals).value place.x place.slack = .ok v)
    (hvalue' : (Lagrangian.ofProblem problem duals).value next.x next.slack = .ok v') :
    v' ≤ v := by
  have hpos := Lagrangian.effectiveSmoothness_pos_of_radius hproblem
    (fun block hblock r hr => (hequalities block hblock r hr).1)
    (fun block hblock r hr => (hinequalities block hblock r hr).1) hsmoothness
  have hnext := hplace.step hstep
  obtain ⟨gradient, slackGradient, moved, movedSlack, hgradient, hslackGradient, hmoved, hproject,
    hmovedSlack, hslack⟩ := Descent.step_eq_ok hstep
  simp only [Descent.ofProblem, Scalar.literal_one] at *
  have hlength := length_of_gradient hproblem hduals hconstrained hplace.inBox.length_eq hgradient
    hmoved
  have hpoint := dotProduct_displacement_le (n := problem.dimension) (one_div_pos.2 hpos)
    hplace.inBox rfl hlength hmoved hproject
  rw [one_div_one_div] at hpoint
  obtain ⟨c, c', hc, hc', hsum⟩ := Lagrangian.effectiveSmoothness_eq_ok.1 hsmoothness
  have hle := Lagrangian.value_le hproblem hduals hobjective hequalities hc hplace.slackFits
    hnext.slackFits hplace.inBox hnext.inBox hvalue hgradient hlength hvalue'
  have hinequality := hplace.inequality_le_of_step hproblem hduals hinequalities hpos hcovers
    hslackGradient hmovedSlack hslack hc' next.x
  -- half of the descent along the point pays for objective and equations, half for inequalities
  subst hsum
  linarith

end HopfieldDescent.InnerDescent

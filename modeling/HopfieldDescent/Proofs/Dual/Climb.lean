import Mathlib
import HopfieldDescent.Proofs.Config.Accepted
import HopfieldDescent.Proofs.Dual.InnerDescends
import HopfieldDescent.Proofs.Dual.Settled
import HopfieldDescent.Proofs.Dual.Total

/-!
# Where the dual ascent ends

In exact arithmetic an update of the duals is described without the program that computes it: the
duals of each block move along the residual of the point to which the inner descent leads, by the
penalty and shortened once for each update before, and those of inequalities are cut off at zero.
`Course` is a sequence of such updates with the sizes of their moves, and `course_iff` identifies it
with the run of the ascent.

The climb keeps one pair of duals.  What it has kept after `n` updates is known from the sizes of
all of them: the duals after the first one of the smallest moves (`Kept.keep`).  The two ends of the
climb follow (`estimate_of_course`).
-/

namespace HopfieldDescent

namespace DualAscent

/-! ## Updates in exact arithmetic -/

/-- How far an update goes along the residual, if `j` others came before it: by the penalty, or by
one in place of zero, and shortened `j` times. -/
noncomputable def stride (penalty decay : ℝ) (j : ℕ) : ℝ :=
  (if penalty = 0 then 1 else penalty) * decay ^ j

/-- One update of the duals of a problem, if `j` others came before it.  The inner descent at the
duals `before` has led from the start point and slack zero to `x` and `slack`. -/
structure Updates (problem : Problem ℝ) (settings : DualAscentSettings ℝ) (j : ℕ)
    (before : DualVariables ℝ) (x slack : Vec ℝ) (after : DualVariables ℝ) : Prop where
  /-- The Lagrangian has been minimised at the reciprocal of the smoothness coefficient. -/
  minimized : ∃ smoothness, problem.effectiveSmoothness = .ok smoothness ∧
    InnerDescent.minimize problem before (1 / smoothness) settings = .ok ⟨x, slack⟩
  /-- The duals of the equations move along the residual. -/
  equality : ∀ block ∈ problem.equalities, ∃ dual ∈ before.equality, ∃ residual,
    block.residual x = .ok residual ∧
      after.equality = some (List.zipWith
        (fun v c => v + stride problem.equalityPenalty settings.stepDecay j * c) dual residual)
  /-- The duals of the inequalities move along the residual, measured from the slack, and are cut
  off at zero. -/
  inequality : ∀ block ∈ problem.inequalities, ∃ dual ∈ before.inequality, ∃ residual,
    block.residual x = .ok residual ∧
      after.inequality = some (List.zipWith
        (fun v c => max 0 (v + stride problem.inequalityPenalty settings.stepDecay j * c)) dual
        (List.zipWith (· - ·) residual slack))
  /-- Without equations there are no duals for them. -/
  equality_eq_none : problem.equalities = none → after.equality = none
  /-- Without inequalities there are no duals for them. -/
  inequality_eq_none : problem.inequalities = none → after.inequality = none

/-- How far the duals of each block that is there have moved. -/
def blockMoves (before after : DualVariables ℝ) : Set ℝ :=
  {size | (∃ v ∈ before.equality, ∃ w ∈ after.equality,
      size = Vec.norm (List.zipWith (· - ·) w v)) ∨
    ∃ v ∈ before.inequality, ∃ w ∈ after.inequality, size = Vec.norm (List.zipWith (· - ·) w v)}

/-- The first `n` updates of an ascent: `duals j` are the duals after `j` of them, and `moves j` is
the largest move of a block in the update with the number `j`, counted from one on. -/
structure Course (problem : Problem ℝ) (settings : DualAscentSettings ℝ)
    (duals : ℕ → DualVariables ℝ) (moves : ℕ → ℝ) (n : ℕ) : Prop where
  /-- The duals of the equations start from one value. -/
  equality : (duals 0).equality =
    problem.equalities.map fun block => List.replicate block.height settings.initialDual
  /-- The duals of the inequalities start from the same value. -/
  inequality : (duals 0).inequality =
    problem.inequalities.map fun block => List.replicate block.height settings.initialDual
  /-- Each update leads from the duals before it to those after it. -/
  updates : ∀ j < n, ∃ x slack, Updates problem settings j (duals j) x slack (duals (j + 1))
  /-- The largest move of each update. -/
  moves : ∀ j < n, IsGreatest (blockMoves (duals j) (duals (j + 1))) (moves (j + 1))

section

variable {problem : Problem ℝ} {settings : DualAscentSettings ℝ} {ascent : Ascent ℝ}
  {duals : ℕ → DualVariables ℝ} {moves : ℕ → ℝ} {before after : DualVariables ℝ} {j k n : ℕ}

/-- The step length of the ascent after `j` updates. -/
lemma stepLength_mul_pow (penalty decay : ℝ) (j : ℕ) :
    stepLength penalty * decay ^ j = stride penalty decay j := by
  simp [stepLength, stride]

/-- A block of a problem moves its duals along what is measured of it; an absent one has none. -/
lemma exists_raised_iff {block : Option (ConstraintBlock ℝ)} {dual after : Option (Vec ℝ)}
    {penalty : ℝ} (hfit : dual.map List.length = block.map ConstraintBlock.height)
    {measured : Option (Vec ℝ) → Prop} {measure : PenalizedBlock ℝ → Checked (Vec ℝ)}
    {move : Vec ℝ → Checked (Vec ℝ)}
    (hmeasured : ∀ residual, measured residual ↔
      (∀ p ∈ Lagrangian.penalized block dual penalty,
        ∃ r, measure p = .ok r ∧ some r = residual) ∧
      (Lagrangian.penalized block dual penalty = none → residual = none)) :
    (∃ residual, measured residual ∧ raised move residual = .ok after) ↔
      (∀ b ∈ block, ∃ d ∈ dual, ∃ r, measure ⟨b, d, penalty⟩ = .ok r ∧
        ∃ v, move r = .ok v ∧ some v = after) ∧ (block = none → after = none) := by
  simp only [hmeasured]
  rcases block with _ | b
  · simp [Lagrangian.penalized, raised, eq_comm]
  · obtain ⟨d, rfl, -⟩ := Option.map_eq_some_iff.1 hfit
    simp only [Lagrangian.penalized, Option.mem_def, Option.some.injEq,
      forall_eq', exists_eq_left', reduceCtorEq, false_implies, and_true]
    constructor
    · rintro ⟨_, ⟨r, hr, rfl⟩, h⟩
      exact ⟨r, hr, Outcome.map_eq_ok.1 h⟩
    · rintro ⟨r, hr, v, hv, rfl⟩
      exact ⟨some r, ⟨r, hr, rfl⟩, Outcome.map_eq_ok.2 ⟨v, hv, rfl⟩⟩

/-- A move along a residual with an entry for each dual. -/
lemma raisedEquality_eq {d r : Vec ℝ} (length : ℝ) (h : d.length = r.length) :
    raisedEquality length (some d) r = .ok (List.zipWith (fun v c => v + length * c) d r) :=
  Vec.zipOnto_of_length_eq h

/-- A move along a residual with an entry for each dual, cut off at zero. -/
lemma raisedInequality_eq {d r : Vec ℝ} (length : ℝ) (h : d.length = r.length) :
    raisedInequality length (some d) r =
      .ok (List.zipWith (fun v c => max 0 (v + length * c)) d r) := by
  simp only [raisedInequality, Option.getD_some, Vec.shiftScaled, Vec.zipOnto_of_length_eq h,
    Outcome.ok_bind, List.map_zipWith, Scalar.maxNum_real, Scalar.literal_zero, max_comm _ (0 : ℝ)]
  rfl

/-- The duals of the equations after a move along their residual. -/
lemma exists_raisedEquality_iff (hproblem : problem.WellFormed) (hbefore : before.Fit problem)
    {x : Vec ℝ} {equality : Option (Vec ℝ)} :
    (∃ residual, (Lagrangian.ofProblem problem before).equalityResidual x = .ok residual ∧
      raised (raisedEquality (stepLength problem.equalityPenalty * settings.stepDecay ^ j)
        before.equality) residual = .ok equality) ↔
    (∀ block ∈ problem.equalities, ∃ dual ∈ before.equality, ∃ residual,
      block.residual x = .ok residual ∧ equality = some (List.zipWith
        (fun v c => v + stride problem.equalityPenalty settings.stepDecay j * c) dual residual)) ∧
    (problem.equalities = none → equality = none) := by
  refine (exists_raised_iff hbefore.equality fun _ => Lagrangian.equalityResidual_eq_ok).trans ?_
  refine and_congr_left fun _ => forall₂_congr fun b hb => exists_congr fun d =>
    and_congr_right fun hd => exists_congr fun r => and_congr_right fun hr => ?_
  have hp := (Lagrangian.fits_ofProblem hproblem hbefore).equality _
    (Lagrangian.mem_penalized.2 ⟨b, hb, d, hd, rfl⟩)
  obtain ⟨-, hlength, -⟩ := PenalizedBlock.residual_eq_ok hp hr
  rw [Option.mem_def.1 hd, raisedEquality_eq _ (hp.length_dual.trans hlength.symm)]
  simp [stepLength_mul_pow, eq_comm]

/-- The duals of the inequalities after a move along their residual, measured from the slack. -/
lemma exists_raisedInequality_iff (hproblem : problem.WellFormed) (hbefore : before.Fit problem)
    {x slack : Vec ℝ} (hslack : slack.length = problem.slackDimension)
    {inequality : Option (Vec ℝ)} :
    (∃ residual, (Lagrangian.ofProblem problem before).inequalityResidual x slack = .ok residual ∧
      raised (raisedInequality (stepLength problem.inequalityPenalty * settings.stepDecay ^ j)
        before.inequality) residual = .ok inequality) ↔
    (∀ block ∈ problem.inequalities, ∃ dual ∈ before.inequality, ∃ residual,
      block.residual x = .ok residual ∧ inequality = some (List.zipWith
        (fun v c => max 0 (v + stride problem.inequalityPenalty settings.stepDecay j * c)) dual
        (List.zipWith (· - ·) residual slack))) ∧
    (problem.inequalities = none → inequality = none) := by
  refine (exists_raised_iff hbefore.inequality
    fun _ => Lagrangian.inequalityResidual_eq_ok).trans ?_
  refine and_congr_left fun _ => forall₂_congr fun b hb => exists_congr fun d =>
    and_congr_right fun hd => ?_
  have hp := (Lagrangian.fits_ofProblem hproblem hbefore).inequality _
    (Lagrangian.mem_penalized.2 ⟨b, hb, d, hd, rfl⟩)
  have hheight : slack.length = b.height := by
    rw [hslack, Problem.slackDimension, Option.mem_def.1 hb]
  have hmove {r : Vec ℝ} (hr : b.residual x = .ok r) (v : Vec ℝ) :
      raisedInequality (stepLength problem.inequalityPenalty * settings.stepDecay ^ j)
        before.inequality (List.zipWith (· - ·) r slack) = .ok v ↔ List.zipWith
          (fun v c => max 0 (v + stride problem.inequalityPenalty settings.stepDecay j * c)) d
          (List.zipWith (· - ·) r slack) = v := by
    obtain ⟨-, hlength, -⟩ := PenalizedBlock.residual_eq_ok hp hr
    rw [Option.mem_def.1 hd, stepLength_mul_pow, raisedInequality_eq]
    · simp
    · simp [hp.length_dual, hlength, hheight]
  have hsub {r : Vec ℝ} (hr : b.residual x = .ok r) :
      Vec.sub r slack = .ok (List.zipWith (· - ·) r slack) := by
    obtain ⟨-, hlength, -⟩ := PenalizedBlock.residual_eq_ok hp hr
    exact Vec.zipSpread_of_length_eq (hlength.trans hheight.symm)
  simp only [PenalizedBlock.slackResidual, Outcome.bind_eq_ok]
  constructor
  · rintro ⟨_, ⟨r, hr, hr'⟩, v, hv, rfl⟩
    obtain rfl := Except.ok.inj ((hsub hr).symm.trans hr')
    exact ⟨r, hr, congrArg some ((hmove hr v).1 hv).symm⟩
  · rintro ⟨r, hr, rfl⟩
    exact ⟨_, ⟨r, hr, hsub hr⟩, _, (hmove hr _).2 rfl, rfl⟩

/-- One update of the ascent of a problem, as its parts. -/
lemma Ascent.update_eq_ok_iff (hproblem : problem.WellFormed) (hbefore : before.Fit problem)
    (hascent : Ascent.ofProblem problem settings = .ok ascent) :
    ascent.update before (settings.stepDecay ^ j) = .ok after ↔
      ∃ x slack, Updates problem settings j before x slack after := by
  obtain ⟨smoothness, hsmoothness, hparts⟩ := Outcome.bind_eq_ok.1 hascent
  obtain rfl := Outcome.pure_eq_ok.1 hparts
  simp only [Ascent.update, Outcome.bind_eq_ok, Outcome.pure_eq_ok, Scalar.literal_one]
  constructor
  · rintro ⟨⟨x, slack⟩, hminimize, r, hr, equality, heq, r', hr', inequality, hineq, rfl⟩
    have hequality := (exists_raisedEquality_iff hproblem hbefore).1 ⟨r, hr, heq⟩
    have hinequality := (exists_raisedInequality_iff hproblem hbefore
      (InnerDescent.length_slack_of_minimize hminimize)).1 ⟨r', hr', hineq⟩
    exact ⟨x, slack, ⟨smoothness, hsmoothness, hminimize⟩, hequality.1, hinequality.1,
      hequality.2, hinequality.2⟩
  · rintro ⟨x, slack, ⟨smoothness', hsmoothness', hminimize⟩, hequality, hinequality, hfree,
      hfree'⟩
    obtain rfl := Except.ok.inj (hsmoothness.symm.trans hsmoothness')
    obtain ⟨r, hr, heq⟩ := (exists_raisedEquality_iff hproblem hbefore).2 ⟨hequality, hfree⟩
    obtain ⟨r', hr', hineq⟩ := (exists_raisedInequality_iff hproblem hbefore
      (InnerDescent.length_slack_of_minimize hminimize)).2 ⟨hinequality, hfree'⟩
    exact ⟨⟨x, slack⟩, hminimize, r, hr, _, heq, r', hr', _, hineq, rfl⟩

/-! ## The size of an update -/

/-- The move of one block, which is zero only if the block is absent. -/
lemma blockMove_iff {before after : Option (Vec ℝ)}
    (hfit : before.map List.length = after.map List.length) {c : ℝ}
    (h : blockChange before after = .ok c) :
    0 ≤ c ∧ (before.isSome = false → c = 0) ∧ ∀ size, (∃ v ∈ before, ∃ w ∈ after,
      size = Vec.norm (List.zipWith (· - ·) w v)) ↔ before.isSome = true ∧ size = c := by
  rcases before with _ | v <;> rcases after with _ | w
  · obtain rfl := Except.ok.inj h
    simp
  · simp at hfit
  · simp at hfit
  · have hlength : w.length = v.length := (Option.some.inj hfit).symm
    simp only [blockChange, Vec.sub, Vec.zipSpread_of_length_eq hlength, Outcome.ok_bind,
      Outcome.pure_eq_ok] at h
    subst h
    simp [Vec.norm]

/-- The larger of the moves of the two blocks is the largest move of a block. -/
lemma isGreatest_blockMoves (hconstrained : problem.isConstrained = true)
    (hbefore : before.Fit problem) (hafter : after.Fit problem) {c c' : ℝ}
    (hequality : blockChange before.equality after.equality = .ok c)
    (hinequality : blockChange before.inequality after.inequality = .ok c') :
    IsGreatest (blockMoves before after) (Scalar.maxNum c c') := by
  obtain ⟨hc, hfree, hmoves⟩ :=
    blockMove_iff (hbefore.equality.trans hafter.equality.symm) hequality
  obtain ⟨hc', hfree', hmoves'⟩ :=
    blockMove_iff (hbefore.inequality.trans hafter.inequality.symm) hinequality
  have hsome : before.equality.isSome = true ∨ before.inequality.isSome = true := by
    have hequalities := congrArg Option.isSome hbefore.equality
    have hinequalities := congrArg Option.isSome hbefore.inequality
    simp only [Option.isSome_map] at hequalities hinequalities
    rw [hequalities, hinequalities]
    simpa [Problem.isConstrained] using hconstrained
  rw [Scalar.maxNum_real]
  constructor
  · rw [blockMoves, Set.mem_ofPred_eq, hmoves, hmoves']
    rcases le_total c c' with hle | hle
    · rw [max_eq_right hle]
      by_cases hblock : before.inequality.isSome = true
      · exact .inr ⟨hblock, rfl⟩
      · -- the inequalities are absent, and so both moves are zero
        have := hfree' (by simpa using hblock)
        exact .inl ⟨hsome.resolve_right hblock, by linarith⟩
    · rw [max_eq_left hle]
      by_cases hblock : before.equality.isSome = true
      · exact .inl ⟨hblock, rfl⟩
      · have := hfree (by simpa using hblock)
        exact .inr ⟨hsome.resolve_left hblock, by linarith⟩
  · rintro size hsize
    rw [blockMoves, Set.mem_ofPred_eq, hmoves, hmoves'] at hsize
    rcases hsize with ⟨-, rfl⟩ | ⟨-, rfl⟩
    · exact le_max_left _ _
    · exact le_max_right _ _

/-- A course is the run of the ascent: the duals after each update, and the size of each. -/
lemma course_iff (hproblem : problem.WellFormed) (hconstrained : problem.isConstrained = true)
    (hascent : Ascent.ofProblem problem settings = .ok ascent) :
    Course problem settings duals moves n ↔
      (∀ k ≤ n, ascent.updated k = .ok (duals k, settings.stepDecay ^ k)) ∧
      ∀ j < n, change (duals j) (duals (j + 1)) = .ok (moves (j + 1)) := by
  obtain ⟨hparts, hsettings⟩ := Ascent.eq_of_ofProblem hascent
  -- the largest move is the one compared with the tolerance, as soon as the duals fit
  have hsize {before after : DualVariables ℝ} (hbefore : before.Fit problem)
      (hafter : after.Fit problem) (size : ℝ) :
      IsGreatest (blockMoves before after) size ↔ change before after = .ok size := by
    obtain ⟨found, hchange, -⟩ := returns_change hbefore hafter
    obtain ⟨c, c', hequality, hinequality, rfl⟩ := change_eq_ok.1 hchange
    have hgreatest := isGreatest_blockMoves hconstrained hbefore hafter hequality hinequality
    rw [hchange, Except.ok.injEq]
    exact ⟨hgreatest.unique, fun h => h ▸ hgreatest⟩
  have hfit {k : ℕ} {decay : ℝ} (h : ascent.updated k = .ok (duals k, decay)) :
      (duals k).Fit problem := hparts ▸ Ascent.fit_updated h
  constructor
  · intro hcourse
    have hupdated : ∀ k ≤ n, ascent.updated k = .ok (duals k, settings.stepDecay ^ k) := by
      intro k
      induction k with
      | zero =>
        have hinitial : initialDuals problem settings = duals 0 := by
          simp only [initialDuals, initialDual, ← hcourse.equality, ← hcourse.inequality]
        intro _
        rw [Ascent.updated, hparts, hsettings, hinitial, Scalar.literal_one, pow_zero]
      | succ k ih =>
        intro hk
        have hbefore := ih (by omega)
        refine Ascent.updated_succ.2 ⟨_, hbefore, ?_, by rw [hsettings, pow_succ]⟩
        exact (Ascent.update_eq_ok_iff hproblem (hfit hbefore) hascent).2
          (hcourse.updates k (by omega))
    exact ⟨hupdated, fun j hj => (hsize (hfit (hupdated j hj.le))
      (hfit (hupdated (j + 1) hj)) _).1 (hcourse.moves j hj)⟩
  · rintro ⟨hupdated, hchange⟩
    have hinitial : initialDuals problem settings = duals 0 := by
      have := hupdated 0 (Nat.zero_le n)
      rw [Ascent.updated, hparts, hsettings] at this
      exact (Prod.mk.inj (Except.ok.inj this)).1
    refine ⟨by rw [← hinitial]; rfl, by rw [← hinitial]; rfl, fun j hj => ?_, fun j hj =>
      (hsize (hfit (hupdated j hj.le)) (hfit (hupdated (j + 1) hj)) _).2 (hchange j hj)⟩
    obtain ⟨before, hbefore, hupdate, -⟩ := Ascent.updated_succ.1 (hupdated (j + 1) hj)
    obtain rfl := Except.ok.inj (hbefore.symm.trans (hupdated j hj.le))
    exact (Ascent.update_eq_ok_iff hproblem (hfit hbefore) hascent).1 hupdate

/-- The updates of an ascent never break off. -/
lemma exists_course (hproblem : problem.WellFormed) (hconstrained : problem.isConstrained = true)
    (hobjective : problem.objective.ReturnsOn problem.dimension)
    (hascent : Ascent.ofProblem problem settings = .ok ascent) :
    ∃ duals moves, ∀ n, Course problem settings duals moves n := by
  obtain ⟨rfl, rfl⟩ := Ascent.eq_of_ofProblem hascent
  have hupdated (k : ℕ) :
      ∃ duals, ascent.updated k = .ok (duals, ascent.settings.stepDecay ^ k) := by
    induction k with
    | zero => exact ⟨_, by rw [Ascent.updated, Scalar.literal_one, pow_zero]⟩
    | succ k ih =>
      obtain ⟨duals, hduals⟩ := ih
      obtain ⟨duals', hupdate, -⟩ :=
        Ascent.returns_update hproblem hobjective (Ascent.fit_updated hduals) _
      exact ⟨duals', Ascent.updated_succ.2 ⟨_, hduals, hupdate, pow_succ _ _⟩⟩
  choose duals hduals using hupdated
  have hsize (j : ℕ) : ∃ size, change (duals j) (duals (j + 1)) = .ok size := by
    obtain ⟨size, hsize, -⟩ :=
      returns_change (Ascent.fit_updated (hduals j)) (Ascent.fit_updated (hduals (j + 1)))
    exact ⟨size, hsize⟩
  choose sizes hsizes using hsize
  refine ⟨duals, fun k => sizes (k - 1), fun n => ?_⟩
  exact (course_iff hproblem hconstrained hascent).2
    ⟨fun k _ => hduals k, fun j _ => by simpa using hsizes j⟩

/-! ## The smallest move -/

/-- The first one of the smallest moves with the numbers from one to `n`. -/
def FirstSmallest (moves : ℕ → ℝ) (n : ℕ) : ℕ → Prop :=
  IsLeast {j | j ∈ Set.Icc 1 n ∧ ∀ i ∈ Set.Icc 1 n, moves j ≤ moves i}

/-- What has been kept after `n` updates: nothing before the first one, and then the first one of
the smallest moves, with the duals after it. -/
def Kept (duals : ℕ → DualVariables ℝ) (moves : ℕ → ℝ) (n : ℕ) (best : Option (Best ℝ)) : Prop :=
  (n = 0 ∧ best = none) ∨ ∃ j, FirstSmallest moves n j ∧ best = some ⟨moves j, duals j⟩

/-- The number of a smallest move among the first ones is one of theirs, and its move is the
smallest. -/
lemma firstSmallest_iff {moves : ℕ → ℝ} : FirstSmallest moves n j ↔
    (1 ≤ j ∧ j ≤ n) ∧ (∀ i, 1 ≤ i → i ≤ n → moves j ≤ moves i) ∧
      ∀ i, 1 ≤ i → i < j → moves j < moves i := by
  constructor
  · rintro ⟨⟨⟨hj, hjn⟩, hle⟩, hfirst⟩
    refine ⟨⟨hj, hjn⟩, fun i hi hin => hle i ⟨hi, hin⟩, fun i hi hij => ?_⟩
    by_contra hnot
    have hi' : j ≤ i := hfirst ⟨⟨hi, by omega⟩, fun l hl => (not_lt.1 hnot).trans (hle l hl)⟩
    omega
  · rintro ⟨⟨hj, hjn⟩, hle, hlt⟩
    refine ⟨⟨⟨hj, hjn⟩, fun i hi => hle i hi.1 hi.2⟩, fun i hi => ?_⟩
    by_contra hnot
    have := hi.2 j ⟨hj, hjn⟩
    exact (hlt i hi.1.1 (by omega)).not_ge this

/-- Another update keeps the first one of the smallest moves. -/
lemma Kept.keep {best : Option (Best ℝ)} (h : Kept duals moves n best) :
    Kept duals moves (n + 1) (Best.keep best (moves (n + 1)) (duals (n + 1))) := by
  refine .inr ?_
  rcases h with ⟨rfl, rfl⟩ | ⟨j, hj, rfl⟩
  · refine ⟨1, firstSmallest_iff.2 ⟨by omega, fun i hi hi' => ?_, by omega⟩, ?_⟩
    · obtain rfl : i = 1 := by omega
      exact le_rfl
    · simp [Best.keep, isUnbounded]
  · obtain ⟨⟨hj, hjn⟩, hle, hlt⟩ := firstSmallest_iff.1 hj
    by_cases hkeep : moves j ≤ moves (n + 1)
    · refine ⟨j, firstSmallest_iff.2 ⟨by omega, fun i hi hi' => ?_, hlt⟩, if_pos hkeep⟩
      rcases hi'.eq_or_lt with rfl | hi'
      · exact hkeep
      · exact hle i hi (by omega)
    · -- a move that is smaller than the one kept is smaller than all before it
      have hbelow (i : ℕ) (hi : 1 ≤ i) (hi' : i ≤ n) : moves (n + 1) < moves i :=
        (not_le.1 hkeep).trans_le (hle i hi hi')
      refine ⟨n + 1, firstSmallest_iff.2 ⟨by omega, fun i hi hi' => ?_, fun i hi hi' =>
        hbelow i hi (by omega)⟩, if_neg hkeep⟩
      rcases hi'.eq_or_lt with rfl | hi'
      · exact le_rfl
      · exact (hbelow i hi (by omega)).le

/-! ## Where the climb ends -/

/-- A climb converges with the first update whose move is below the tolerance. -/
lemma Ascent.climb_of_first
    (hupdated : ∀ i ≤ k, ascent.updated i = .ok (duals i, ascent.settings.stepDecay ^ i))
    (hchange : ∀ j < k, change (duals j) (duals (j + 1)) = .ok (moves (j + 1)))
    (hfirst : IsLeast {k | k ∈ Set.Icc 1 n ∧ moves k < ascent.settings.tolerance} k)
    {progress : Progress ℝ} (hprogress : ascent.updated 0 = .ok (progress.duals, progress.decay)) :
    ∃ said, ascent.climb n 1 progress = .ok (⟨duals k, .converged k⟩, said) := by
  obtain ⟨⟨⟨hk, hkn⟩, hlt⟩, hleast⟩ := hfirst
  refine (climb_converged_iff hprogress).2 ⟨hk, by omega, ⟨_, hupdated k le_rfl⟩, fun j _ hj => ?_⟩
  obtain ⟨c, c', hequality, hinequality, hsize⟩ := change_eq_ok.1 (hchange j hj)
  refine ⟨c, c', ⟨_, _, hupdated j hj.le, hupdated (j + 1) hj, hequality, hinequality⟩, ?_⟩
  rw [Settles, ← Scalar.maxNum_lt_iff, hsize]
  constructor
  · intro hsmall
    have := hleast ⟨⟨by omega, by omega⟩, hsmall⟩
    omega
  · rintro rfl
    exact hlt

/-- From the duals after `m` updates on, a climb without a move below the tolerance ends with the
duals after the first one of the smallest moves. -/
lemma Ascent.climb_of_never (hpos : 0 < n)
    (hupdated : ∀ k ≤ n, ascent.updated k = .ok (duals k, ascent.settings.stepDecay ^ k))
    (hchange : ∀ j < n, change (duals j) (duals (j + 1)) = .ok (moves (j + 1)))
    (hnever : ∀ j < n, ¬moves (j + 1) < ascent.settings.tolerance) {m remaining : ℕ}
    (hn : m + remaining = n) {progress : Progress ℝ}
    (hprogress : ascent.updated m = .ok (progress.duals, progress.decay))
    (hkept : Kept duals moves m progress.best) :
    ∃ j, FirstSmallest moves n j ∧ ∃ said, ascent.climb remaining (m + 1) progress =
      .ok (⟨duals j, .notConverged ascent.settings.maxOuter⟩, said) := by
  induction remaining generalizing m progress with
  | zero =>
    obtain rfl : m = n := hn
    obtain ⟨rfl, -⟩ | ⟨j, hj, hbest⟩ := hkept
    · exact absurd hpos (lt_irrefl 0)
    · exact ⟨j, hj, _, by rw [climb, giveUp, hbest]; rfl⟩
  | succ remaining ih =>
    have hm : m < n := by omega
    obtain ⟨before, hbefore, hupdate, -⟩ := updated_succ.1 (hupdated (m + 1) hm)
    obtain rfl := Except.ok.inj (hbefore.symm.trans hprogress)
    obtain ⟨hduals, -⟩ := Prod.mk.inj (Except.ok.inj ((hupdated m hm.le).symm.trans hprogress))
    obtain ⟨c, c', hequality, hinequality, hsize⟩ := change_eq_ok.1 (hchange m hm)
    rw [hduals] at hequality hinequality
    have hsettles : ¬Settles ascent.settings.tolerance c c' :=
      fun h => hnever m hm (hsize ▸ Scalar.maxNum_lt_iff.2 h)
    obtain ⟨said, hon⟩ :=
      climb_of_not_settles remaining (m + 1) hupdate hequality hinequality hsettles
    rw [hon, hsize]
    exact ih (by omega) (updated_succ.2 ⟨_, hprogress, hupdate, rfl⟩) hkept.keep

/-- How the dual ascent ends on a constrained problem, in exact arithmetic.  Its updates lead to
duals after each of them, and their moves have a size.  If a move is below the tolerance, the ascent
converges with the first such update.  If none is, the ascent ends with the duals after the first
one of the smallest moves. -/
theorem estimate_of_course {G : Type} [RandomSource G ℝ] {definition : Definition ℝ}
    {config : Config ℝ} {prepared : Prepared ℝ} {settings : DualAscentSettings ℝ}
    (hsetup : setup G definition config = .ok prepared)
    (hconstrained : prepared.problem.isConstrained = true)
    (hsettings : settings.check = .ok settings) :
    (prepared.problem.objective.ReturnsOn prepared.problem.dimension →
      ∃ duals moves, ∀ n, Course prepared.problem settings duals moves n) ∧
    (∀ duals moves k, Course prepared.problem settings duals moves k →
      IsLeast {k | k ∈ Set.Icc 1 settings.maxOuter ∧ moves k < settings.tolerance} k →
      ∃ said, estimate prepared.problem settings = .ok (⟨duals k, .converged k⟩, said)) ∧
    ∀ duals moves, Course prepared.problem settings duals moves settings.maxOuter →
      (∀ k ∈ Set.Icc 1 settings.maxOuter, ¬moves k < settings.tolerance) →
      ∃ j, IsLeast {j | j ∈ Set.Icc 1 settings.maxOuter ∧
          ∀ i ∈ Set.Icc 1 settings.maxOuter, moves j ≤ moves i} j ∧
        ∃ said, estimate prepared.problem settings =
          .ok (⟨duals j, .notConverged settings.maxOuter⟩, said) := by
  have hproblem := wellFormed_of_setup hsetup
  have hpos := Nat.pos_of_ne_zero (DualAscentSettings.inRange_of_check hsettings).2.maxOuter
  obtain ⟨smoothness, hsmoothness, -⟩ := prepared.problem.returns_effectiveSmoothness
  obtain ⟨ascent, hascent⟩ : ∃ ascent, Ascent.ofProblem prepared.problem settings = .ok ascent :=
    ⟨_, Outcome.bind_eq_ok.2 ⟨smoothness, hsmoothness, rfl⟩⟩
  obtain ⟨hparts, rfl⟩ := Ascent.eq_of_ofProblem hascent
  have hstart : ascent.updated 0 =
      .ok (initialDuals prepared.problem ascent.settings, 1.0) := by rw [← hparts]; rfl
  refine ⟨fun hobjective => exists_course hproblem hconstrained hobjective hascent, ?_, ?_⟩
  · intro duals moves k hcourse hfirst
    obtain ⟨hupdated, hchange⟩ := (course_iff hproblem hconstrained hascent).1 hcourse
    obtain ⟨said, hclimb⟩ : ∃ said, ascent.climb ascent.settings.maxOuter 1
        ⟨initialDuals prepared.problem ascent.settings, 1.0, none, []⟩ =
          .ok (⟨duals k, .converged k⟩, said) :=
      Ascent.climb_of_first hupdated hchange hfirst hstart
    exact ⟨said, estimate_eq_ok.2 ⟨ascent, hascent, hclimb⟩⟩
  · intro duals moves hcourse hnever
    obtain ⟨hupdated, hchange⟩ := (course_iff hproblem hconstrained hascent).1 hcourse
    obtain ⟨j, hj, said, hclimb⟩ : ∃ j, FirstSmallest moves ascent.settings.maxOuter j ∧
        ∃ said, ascent.climb ascent.settings.maxOuter 1
          ⟨initialDuals prepared.problem ascent.settings, 1.0, none, []⟩ =
            .ok (⟨duals j, .notConverged ascent.settings.maxOuter⟩, said) :=
      Ascent.climb_of_never hpos hupdated hchange (fun j hj => hnever (j + 1) ⟨by omega, hj⟩)
        (Nat.zero_add _) hstart (.inl ⟨rfl, rfl⟩)
    exact ⟨j, hj, said, estimate_eq_ok.2 ⟨ascent, hascent, hclimb⟩⟩

end

/-! ## A row that cannot be satisfied -/

namespace FarRow

open InnerDescent (Descent Place)
open InnerDescent.SingleRow (problem definition config)

/-- One step of the inner descent for each of three updates, from a dual below zero. -/
noncomputable def settings (tolerance : ℝ) : DualAscentSettings ℝ := ⟨tolerance, 3, 1, 1, -2.0⟩

/-- The duals of `x ≤ -2` on the interval around zero, after each update. -/
noncomputable def duals : ℕ → DualVariables ℝ
  | 0 => ⟨none, some [-2.0]⟩
  | k + 1 => ⟨none, some [(k : ℝ)]⟩

/-- How far they move. -/
noncomputable def moves : ℕ → ℝ
  | 1 => 2.0
  | _ => 1

/-- The inner descent is a step at half the slope. -/
lemma minimize_eq {v : ℝ} (hv : -2 ≤ v) (tolerance : ℝ) :
    InnerDescent.minimize (problem 1 (-2) 1) ⟨none, some [v]⟩ (1 / 2) (settings tolerance) =
      .ok ⟨[Scalar.clamp (-1) 1 (-(1 / 2) * (v + 2))], [0]⟩ := by
  have hfirst := InnerDescent.SingleRow.first_problem 1 (-2) 1
  have hgradient : (Lagrangian.ofProblem (problem 1 (-2) 1) ⟨none, some [v]⟩).gradient [0] [0] =
      .ok [v + 2] := by
    simp [Lagrangian.gradient, Lagrangian.ofProblem, problem, Landscape.flat,
      Objective.ofFunctions, Lagrangian.penalized, PenalizedBlock.multiplier,
      PenalizedBlock.slackResidual, ConstraintBlock.residual, ConstraintBlock.transposeMul,
      DenseMatrix.mulVec, DenseMatrix.ofRow, DenseMatrix.transpose, DenseMatrix.columns,
      DenseMatrix.height, Breach.sameLength, Vec.inner, Vec.sum, Vec.sub, Vec.add, Vec.shift,
      Vec.zipOnto, Vec.zipSpread, Vec.scale, Outcome.ok_bind]
  have hslackGradient :
      (Lagrangian.ofProblem (problem 1 (-2) 1) ⟨none, some [v]⟩).slackGradient [0] [0] =
        .ok [-(v + 2)] := by
    simp [Lagrangian.slackGradient, Lagrangian.ofProblem, problem, Lagrangian.penalized,
      PenalizedBlock.multiplier, PenalizedBlock.slackResidual, ConstraintBlock.residual,
      DenseMatrix.mulVec, DenseMatrix.ofRow, Breach.sameLength, Vec.inner, Vec.sum, Vec.sub,
      Vec.add, Vec.neg, Vec.zipSpread, Vec.scale, Outcome.ok_bind]
  have hcut : min (-(1 / 2) * -(v + 2)) 0 = 0 := min_eq_right (by linarith)
  have hlu : (-1 : ℝ) ≤ 1 := by norm_num
  have hmoved : Vec.shiftScaled [0] (-(1 / 2)) [v + 2] = .ok [-(1 / 2) * (v + 2)] := by
    simp [Vec.shiftScaled, Vec.zipOnto]
  have hmovedSlack : Vec.shiftScaled [0] (-(1 / 2)) [-(v + 2)] = .ok [-(1 / 2) * -(v + 2)] := by
    simp [Vec.shiftScaled, Vec.zipOnto]
  have hproject : InnerDescent.projectOntoBox [-1] [1] [-(1 / 2) * (v + 2)] =
      .ok [Scalar.clamp (-1) 1 (-(1 / 2) * (v + 2))] := by
    simp [InnerDescent.projectOntoBox, Vec.zipExact3, Vec.zipExact, Breach.sameLength,
      Outcome.ok_bind, InnerDescent.project, hlu]
  have hbounds : (problem 1 (-2) 1).lower = [-1] ∧ (problem 1 (-2) 1).upper = [1] := ⟨rfl, rfl⟩
  have hstep : ∃ size, (Descent.ofProblem (problem 1 (-2) 1) ⟨none, some [v]⟩ (1 / 2)
      tolerance).step (.first (problem 1 (-2) 1)) =
        .ok (⟨[Scalar.clamp (-1) 1 (-(1 / 2) * (v + 2))], [0]⟩, size) := by
    simp only [Descent.step, Descent.ofProblem, hfirst, hgradient, hslackGradient, hmoved,
      hmovedSlack, hproject, hbounds.1, hbounds.2, Outcome.ok_bind, List.map_cons, List.map_nil,
      Scalar.minNum_real, Scalar.literal_zero, hcut, Vec.sub]
    exact ⟨_, rfl⟩
  obtain ⟨size, hstep⟩ := hstep
  change (Descent.ofProblem _ _ _ tolerance).run 1 (.first _) = _
  simp only [Descent.run, hstep, Outcome.ok_bind]
  split_ifs <;> rfl

/-- An update from a dual that does not pull beyond the interval. -/
lemma updates {v w : ℝ} (hv : -2 ≤ v) (tolerance : ℝ) (j : ℕ)
    (hw : w = max 0 (v + (Scalar.clamp (-1) 1 (-(1 / 2) * (v + 2)) + 2))) :
    Updates (problem 1 (-2) 1) (settings tolerance) j ⟨none, some [v]⟩
      [Scalar.clamp (-1) 1 (-(1 / 2) * (v + 2))] [0] ⟨none, some [w]⟩ where
  minimized := by
    refine ⟨_, InnerDescent.SingleRow.effectiveSmoothness_problem one_ne_zero, ?_⟩
    have hrate : 1 / (1 + 1 * 1 ^ 2) = (1 / 2 : ℝ) := by norm_num
    rw [hrate]
    exact minimize_eq hv tolerance
  equality := by simp [problem]
  inequality := by
    rintro _ ⟨⟩
    refine ⟨_, rfl, [Scalar.clamp (-1) 1 (-(1 / 2) * (v + 2)) + 2], ?_, ?_⟩
    · simp [ConstraintBlock.residual, DenseMatrix.mulVec, DenseMatrix.ofRow, Breach.sameLength,
        Vec.inner, Vec.sum, Vec.sub, Vec.zipSpread, Outcome.ok_bind]
    · simp [hw, stride, problem, settings]
  equality_eq_none := fun _ => rfl
  inequality_eq_none := by simp [problem]

/-- The dual of the row is first cut off at zero, and then grows by one in each update. -/
lemma course (tolerance : ℝ) (n : ℕ) :
    Course (problem 1 (-2) 1) (settings tolerance) duals moves n where
  equality := rfl
  inequality := rfl
  updates := by
    rintro (_ | j) -
    · refine ⟨_, _, updates (by norm_num) tolerance 0 ?_⟩
      norm_num [Scalar.clamp]
    · have hj : (0 : ℝ) ≤ j := Nat.cast_nonneg j
      have hbeyond : -(1 / 2) * ((j : ℝ) + 2) ≤ -1 := by linarith
      refine ⟨_, _, updates (by linarith) tolerance (j + 1) ?_⟩
      rw [Scalar.clamp_real (by norm_num), min_eq_left (by linarith), max_eq_left hbeyond,
        max_eq_right (by linarith), Nat.cast_succ]
      ring
  moves := by
    have hmove {v w size : ℝ} (hsize : |w - v| = size) :
        IsGreatest (blockMoves ⟨none, some [v]⟩ ⟨none, some [w]⟩) size := by
      have hset : blockMoves ⟨none, some [v]⟩ ⟨none, some [w]⟩ = {|w - v|} := by
        ext
        simp [blockMoves, Vec.norm, Vec.inner, Vec.sum, Real.sqrt_mul_self_eq_abs]
      rw [hset, hsize]
      exact isGreatest_singleton
    rintro (_ | j) -
    · exact hmove (by norm_num [moves])
    · exact hmove (by simp [moves])

/-- The second update is the first one with a smallest move. -/
lemma isLeast_smallest :
    IsLeast {j | j ∈ Set.Icc 1 3 ∧ ∀ i ∈ Set.Icc 1 3, moves j ≤ moves i} 2 := by
  refine firstSmallest_iff.2 ⟨by omega, fun i hi hi' => ?_, fun i hi hi' => ?_⟩
  · interval_cases i <;> norm_num [moves]
  · interval_cases i
    norm_num [moves]

/-- The second update is the first one with a small move. -/
lemma isLeast_small : IsLeast {k | k ∈ Set.Icc 1 3 ∧ moves k < 3 / 2} 2 := by
  refine ⟨⟨by simp, by norm_num [moves]⟩, fun k hk => ?_⟩
  obtain ⟨⟨hk, -⟩, hlt⟩ := hk
  by_contra hnot
  obtain rfl : k = 1 := by omega
  norm_num [moves] at hlt

/-- No move is very small. -/
lemma not_moves_lt : ∀ k ∈ Set.Icc 1 3, ¬moves k < 1 / 2 := by
  rintro k ⟨hk, hk'⟩
  interval_cases k <;> norm_num [moves]

end FarRow

/-- The row is out of reach.  If the tolerance is large the ascent converges with the second update.
Otherwise it ends with the duals after this update as well, since the third one moves them just as
far. -/
theorem estimate_of_course_farRow : ∃ prepared : Prepared ℝ,
    setup Unit (InnerDescent.SingleRow.definition 1 (-2) 1) InnerDescent.SingleRow.config =
      .ok prepared ∧
    prepared.problem.isConstrained = true ∧
    (∀ n, Course prepared.problem (FarRow.settings (1 / 2)) FarRow.duals FarRow.moves n) ∧
    (∃ said, estimate prepared.problem (FarRow.settings (3 / 2)) =
      .ok (⟨⟨none, some [1]⟩, .converged 2⟩, said)) ∧
    ∃ said, estimate prepared.problem (FarRow.settings (1 / 2)) =
      .ok (⟨⟨none, some [1]⟩, .notConverged 3⟩, said) := by
  obtain ⟨notices, hsetup⟩ := InnerDescent.SingleRow.setup_definition 1 (-2) one_pos
  have hcheck {tolerance : ℝ} (h : 0 < tolerance) :
      (FarRow.settings tolerance).check = .ok (FarRow.settings tolerance) := by
    simp [DualAscentSettings.check, FarRow.settings, Scalar.isPositive, h]
  have hfinal : FarRow.duals 2 = ⟨none, some [1]⟩ := by simp [FarRow.duals]
  refine ⟨_, hsetup, rfl, FarRow.course _, ?_, ?_⟩
  · rw [← hfinal]
    exact (estimate_of_course hsetup rfl (hcheck (by norm_num : (0 : ℝ) < 3 / 2))).2.1
      _ _ 2 (FarRow.course _ 2) FarRow.isLeast_small
  · obtain ⟨j, hj, hestimate⟩ :=
      (estimate_of_course hsetup rfl (hcheck (by norm_num : (0 : ℝ) < 1 / 2))).2.2
        _ _ (FarRow.course _ 3) FarRow.not_moves_lt
    obtain rfl := hj.unique FarRow.isLeast_smallest
    rw [← hfinal]
    exact hestimate

end DualAscent

end HopfieldDescent

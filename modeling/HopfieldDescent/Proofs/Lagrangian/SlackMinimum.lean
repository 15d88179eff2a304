import Mathlib
import HopfieldDescent.Proofs.Lagrangian.Descent
import HopfieldDescent.Proofs.Run.Feasibility

/-!
# Updating the slack is an exact minimisation

An update of the slack is a single gradient step, cut off at zero.  Its rate is the reciprocal of
the penalty, which is the curvature along each slack, so that the step goes to the lowest point of
each row at once.  The updated slack is therefore the only minimiser over all slacks of at most
zero, and the slack from which the update began is forgotten (`Lagrangian.updateSlack_of_setup`).
-/

open scoped Matrix

namespace HopfieldDescent.Lagrangian

variable {l : Lagrangian ℝ} {p : PenalizedBlock ℝ} {n : ℕ} {x first slack slack' : Vec ℝ}

/-- Updates lead to one slack, wherever they begin. -/
lemma eq_of_updateSlack_of_updateSlack (hi : l.inequality = some p) (hp : p.Fits n)
    (hpenalty : p.penalty ≠ 0) (hfirst : first.length = p.block.height)
    (hslack : slack.length = p.block.height) {t t' : Vec ℝ} (h : l.updateSlack x first = .ok t)
    (h' : l.updateSlack x slack = .ok t') : t' = t := by
  refine Vec.eq_of_coords_eq (n := p.block.matrix.height)
    ((length_of_updateSlack hi h').trans hslack) ((length_of_updateSlack hi h).trans hfirst) ?_
  funext i
  rw [coords_of_updateSlack hi hp hpenalty hslack h', coords_of_updateSlack hi hp hpenalty hfirst h]

/-- From an updated slack to any other of at most zero, the Lagrangian grows by half the penalty
times the squared distance. -/
lemma value_add_le_of_updateSlack (hl : l.Fits n) (hi : l.inequality = some p)
    (hpenalty : 0 < p.penalty) (hfirst : first.length = p.block.height)
    (h : l.updateSlack x first = .ok slack') (hlength : slack.length = p.block.height)
    (hnonpos : ∀ s ∈ slack, s ≤ 0) {v v' : ℝ} (hvalue' : l.value x slack' = .ok v')
    (hvalue : l.value x slack = .ok v) : v' + p.penalty / 2 *
      (Vec.displacement p.block.matrix.height slack' slack ⬝ᵥ Vec.displacement _ slack' slack) ≤
        v := by
  have hp := hl.inequality p hi
  have hfits {s : Vec ℝ} (hs : s.length = p.block.height) : l.SlackFits s :=
    slackFits_of_length (hs.trans (slackDimension_eq hi).symm)
  obtain ⟨f, hf, hv⟩ := value_eq_ok hl (hfits hlength) hvalue
  obtain ⟨f', hf', hv'⟩ :=
    value_eq_ok hl (hfits ((length_of_updateSlack hi h).trans hfirst)) hvalue'
  obtain rfl := Except.ok.inj (hf.symm.trans hf')
  have hgrowth := term_add_le_of_updateSlack hi hp hpenalty hfirst h hlength hnonpos
  rw [hv, hv', penaltyAt, penaltyAt, hi, Option.elim_some, Option.elim_some]
  linarith

/-- No other slack of at most zero has as small a value as the updated one. -/
lemma eq_of_value_le_of_updateSlack (hl : l.Fits n) (hi : l.inequality = some p)
    (hpenalty : 0 < p.penalty) (hfirst : first.length = p.block.height)
    (h : l.updateSlack x first = .ok slack') (hlength : slack.length = p.block.height)
    (hnonpos : ∀ s ∈ slack, s ≤ 0) {v v' : ℝ} (hvalue' : l.value x slack' = .ok v')
    (hvalue : l.value x slack = .ok v) (hle : v ≤ v') : slack = slack' := by
  have hgrowth := value_add_le_of_updateSlack hl hi hpenalty hfirst h hlength hnonpos hvalue' hvalue
  have hsquare :=
    Vec.dotProduct_self_nonneg (Vec.displacement p.block.matrix.height slack' slack)
  -- there is no room for a distance
  have hzero : Vec.displacement p.block.matrix.height slack' slack ⬝ᵥ
      Vec.displacement _ slack' slack = 0 :=
    le_antisymm (nonpos_of_mul_nonpos_right (by linarith) (half_pos hpenalty)) hsquare
  rw [dotProduct_self_eq_zero, Vec.displacement, sub_eq_zero] at hzero
  exact Vec.eq_of_coords_eq hlength ((length_of_updateSlack hi h).trans hfirst) hzero

/-- An update of the slack is an exact minimisation over all slacks of at most zero: it returns a
slack of this kind, the same one from wherever it begins, and so in particular from this slack
itself.  Every other slack of this kind has a larger value. -/
theorem updateSlack_of_setup {G : Type} [RandomSource G ℝ] {definition : Definition ℝ}
    {config : Config ℝ} {prepared : Prepared ℝ} {duals : DualVariables ℝ}
    {block : ConstraintBlock ℝ} (hsetup : setup G definition config = .ok prepared)
    (hduals : duals.Fit prepared.problem) (hblock : block ∈ prepared.problem.inequalities)
    (hx : x.length = prepared.problem.dimension) :
    ∃ t, t.length = block.height ∧ (∀ a ∈ t, a ≤ 0) ∧
      (∀ slack, slack.length = block.height →
        (ofProblem prepared.problem duals).updateSlack x slack = .ok t) ∧
      (ofProblem prepared.problem duals).updateSlack x t = .ok t ∧
      ∀ f, prepared.problem.objective.value x = .ok f →
        ∃ v, (ofProblem prepared.problem duals).value x t = .ok v ∧
          ∀ slack, slack.length = block.height → (∀ a ∈ slack, a ≤ 0) →
            ∃ v', (ofProblem prepared.problem duals).value x slack = .ok v' ∧
              v ≤ v' ∧ (v' = v → slack = t) := by
  have hproblem := wellFormed_of_setup hsetup
  have hl := fits_ofProblem hproblem hduals
  obtain ⟨dual, -, -, hi⟩ := exists_inequality hduals hblock
  have hpenalty := (penalty_nonneg hproblem).2.2 (Option.isSome_of_mem hblock)
  have hp := hl.inequality _ hi
  set l := ofProblem prepared.problem duals
  have hdimension : l.slackDimension = block.height := slackDimension_eq hi
  have hupdate {slack : Vec ℝ} (hslack : slack.length = block.height) :
      ∃ t, l.updateSlack x slack = .ok t := by
    obtain ⟨t, ht, -⟩ := returns_updateSlack hl hx (hslack.trans hdimension.symm)
    exact ⟨t, ht⟩
  have hzeros : (Vec.zeros block.height : Vec ℝ).length = block.height := Vec.length_zeros _
  obtain ⟨t, ht⟩ := hupdate hzeros
  have htlength := (length_of_updateSlack hi ht).trans hzeros
  have hforgets (slack : Vec ℝ) (hslack : slack.length = block.height) :
      l.updateSlack x slack = .ok t := by
    obtain ⟨t', ht'⟩ := hupdate hslack
    rw [ht', eq_of_updateSlack_of_updateSlack hi hp hpenalty.ne' hzeros hslack ht ht']
  refine ⟨t, htlength, nonpos_of_updateSlack ht, hforgets, hforgets t htlength, fun f hf => ?_⟩
  have hvalues {slack : Vec ℝ} (hslack : slack.length = block.height) :
      ∃ v, l.value x slack = .ok v :=
    exists_value hl (slackFits_of_length (hslack.trans hdimension.symm)) hx hf
  obtain ⟨v, hv⟩ := hvalues htlength
  refine ⟨v, hv, fun slack hslack hnonpos => ?_⟩
  obtain ⟨v', hv'⟩ := hvalues hslack
  have hgrowth := value_add_le_of_updateSlack hl hi hpenalty hzeros ht hslack hnonpos hv hv'
  have hterm := mul_nonneg (half_pos hpenalty).le
    (Vec.dotProduct_self_nonneg (Vec.displacement block.matrix.height t slack))
  exact ⟨v', hv', by linarith, fun hsame =>
    eq_of_value_le_of_updateSlack hl hi hpenalty hzeros ht hslack hnonpos hv hv' hsame.le⟩

/-- On the slope with `x ≤ 1`, half way up, every update leads to a slack of minus one half, also
from above zero, and slack zero has a larger value. -/
theorem updateSlack_of_setup_oneStep : ∃ (prepared : Prepared ℝ) (v v' : ℝ),
    setup Unit OneStep.definition ⟨OneStep.draft none⟩ = .ok prepared ∧
    (ofProblem prepared.problem ⟨some [0], some [0]⟩).updateSlack [1 / 2] [3] =
      .ok [-(1 / 2)] ∧
    (ofProblem prepared.problem ⟨some [0], some [0]⟩).updateSlack [1 / 2] [-(1 / 2)] =
      .ok [-(1 / 2)] ∧
    (ofProblem prepared.problem ⟨some [0], some [0]⟩).value [1 / 2] [-(1 / 2)] = .ok v ∧
    (ofProblem prepared.problem ⟨some [0], some [0]⟩).value [1 / 2] [0] = .ok v' ∧ v < v' := by
  obtain ⟨notices, hsetup⟩ := OneStep.setup_definition none (by simp)
  have hfit : (⟨some [0], some [0]⟩ : DualVariables ℝ).Fit OneStep.problem := ⟨rfl, rfl⟩
  obtain ⟨t, -, -, hforgets, hagain, hminimum⟩ :=
    updateSlack_of_setup (x := [1 / 2]) hsetup hfit rfl rfl
  have hlevel : min (1 / 2 - 1) 0 = (-(1 / 2) : ℝ) := by norm_num
  have hupdate := OneStep.updateSlack_eq none (1 / 2) 3
  rw [hlevel] at hupdate
  obtain rfl : t = [-(1 / 2)] := Except.ok.inj ((hforgets [3] rfl).symm.trans hupdate)
  obtain ⟨v, hv, hleast⟩ := hminimum _ rfl
  obtain ⟨v', hv', hle, honly⟩ := hleast [0] rfl (by simp)
  refine ⟨_, v, v', hsetup, hforgets [3] rfl, hagain, hv, hv', hle.lt_of_ne fun hsame => ?_⟩
  have hzero := honly hsame.symm
  norm_num at hzero

end HopfieldDescent.Lagrangian

import Mathlib
import HopfieldDescent.Proofs.StepLength.Trials

/-!
# Where backtracking ends

Backtracking ends with the first trial that decreases enough, or with the last one, whatever that
does.  The step it returns is the first guess halved as often as trials were turned down.
-/

namespace HopfieldDescent.StepLength

variable {R ε T : Type}

/-- The end of backtracking: after some halvings of the first guess, with the trial of the step that
is left, which decreases enough unless the halvings have run out. -/
theorem exists_halved_of_backtrack [Scalar R] {trial : R → Except ε (R × T)} {current slope : R}
    {halvings : ℕ} {step step' : R} {c : T}
    (h : backtrack trial current slope halvings step = .ok (step', c)) :
    ∃ k ≤ halvings, step' = halved k step ∧ ∃ value, trial step' = .ok (value, c) ∧
      (accepts current slope step' value = true ∨ k = halvings) := by
  -- a trial of this kind has no state, so that any state will do
  obtain ⟨k, ⟨hk, hleast⟩, hbacktrack⟩ := StatefulTrial.exists_isLeast
    (fun step s => (trial step, s)) current slope halvings step ()
  rw [StatefulTrial.backtrack_const, h] at hbacktrack
  obtain ⟨⟨value, c'⟩, htrial, hpair⟩ := Outcome.map_eq_ok.1 (congrArg Prod.fst hbacktrack).symm
  obtain ⟨rfl, rfl⟩ := Prod.mk.inj hpair
  refine ⟨k, hleast (.inl rfl), rfl, value, htrial, hk.symm.imp_left fun hends => ?_⟩
  exact decide_eq_true (hends value c' htrial)

/-- A first guess that decreases enough is taken. -/
lemma backtrack_of_accepts [Scalar R] {trial : R → Except ε (R × T)} {current slope : R}
    {halvings : ℕ} {step value : R} {c : T} (htrial : trial step = .ok (value, c))
    (haccepts : accepts current slope step value = true) :
    backtrack trial current slope (halvings + 1) step = .ok (step, c) := by
  simp only [backtrack, htrial, Outcome.ok_bind, haccepts, if_true]
  rfl

/-- A step against a slope that does not go up ends no higher than it began, unless the halvings
have run out. -/
theorem le_or_eq_of_backtrack {trial : ℝ → Except ε (ℝ × T)} {current slope step step' : ℝ} {c : T}
    (h : backtrack trial current slope maxHalvings step = .ok (step', c)) (hstep : 0 ≤ step)
    (hslope : slope ≤ 0) :
    ∃ value, trial step' = .ok (value, c) ∧ (value ≤ current ∨ step' = step / 2 ^ 64) := by
  obtain ⟨k, -, hhalved, value, htrial, haccepted | rfl⟩ := exists_halved_of_backtrack h
  · refine ⟨value, htrial, .inl ?_⟩
    have hdecrease : value ≤ current + 1 / 2 * step' * slope := by
      simpa [accepts] using haccepted
    have hstep' : 0 ≤ step' := by
      rw [hhalved, halved_real]
      positivity
    have hpromise : 1 / 2 * step' * slope ≤ 0 :=
      mul_nonpos_of_nonneg_of_nonpos (by positivity) hslope
    linarith
  · exact ⟨value, htrial, .inr (hhalved.trans (halved_real _ _))⟩

end HopfieldDescent.StepLength

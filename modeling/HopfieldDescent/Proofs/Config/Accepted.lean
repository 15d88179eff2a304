import Mathlib
import HopfieldDescent.Config
import HopfieldDescent.Proofs.Outcome
import HopfieldDescent.Proofs.Scalar.Exact

/-!
# What accepting settings guarantees

Settings that `Settings.build` accepts are taken over as they are, and each of them lies in its
range.  Conversely all settings in their ranges are accepted, the standard ones among them.  What is
accepted of the settings of the dual ascent lies in its range as well.
-/

namespace HopfieldDescent

variable {R : Type} [Scalar R]

/-- Every setting lies in its range. -/
structure Settings.InRange (s : Settings R) : Prop where
  /-- The weight of the binary pull lies in the unit interval. -/
  gamma : Scalar.inUnitInterval s.gamma = true
  /-- The angle lies in the unit interval. -/
  theta : Scalar.inUnitInterval s.theta = true
  /-- The stop distance is not negative. -/
  ascentStop : ∀ distance ∈ s.ascentStop, Scalar.isNonnegative distance = true
  /-- The absorption distance is not negative. -/
  absorption : ∀ distance ∈ s.absorption, Scalar.isNonnegative distance = true
  /-- There is room for the start point. -/
  maxIterations : s.maxIterations ≠ 0
  /-- The precision is positive. -/
  precision : Scalar.isPositive s.precision = true
  /-- Every gain is positive. -/
  gain : s.gain.isPositive = true

/-- Accepted settings lie in their ranges and are not changed. -/
theorem Settings.inRange_of_build {s : Settings R} {config : Config R}
    (h : s.build = .ok config) : config.toSettings = s ∧ s.InRange := by
  unfold build at h
  split_ifs at h with hgamma htheta hascent habsorption hroom hprecision hgain
  obtain rfl := Except.ok.inj h
  simp only [Bool.not_eq_true', Bool.not_eq_false] at hgamma htheta hascent habsorption
  simp only [Bool.not_eq_true', Bool.not_eq_false] at hprecision hgain
  exact ⟨rfl, hgamma, htheta, (Option.all_eq_true _ _).1 hascent,
    (Option.all_eq_true _ _).1 habsorption, hroom, hprecision, hgain⟩

/-- Settings that lie in their ranges are accepted. -/
lemma Settings.build_of_inRange {s : Settings R} (h : s.InRange) : s.build = .ok ⟨s⟩ := by
  have hascent : s.ascentStop.all Scalar.isNonnegative = true :=
    (Option.all_eq_true _ _).2 h.ascentStop
  have habsorption : s.absorption.all Scalar.isNonnegative = true :=
    (Option.all_eq_true _ _).2 h.absorption
  simp [build, h.gamma, h.theta, hascent, habsorption, h.maxIterations, h.precision, h.gain]

/-- The standard settings lie in their ranges. -/
lemma Settings.inRange_standard : (standard : Settings ℝ).InRange where
  gamma := by norm_num [standard]
  theta := by norm_num [standard]
  ascentStop := by norm_num [standard]
  absorption := by simp [standard]
  maxIterations := by simp [standard]
  precision := by norm_num [standard]
  gain := by norm_num [standard, Gain.isPositive]

/-- Every setting of the dual ascent lies in its range. -/
structure DualAscentSettings.InRange (s : DualAscentSettings R) : Prop where
  /-- The tolerance is positive. -/
  tolerance : Scalar.isPositive s.tolerance = true
  /-- There is room for an update. -/
  maxOuter : s.maxOuter ≠ 0
  /-- There is room for a step of the inner descent. -/
  maxInner : s.maxInner ≠ 0
  /-- The decay is positive. -/
  stepDecay_pos : 0.0 < s.stepDecay
  /-- The decay is at most one. -/
  stepDecay_le : s.stepDecay ≤ 1.0
  /-- The value from which duals start is finite. -/
  initialDual : Scalar.isFinite s.initialDual = true

/-- Accepted settings of the dual ascent lie in their ranges and are not changed. -/
theorem DualAscentSettings.inRange_of_check {s accepted : DualAscentSettings R}
    (h : s.check = .ok accepted) : accepted = s ∧ s.InRange := by
  unfold check at h
  split_ifs at h with htolerance hroom hdecay hinitial
  obtain rfl := Except.ok.inj h
  simp only [Bool.not_eq_true', Bool.not_eq_false] at htolerance hdecay hinitial
  rw [Bool.and_eq_true, decide_eq_true_eq, decide_eq_true_eq] at hdecay
  exact ⟨rfl, htolerance, fun h => hroom (.inl h), fun h => hroom (.inr h), hdecay.1, hdecay.2,
    hinitial⟩

end HopfieldDescent
